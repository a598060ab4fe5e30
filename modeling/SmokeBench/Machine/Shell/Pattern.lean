/-!
Shell patterns: `*`, `?` and bracket expressions. A pattern is a list of characters, each with a
mark that says whether it stands for itself.
-/

namespace SmokeBench.Machine.Shell

abbrev Pattern := List (Char × Bool)

namespace Pattern

def ofText (s : String) : Pattern := s.toList.map (·, false)

/-- Splits a bracket expression from what follows it; none when it is not closed. -/
def bracket (first : Bool) (done : Pattern) : Pattern → Option (Pattern × Pattern)
  | [] => none
  | (c, literal) :: rest =>
    if c == ']' && !literal && !first then some (done.reverse, rest)
    else bracket false ((c, literal) :: done) rest

def inSet (x : Char) : Pattern → Bool
  | (a, _) :: ('-', false) :: (b, l) :: rest =>
    (a ≤ x && x ≤ b) || inSet x ((b, l) :: rest)
  | (a, _) :: rest => a == x || inSet x rest
  | [] => false

def accepts (x : Char) (set : Pattern) : Bool :=
  match set with
  | ('!', false) :: set | ('^', false) :: set => !inSet x set
  | set => inSet x set

/-- Whether a pattern describes a whole text; the bound is the length of both together. -/
def run : (fuel : Nat) → Pattern → List Char → Bool
  | 0, _, _ => false
  | _ + 1, [], cs => cs.isEmpty
  | fuel + 1, (p, literal) :: ps, cs =>
    if literal then
      match cs with
      | c :: cs => c == p && run fuel ps cs
      | [] => false
    else if p == '*' then
      run fuel ps cs || match cs with
        | _ :: cs => run fuel ((p, literal) :: ps) cs
        | [] => false
    else if p == '?' then
      match cs with
      | _ :: cs => run fuel ps cs
      | [] => false
    else
      match (if p == '[' then bracket true [] ps else none), cs with
      | some (set, after), c :: cs => accepts c set && run fuel after cs
      | some _, [] => false
      | none, c :: cs => c == p && run fuel ps cs
      | none, [] => false

def fits (p : Pattern) (s : String) : Bool := run (p.length + s.length + 1) p s.toList

/-- Whether a pattern has a character that does not stand for itself. -/
def isActive (p : Pattern) : Bool :=
  p.any fun c => !c.2 && (c.1 == '*' || c.1 == '?' || c.1 == '[')

/-- Removes the shortest or longest fitting front. -/
def dropFront (p : Pattern) (longest : Bool) (s : String) : String :=
  let cs := s.toList
  let cuts := List.range (cs.length + 1)
  let cuts := if longest then cuts.reverse else cuts
  match cuts.find? fun n => run (p.length + n + 1) p (cs.take n) with
  | some n => String.ofList (cs.drop n)
  | none => s

def dropBack (p : Pattern) (longest : Bool) (s : String) : String :=
  let cs := s.toList
  let cuts := List.range (cs.length + 1)
  let cuts := if longest then cuts else cuts.reverse
  match cuts.find? fun n => run (p.length + cs.length + 1) p (cs.drop n) with
  | some n => String.ofList (cs.take n)
  | none => s

end Pattern

end SmokeBench.Machine.Shell
