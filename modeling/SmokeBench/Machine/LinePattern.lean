import SmokeBench.Machine.Shell.Pattern

/-!
Patterns for lines, as `grep` takes them: plain characters, `.`, bracket expressions, `*` after one of
these, and the anchors `^` and `$`.
-/

namespace SmokeBench.Machine

structure LinePiece where
  fits : Char → Bool
  repeated : Bool

structure LinePattern where
  atStart : Bool
  pieces : List LinePiece
  atEnd : Bool

namespace LinePattern

/-- One piece without its star, and what is left. -/
def single (same : Char → Char → Bool) (cs : List Char) : Option ((Char → Bool) × List Char) :=
  match cs with
  | [] => none
  | '.' :: rest => some (fun _ => true, rest)
  | '\\' :: c :: rest => some (same c, rest)
  | '[' :: rest =>
    match Shell.Pattern.bracket true [] (rest.map (·, false)) with
    | some (set, after) => some (fun c => Shell.Pattern.accepts c set, after.map (·.1))
    | none => some (same '[', rest)
  | c :: rest => some (same c, rest)

def piecesOf (same : Char → Char → Bool) : (fuel : Nat) → List Char → List LinePiece
  | 0, _ => []
  | fuel + 1, cs =>
    match single same cs with
    | none => []
    | some (fits, '*' :: rest) => ⟨fits, true⟩ :: piecesOf same fuel rest
    | some (fits, rest) => ⟨fits, false⟩ :: piecesOf same fuel rest

def ofText (ignoreCase literal : Bool) (s : String) : LinePattern :=
  let same (a b : Char) : Bool := a == b || (ignoreCase && a.toLower == b.toLower)
  let cs := s.toList
  if literal then ⟨false, cs.map fun c => ⟨same c, false⟩, false⟩
  else
    let atStart := cs.head? == some '^'
    let cs := if atStart then cs.drop 1 else cs
    let atEnd := cs.getLast? == some '$'
    let cs := if atEnd then cs.dropLast else cs
    ⟨atStart, piecesOf same cs.length cs, atEnd⟩

/-- Whether the pieces fit at the start of a text. -/
def fitsHere (atEnd : Bool) : (fuel : Nat) → List LinePiece → List Char → Bool
  | 0, _, _ => false
  | _ + 1, [], cs => !atEnd || cs.isEmpty
  | fuel + 1, p :: ps, cs =>
    if p.repeated then
      fitsHere atEnd fuel ps cs || match cs with
        | c :: cs => p.fits c && fitsHere atEnd fuel (p :: ps) cs
        | [] => false
    else
      match cs with
      | c :: cs => p.fits c && fitsHere atEnd fuel ps cs
      | [] => false

def fits (p : LinePattern) (line : String) : Bool :=
  let cs := line.toList
  let fuel := p.pieces.length + cs.length + 1
  if p.atStart then fitsHere p.atEnd fuel p.pieces cs
  else (List.range (cs.length + 1)).any fun n => fitsHere p.atEnd fuel p.pieces (cs.drop n)

end LinePattern

end SmokeBench.Machine
