import SmokeBench.Machine.Shell.Expand

/-!
The conditions that `test` decides: on texts, on numbers and on files.
-/

namespace SmokeBench.Machine.Shell.Condition

/-- Looks a path up; the flag says whether a link at the end is followed. -/
abbrev Look := Bool → String → Option Entry

def isUnary (op : String) : Bool :=
  ["-e", "-f", "-d", "-s", "-r", "-w", "-x", "-h", "-L", "-n", "-z", "-c", "-b", "-p", "-S", "-t",
    "-u", "-g", "-k", "-O", "-G"].contains op

def isBinary (op : String) : Bool :=
  ["=", "==", "!=", "<", ">", "-eq", "-ne", "-lt", "-le", "-gt", "-ge", "-nt", "-ot", "-ef"].contains op

def unary (look : Look) (op arg : String) : Bool :=
  let entry := look true arg
  let holds (p : Entry → Bool) : Bool := entry.any p
  match op with
  | "-n" => !arg.isEmpty
  | "-z" => arg.isEmpty
  | "-e" | "-r" | "-w" | "-O" | "-G" => entry.isSome
  | "-f" => holds fun e => (FileTree.metadataOf e).kind == .file
  | "-d" => holds fun e => (FileTree.metadataOf e).kind == .directory
  | "-s" => holds fun e => (FileTree.metadataOf e).size != 0
  | "-x" => holds fun
    | .directory _ => true
    | e => FileTree.mayExecute e
  | "-c" => holds fun
    | .device _ => true
    | _ => false
  | "-h" | "-L" => (look false arg).any fun
    | .link _ => true
    | _ => false
  | _ => false

def numeral (s : String) : Except String Int :=
  let cs := (s.toList.dropWhile fun c => c == ' ' || c == '\t' || c == '\n').reverse.dropWhile
    (fun c => c == ' ' || c == '\t' || c == '\n') |>.reverse
  let ds := match cs with
    | '-' :: ds | '+' :: ds => ds
    | ds => ds
  match (String.ofList ds).toNat? with
  | some n =>
    if ds.all Char.isDigit then .ok (if cs.head? == some '-' then -(n : Int) else n)
    else .error s!"Illegal number: {s}"
  | none => .error s!"Illegal number: {s}"

def binary (look : Look) (a op b : String) : Except String Bool :=
  let numbers (f : Int → Int → Bool) : Except String Bool := do return f (← numeral a) (← numeral b)
  match op with
  | "=" | "==" => .ok (a == b)
  | "!=" => .ok (a != b)
  | "<" => .ok (decide (a < b))
  | ">" => .ok (decide (b < a))
  | "-eq" => numbers (· == ·)
  | "-ne" => numbers (· != ·)
  | "-lt" => numbers (decide <| · < ·)
  | "-le" => numbers (decide <| · ≤ ·)
  | "-gt" => numbers (decide <| · > ·)
  | "-ge" => numbers (decide <| · ≥ ·)
  | _ => .ok ((look true a).isSome && (look true b).isSome && op == "-ef" && a == b)

abbrev Reader := StateT (List String) (Except String)

def next? : Reader (Option String) := return (← get).head?

def drop (n : Nat) : Reader Unit := modify (·.drop n)

mutual

def disjunction (look : Look) : (fuel : Nat) → Reader Bool
  | 0 => throw "too many arguments"
  | fuel + 1 => do
    let a ← conjunction look fuel
    if (← next?) == some "-o" then
      drop 1
      let b ← disjunction look fuel
      return a || b
    else return a

def conjunction (look : Look) : (fuel : Nat) → Reader Bool
  | 0 => throw "too many arguments"
  | fuel + 1 => do
    let a ← negation look fuel
    if (← next?) == some "-a" then
      drop 1
      let b ← conjunction look fuel
      return a && b
    else return a

def negation (look : Look) : (fuel : Nat) → Reader Bool
  | 0 => throw "too many arguments"
  | fuel + 1 => do
    match ← get with
    | a :: op :: b :: _ =>
      if isBinary op then drop 3; binary look a op b
      else if a == "!" then drop 1; return !(← negation look fuel)
      else primary look fuel
    | "!" :: _ :: _ => drop 1; return !(← negation look fuel)
    | _ => primary look fuel

def primary (look : Look) : (fuel : Nat) → Reader Bool
  | 0 => throw "too many arguments"
  | fuel + 1 => do
    match ← get with
    | "(" :: _ :: _ =>
      drop 1
      let a ← disjunction look fuel
      if (← next?) == some ")" then drop 1; return a else throw "closing paren expected"
    | op :: arg :: _ =>
      if isUnary op then drop 2; return unary look op arg
      else drop 1; return !op.isEmpty
    | [a] => drop 1; return !a.isEmpty
    | [] => throw "argument expected"

end

def evaluate (look : Look) (args : List String) : Except String Bool :=
  match args with
  | [] => .ok false
  | [a] => .ok (!a.isEmpty)
  | ["!", a] => .ok a.isEmpty
  | args => do
    let (b, rest) ← (disjunction look (2 * args.length + 4)).run args
    match rest with
    | [] => return b
    | x :: _ => throw s!"{x}: unexpected operator"

end SmokeBench.Machine.Shell.Condition
