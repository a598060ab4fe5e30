import SmokeBench.Machine.Process
import SmokeBench.Machine.Shell.Arithmetic
import SmokeBench.Machine.Shell.Pattern

/-!
From words to the texts they stand for: parameters, the outputs of command substitutions, arithmetic,
splitting into fields and matching file names. The outputs are given in the order in which the
substitutions stand in the words.
-/

namespace SmokeBench.Machine.Shell

namespace State

def get? (s : State) (name : String) : Option String :=
  (s.vars.find? (·.1 == name)).map (·.2.value)

def setVariable (s : State) (name : String) (v : Variable) : State :=
  { s with vars := (name, v) :: s.vars.filter (·.1 != name) }

def assign (s : State) (name value : String) : State :=
  let exported := (s.vars.find? (·.1 == name)).any (·.2.exported)
  s.setVariable name ⟨value, exported⟩

def unset (s : State) (name : String) : State :=
  { s with vars := s.vars.filter (·.1 != name) }

def exported (s : State) : List (String × String) :=
  (s.vars.filter (·.2.exported)).map fun v => (v.1, v.2.value)

def separators (s : State) : String := (s.get? "IFS").getD " \t\n"

def flags (s : State) : String := (if s.errexit then "e" else "") ++ (if s.nounset then "u" else "")

def parameter (s : State) (name : String) : Option String :=
  match name with
  | "?" => some (toString s.status)
  | "$" => some (toString s.mainPid)
  | "#" => some (toString s.args.length)
  | "!" => s.lastBackground.map toString
  | "-" => some s.flags
  | "0" => some s.name
  | name =>
    match name.toNat? with
    | some n => s.args[n - 1]?
    | none => s.get? name

end State

mutual

def Part.substitutions : Part → List (List Item)
  | .bare _ | .quoted _ => []
  | .param _ _ arg _ => substitutionsIn arg
  | .command body _ => [body]
  | .arith body _ => substitutionsIn body

def substitutionsIn : List Part → List (List Item)
  | [] => []
  | p :: rest => p.substitutions ++ substitutionsIn rest

end

/-- A stretch of an expanded word. Quoted text is taken as it is, text from an unquoted expansion is
split at separators, and a gap parts two arguments. -/
inductive Segment
  | text (s : String) (quoted split : Bool)
  | gap

structure Expansion where
  shell : State
  outputs : List String

abbrev Expander := StateT Expansion (Except String)

def Segment.plain : Segment → String
  | .text s _ _ => s
  | .gap => " "

def plainOf (segments : List Segment) : String := String.join (segments.map Segment.plain)

def patternOf (segments : List Segment) : Pattern :=
  segments.flatMap fun
    | .text s quoted _ => s.toList.map (·, quoted)
    | .gap => [(' ', true)]

def trimNewlines (s : String) : String :=
  String.ofList ((s.toList.reverse.dropWhile (· == '\n')).reverse.filter (· != '\x00'))

def dropOutputs (n : Nat) : Expander Unit :=
  modify fun e => { e with outputs := e.outputs.drop n }

def scalar (s : String) (inQuotes : Bool) : List Segment := [.text s inQuotes (!inQuotes)]

def arguments (star inQuotes : Bool) : Expander (List Segment) := do
  let s := (← get).shell
  if star && inQuotes then
    let sep := match s.separators.toList with
      | [] => ""
      | c :: _ => String.singleton c
    return [.text (String.intercalate sep s.args) true false]
  else return (s.args.map fun a => Segment.text a inQuotes (!inQuotes)).intersperse .gap

mutual

def expandPart : Part → Expander (List Segment)
  | .bare t => return [.text t false false]
  | .quoted t => return [.text t true false]
  | .command _ inQuotes => do
    let e ← get
    match e.outputs with
    | [] => return []
    | out :: more =>
      set { e with outputs := more }
      return scalar (trimNewlines out) inQuotes
  | .arith body inQuotes => do
    let text := plainOf (← expandList body)
    let e ← get
    match Arithmetic.evaluate e.shell.get? text with
    | .error message => throw message
    | .ok (n, assigned) =>
      set { e with shell := assigned.foldl (fun s (a : String × String) => s.assign a.1 a.2) e.shell }
      return scalar (toString n) inQuotes
  | .param name op arg inQuotes => do
    let s := (← get).shell
    let many := name == "@" || name == "*"
    let value := if many then (if s.args.isEmpty then none else some (String.intercalate " " s.args))
      else s.parameter name
    let own : Expander (List Segment) :=
      if many then arguments (name == "*") inQuotes else pure (scalar (value.getD "") inQuotes)
    let missing (colon : Bool) : Bool := match value with
      | none => true
      | some v => colon && v.isEmpty
    let skipArg : Expander Unit := dropOutputs (substitutionsIn arg).length
    match op with
    | .plain =>
      if value.isNone && s.nounset && !many then throw s!"{name}: parameter not set" else own
    | .length => return scalar (toString (value.getD "").length) inQuotes
    | .orDefault colon =>
      if missing colon then
        let segments ← expandList arg
        return if inQuotes then [.text (plainOf segments) true false] else segments
      else skipArg; own
    | .orAssign colon =>
      if missing colon then
        let v := plainOf (← expandList arg)
        modify fun e => { e with shell := e.shell.assign name v }
        return scalar v inQuotes
      else skipArg; own
    | .orFail colon =>
      if missing colon then
        let v := plainOf (← expandList arg)
        throw (name ++ ": " ++ if v.isEmpty then "parameter not set" else v)
      else skipArg; own
    | .alternative colon =>
      if missing colon then skipArg; return if inQuotes then [.text "" true false] else []
      else
        let segments ← expandList arg
        return if inQuotes then [.text (plainOf segments) true false] else segments
    | .dropFront longest =>
      let p := patternOf (← expandList arg)
      return scalar (Pattern.dropFront p longest (value.getD "")) inQuotes
    | .dropBack longest =>
      let p := patternOf (← expandList arg)
      return scalar (Pattern.dropBack p longest (value.getD "")) inQuotes

def expandList : List Part → Expander (List Segment)
  | [] => return []
  | p :: rest => do
    let first ← expandPart p
    let more ← expandList rest
    return first ++ more

end

/-- A tilde at the start of a word stands for the home directory. -/
def expandTilde (s : State) (w : Word) : Word :=
  match w with
  | .bare t :: rest =>
    if t == "~" || t.startsWith "~/" then
      .quoted ((s.get? "HOME").getD "~") :: .bare (t.drop 1).toString :: rest
    else w
  | w => w

/-- Fields being put together: those done, newest first, and the open one, reversed. -/
structure Splitting where
  done : List Pattern
  current : Pattern
  open? : Bool

namespace Splitting

def close (s : Splitting) : Splitting :=
  if s.open? then ⟨s.current.reverse :: s.done, [], false⟩ else s

def forceClose (s : Splitting) : Splitting := ⟨s.current.reverse :: s.done, [], false⟩

def addChar (separators : String) (s : Splitting) (c : Char) : Splitting :=
  if separators.toList.contains c then
    if c == ' ' || c == '\t' || c == '\n' then s.close else s.forceClose
  else { s with current := (c, false) :: s.current, open? := true }

def add (separators : String) (s : Splitting) : Segment → Splitting
  | .gap => s.close
  | .text t quoted split =>
    if split then t.toList.foldl (addChar separators) s
    else
      { s with
        current := (t.toList.map (·, quoted)).reverse ++ s.current
        open? := s.open? || quoted || !t.isEmpty }

end Splitting

def fieldsOf (separators : String) (segments : List Segment) : List Pattern :=
  (segments.foldl (Splitting.add separators) ⟨[], [], false⟩).close.done.reverse

def patternText (p : Pattern) : String := String.ofList (p.map (·.1))

def patternPieces (p : Pattern) : List Pattern :=
  let cut (acc : Pattern × List Pattern) (c : Char × Bool) : Pattern × List Pattern :=
    if c.1 == '/' then ([], acc.1.reverse :: acc.2) else (c :: acc.1, acc.2)
  let (last, done) := p.foldl cut ([], [])
  (last.reverse :: done).reverse

def insertSorted (x : String) : List String → List String
  | [] => [x]
  | y :: ys => if x ≤ y then x :: y :: ys else y :: insertSorted x ys

/-- The paths that fit, each given as the text before the pieces still to match. -/
def matchPieces (t : FileTree) (cwd : Location) (before : String) : List Pattern → List String
  | [] => [before]
  | piece :: rest =>
    let continueWith (name : String) : List String :=
      if rest.isEmpty then
        match t.lookUp cwd false (bytesOf (before ++ name)) with
        | .ok _ => [before ++ name]
        | .error _ => []
      else matchPieces t cwd (before ++ name ++ "/") rest
    if Pattern.isActive piece then
      let directory := if before.isEmpty then "." else before
      match t.lookUp cwd true (bytesOf directory) with
      | .ok (l, .directory _) =>
        let hidden := piece.head?.any (·.1 == '.')
        let names := ((t.names l).map octets).filter fun n =>
          (hidden || !n.startsWith ".") && Pattern.fits piece n
        (names.foldr insertSorted []).flatMap continueWith
      | _ => []
    else continueWith (patternText piece)

def fileNames (t : FileTree) (cwd : Location) (p : Pattern) : List String :=
  if Pattern.isActive p then
    match matchPieces t cwd "" (patternPieces p) with
    | [] => [patternText p]
    | found => found
  else [patternText p]

def expandWords (t : FileTree) (cwd : Location) : List Word → Expander (List String)
  | [] => return []
  | w :: rest => do
    let s := (← get).shell
    let segments ← expandList (expandTilde s w)
    let here := (fieldsOf (← get).shell.separators segments).flatMap (fileNames t cwd)
    return here ++ (← expandWords t cwd rest)

def expandText (w : Word) : Expander String := do
  let s := (← get).shell
  return plainOf (← expandList (expandTilde s w))

def expandPattern (w : Word) : Expander Pattern := return patternOf (← expandList w)

end SmokeBench.Machine.Shell
