import SmokeBench.Toml.Document
import SmokeBench.Toml.Quoted
import SmokeBench.Toml.Scalar

/-!
Reading a TOML 1.1 document. Every function takes the text that is left and gives what it read and
what is left then; nothing is said about why a text is no document. Values and dotted keys may be
nested eighty deep.
-/

namespace SmokeBench.Toml

abbrev Rest := List Char

def depthLimit : Nat := 80

def isSpace (c : Char) : Bool := c == ' ' || c == '\t'

def skipSpaces (cs : Rest) : Rest := cs.dropWhile isSpace

/-- A comment reaches to the end of its line and holds no control characters. -/
def skipComment (cs : Rest) : Option Rest :=
  match cs with
  | '#' :: rest =>
    let body := rest.takeWhile fun c => !Quoted.isControl c
    match rest.drop body.length with
    | [] => some []
    | '\n' :: r => some ('\n' :: r)
    | '\r' :: '\n' :: r => some ('\r' :: '\n' :: r)
    | _ => none
  | cs => some cs

/-- Spaces, line ends and comments, as they may stand inside brackets. -/
def skipFiller : (fuel : Nat) → Rest → Option Rest
  | 0, cs => some cs
  | fuel + 1, cs =>
    match skipSpaces cs with
    | '\n' :: rest => skipFiller fuel rest
    | '\r' :: '\n' :: rest => skipFiller fuel rest
    | '#' :: rest => do skipFiller fuel (← skipComment ('#' :: rest))
    | rest => some rest

/-- The end of a line: spaces and a comment at most. -/
def endLine (cs : Rest) : Option Rest := do
  match ← skipComment (skipSpaces cs) with
  | [] => some []
  | '\n' :: rest => some rest
  | '\r' :: '\n' :: rest => some rest
  | _ => none

def isBareKeyChar (c : Char) : Bool :=
  ('a' ≤ c && c ≤ 'z') || ('A' ≤ c && c ≤ 'Z') || ('0' ≤ c && c ≤ '9') || c == '_' || c == '-'

def simpleKey (cs : Rest) : Option (String × Rest) :=
  match cs with
  | '"' :: _ | '\'' :: _ => Quoted.short cs
  | cs =>
    let name := cs.takeWhile isBareKeyChar
    if name.isEmpty then none else some (String.ofList name, cs.drop name.length)

/-- Keys joined by points; at most `depth` of them. -/
def keyPath : (depth : Nat) → Rest → Option (List String × Rest)
  | 0, _ => none
  | depth + 1, cs => do
    let (key, rest) ← simpleKey cs
    match skipSpaces rest with
    | '.' :: rest =>
      let (keys, rest) ← keyPath depth (skipSpaces rest)
      return (key :: keys, rest)
    | rest => return ([key], rest)

def endsScalar (c : Char) : Bool :=
  isSpace c || c == '\n' || c == '\r' || c == ',' || c == ']' || c == '}' || c == '#' || c == '=' ||
    c == '"' || c == '\'' || c == '[' || c == '{'

/-- An unquoted scalar; a date may be joined to a time by one space. -/
def scalar (cs : Rest) : Option (Value × Rest) :=
  let token := cs.takeWhile (!endsScalar ·)
  let rest := cs.drop token.length
  let joined := match Scalar.date token, rest with
    | some [], ' ' :: c :: more =>
      if Scalar.isDigit c then
        let time := (c :: more).takeWhile (!endsScalar ·)
        some (token ++ ' ' :: time, (c :: more).drop time.length)
      else none
    | _, _ => none
  let (token, rest) := joined.getD (token, rest)
  (Scalar.read token).map (·, rest)

mutual

def value : (fuel depth : Nat) → Rest → Option (Value × Rest)
  | 0, _, _ => none
  | _, 0, _ => none
  | fuel + 1, depth + 1, cs =>
    match cs with
    | '"' :: _ | '\'' :: _ => (Quoted.any cs).map fun r => (.string r.1, r.2)
    | '[' :: rest => do
      let (items, rest) ← arrayItems fuel depth rest
      return (.array items, rest)
    | '{' :: rest => do
      let (entries, rest) ← inlineEntries fuel depth [] rest
      return (.table (freezeEntries entries), rest)
    | cs => scalar cs

/-- The items of an array up to its closing bracket. -/
def arrayItems : (fuel depth : Nat) → Rest → Option (List Value × Rest)
  | 0, _, _ => none
  | fuel + 1, depth, cs => do
    match ← skipFiller cs.length cs with
    | ']' :: rest => return ([], rest)
    | cs =>
      let (item, rest) ← value fuel depth cs
      match ← skipFiller rest.length rest with
      | ',' :: rest =>
        let (items, rest) ← arrayItems fuel depth rest
        return (item :: items, rest)
      | ']' :: rest => return ([item], rest)
      | _ => none

/-- The entries of an inline table up to its closing brace. -/
def inlineEntries : (fuel depth : Nat) → Document → Rest → Option (Document × Rest)
  | 0, _, _, _ => none
  | fuel + 1, depth, d, cs => do
    match ← skipFiller cs.length cs with
    | '}' :: rest => return (d, rest)
    | cs =>
      let (path, rest) ← keyPath depthLimit cs
      match skipSpaces rest with
      | '=' :: rest =>
        let (v, rest) ← value fuel depth (skipSpaces rest)
        let d ← d.insert path v
        match ← skipFiller rest.length rest with
        | ',' :: rest => inlineEntries fuel depth d rest
        | '}' :: rest => return (d, rest)
        | _ => none
      | _ => none

end

structure Reading where
  document : Document
  header : List String

def header (r : Reading) (cs : Rest) : Option (Reading × Rest) := do
  let (path, rest) ← keyPath depthLimit (skipSpaces cs)
  match rest with
  | ']' :: rest => return (⟨← r.document.openTable path, path⟩, rest)
  | _ => none

def elementHeader (r : Reading) (cs : Rest) : Option (Reading × Rest) := do
  let (path, rest) ← keyPath depthLimit (skipSpaces cs)
  match rest with
  | ']' :: ']' :: rest => return (⟨← r.document.openElement path, path⟩, rest)
  | _ => none

def pair (r : Reading) (cs : Rest) : Option (Reading × Rest) := do
  let (path, rest) ← keyPath depthLimit cs
  match rest with
  | '=' :: rest =>
    let rest := skipSpaces rest
    let (v, rest) ← value (rest.length + 1) depthLimit rest
    return ({ r with document := ← r.document.insertUnder r.header path v }, rest)
  | _ => none

/-- One line of the document, the values that span several lines included. -/
def line (r : Reading) (cs : Rest) : Option (Reading × Rest) := do
  let (r, rest) ← match skipSpaces cs with
    | '[' :: '[' :: rest => elementHeader r rest
    | '[' :: rest => header r rest
    | [] => some (r, [])
    | c :: rest =>
      if c = '\n' ∨ c = '\r' ∨ c = '#' then some (r, c :: rest) else pair r (c :: rest)
  return (r, ← endLine rest)

def lines : (fuel : Nat) → Reading → Rest → Option Reading
  | 0, _, _ => none
  | _ + 1, r, [] => some r
  | fuel + 1, r, cs => do
    let (r, rest) ← line r cs
    lines fuel r rest

/-- Reads a document; a byte order mark at its start does not count. -/
def parse (text : String) : Option Value :=
  let cs := match text.toList with
    | '\uFEFF' :: rest => rest
    | cs => cs
  (lines (cs.length + 1) ⟨[], []⟩ cs).map fun r => .table (freezeEntries r.document)

end SmokeBench.Toml
