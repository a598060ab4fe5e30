/-!
The four quoted forms of TOML. Each function gets the text after the opening quotes and gives the
content and the text after the closing ones. Quotes inside a long form close it only three at a
time, and up to two more belong to the content.
-/

namespace SmokeBench.Toml.Quoted

def isControl (c : Char) : Bool := (c.toNat < 32 && c != '\t') || c.toNat == 127

def hexValue (c : Char) : Option Nat :=
  if '0' ≤ c ∧ c ≤ '9' then some (c.toNat - 48)
  else if 'a' ≤ c ∧ c ≤ 'f' then some (c.toNat - 87)
  else if 'A' ≤ c ∧ c ≤ 'F' then some (c.toNat - 55)
  else none

/-- A scalar value in exactly `n` hexadecimal digits. -/
def scalar (n value : Nat) (cs : List Char) : Option (Char × List Char) :=
  match n, cs with
  | 0, cs => if value.isValidChar then some (Char.ofNat value, cs) else none
  | n + 1, c :: cs => do scalar n (value * 16 + (← hexValue c)) cs
  | _ + 1, [] => none

def escape : List Char → Option (Char × List Char)
  | 'b' :: r => some ('\x08', r)
  | 't' :: r => some ('\t', r)
  | 'n' :: r => some ('\n', r)
  | 'f' :: r => some ('\x0c', r)
  | 'r' :: r => some ('\r', r)
  | 'e' :: r => some ('\x1b', r)
  | '"' :: r => some ('"', r)
  | '\\' :: r => some ('\\', r)
  | 'x' :: r => scalar 2 0 r
  | 'u' :: r => scalar 4 0 r
  | 'U' :: r => scalar 8 0 r
  | _ => none

def basic (fuel : Nat) (done : List Char) (cs : List Char) : Option (List Char × List Char) :=
  match fuel, cs with
  | 0, _ => none
  | _ + 1, [] => none
  | _ + 1, '"' :: rest => some (done.reverse, rest)
  | fuel + 1, '\\' :: rest => do
    let (c, rest) ← escape rest
    basic fuel (c :: done) rest
  | fuel + 1, c :: rest => if isControl c then none else basic fuel (c :: done) rest

def literal (done : List Char) : List Char → Option (List Char × List Char)
  | [] => none
  | c :: rest =>
    if c = '\'' then some (done.reverse, rest)
    else if isControl c then none
    else literal (c :: done) rest

/-- A line feed right after the opening quotes does not count. -/
def skipFirstBreak : List Char → List Char
  | '\n' :: rest => rest
  | '\r' :: '\n' :: rest => rest
  | cs => cs

def isFill (c : Char) : Bool := c == ' ' || c == '\t' || c == '\n'

/-- After a backslash that ends a line: everything up to the next character that shows. -/
def skipFill (cs : List Char) : Option (List Char) :=
  let rest := cs.dropWhile fun c => c == ' ' || c == '\t'
  match rest with
  | '\n' :: _ | '\r' :: '\n' :: _ => some (skipBlank rest)
  | _ => none
where
  skipBlank : List Char → List Char
    | [] => []
    | '\r' :: '\n' :: rest => skipBlank rest
    | c :: rest => if isFill c then skipBlank rest else c :: rest

/-- Closes a long form at a run of quotes, if the run is long enough; the first part of the answer
is what the run adds to the content. -/
def closing (quote : Char) (cs : List Char) : Option (List Char × List Char) :=
  let run := (cs.takeWhile (· == quote)).length
  if run < 3 then none
  else
    let extra := Nat.min (run - 3) 2
    some (List.replicate extra quote, cs.drop (3 + extra))

def longBasic (fuel : Nat) (done : List Char) (cs : List Char) :
    Option (List Char × List Char) :=
  match fuel, cs with
  | 0, _ => none
  | _ + 1, [] => none
  | fuel + 1, '"' :: rest =>
    match closing '"' ('"' :: rest) with
    | some (extra, rest) => some (done.reverse ++ extra, rest)
    | none => longBasic fuel ('"' :: done) rest
  | fuel + 1, '\\' :: rest =>
    match skipFill rest with
    | some rest => longBasic fuel done rest
    | none => do
      let (c, rest) ← escape rest
      longBasic fuel (c :: done) rest
  | fuel + 1, '\r' :: '\n' :: rest => longBasic fuel ('\n' :: '\r' :: done) rest
  | fuel + 1, c :: rest =>
    if isControl c && c != '\n' then none else longBasic fuel (c :: done) rest

def longLiteral (fuel : Nat) (done : List Char) (cs : List Char) :
    Option (List Char × List Char) :=
  match fuel, cs with
  | 0, _ => none
  | _ + 1, [] => none
  | fuel + 1, '\'' :: rest =>
    match closing '\'' ('\'' :: rest) with
    | some (extra, rest) => some (done.reverse ++ extra, rest)
    | none => longLiteral fuel ('\'' :: done) rest
  | fuel + 1, '\r' :: '\n' :: rest => longLiteral fuel ('\n' :: '\r' :: done) rest
  | fuel + 1, c :: rest =>
    if isControl c && c != '\n' then none else longLiteral fuel (c :: done) rest

/-- A short form, as keys and values have it. -/
def short : List Char → Option (String × List Char)
  | '"' :: rest => (basic (rest.length + 1) [] rest).map fun r => (String.ofList r.1, r.2)
  | '\'' :: rest => (literal [] rest).map fun r => (String.ofList r.1, r.2)
  | _ => none

/-- Any form, as values have it. -/
def any : List Char → Option (String × List Char)
  | '"' :: '"' :: '"' :: rest =>
    (longBasic (rest.length + 1) [] (skipFirstBreak rest)).map fun r => (String.ofList r.1, r.2)
  | '\'' :: '\'' :: '\'' :: rest =>
    (longLiteral (rest.length + 1) [] (skipFirstBreak rest)).map fun r => (String.ofList r.1, r.2)
  | cs => short cs

end SmokeBench.Toml.Quoted
