/-!
Integer expressions of the shell. Reading and computing go together: each function takes the rest of
the text and the variables and gives a value with what is left. A fault is told in words.
-/

namespace SmokeBench.Machine.Shell.Arithmetic

abbrev Variables := List (String × String)

/-- A variable that holds no number, or an expression that is none. -/
inductive Fault
  | number (text : String)
  | form (message : String)

def Fault.message (expression : String) : Fault → String
  | number text => s!"Illegal number: {text}"
  | form message => s!"arithmetic expression: {message}: \"{expression}\""

/-- What is left to read, and the assignments made so far, newest first. -/
structure State where
  rest : List Char
  assigned : Variables

abbrev Reader := ReaderT (String → Option String) (StateT State (Except Fault))

def peek : Reader (List Char) := return (← get).rest

def skip (n : Nat) : Reader Unit := modify fun s => { s with rest := s.rest.drop n }

def skipBlanks : Reader Unit :=
  modify fun s => { s with rest := s.rest.dropWhile fun c => c == ' ' || c == '\t' || c == '\n' }

def isNameChar (c : Char) : Bool := c.isAlphanum || c == '_'

def digitOf (c : Char) : Nat :=
  if c.isDigit then c.toNat - 48
  else if 'a' ≤ c ∧ c ≤ 'f' then c.toNat - 87
  else if 'A' ≤ c ∧ c ≤ 'F' then c.toNat - 55
  else 99

def inBase (base : Nat) (cs : List Char) : Option Nat :=
  if cs.isEmpty then none
  else cs.foldl (fun acc c => acc.bind fun n =>
    if digitOf c < base then some (n * base + digitOf c) else none) (some 0)

def constant (cs : List Char) : Option Nat :=
  match cs with
  | '0' :: 'x' :: rest | '0' :: 'X' :: rest => inBase 16 rest
  | '0' :: [] => some 0
  | '0' :: rest => inBase 8 rest
  | cs => inBase 10 cs

def number (s : String) : Option Int :=
  let isSpace (c : Char) : Bool := c == ' ' || c == '\t' || c == '\n'
  let cs := ((s.toList.dropWhile isSpace).reverse.dropWhile isSpace).reverse
  match cs with
  | '-' :: rest => (constant rest).map fun n => -(n : Int)
  | '+' :: rest => (constant rest).map Int.ofNat
  | cs => (constant cs).map Int.ofNat

def valueOf (name : String) : Reader Int := do
  let look ← read
  let text := match (← get).assigned.find? (·.1 == name) with
    | some (_, v) => some v
    | none => look name
  match text with
  | none | some "" => return 0
  | some t =>
    match number t with
    | some n => return n
    | none => throw (.number t)

/-- Results keep sixty-four bits. -/
def wrap (n : Int) : Int := Int.bmod n (Nat.pow 2 64)

def assign (name : String) (n : Int) : Reader Int := do
  modify fun s => { s with assigned := (name, toString (wrap n)) :: s.assigned }
  return wrap n

def truth (b : Bool) : Int := if b then 1 else 0

def power (n : Int) : Nat := n.toNat % 64

def bits (f : Nat → Nat → Nat) (a b : Int) : Int :=
  wrap (f (a % Int.pow 2 64).toNat (b % Int.pow 2 64).toNat)

def binary : List (String × Nat) :=
  [("||", 1), ("&&", 2), ("|", 3), ("^", 4), ("&", 5), ("==", 6), ("!=", 6), ("<=", 7), (">=", 7),
    ("<<", 8), (">>", 8), ("<", 7), (">", 7), ("+", 9), ("-", 9), ("*", 10), ("/", 10), ("%", 10)]

def apply (op : String) (a b : Int) : Except Fault Int :=
  match op with
  | "||" => .ok (truth (a != 0 || b != 0))
  | "&&" => .ok (truth (a != 0 && b != 0))
  | "|" => .ok (bits (· ||| ·) a b)
  | "^" => .ok (bits (· ^^^ ·) a b)
  | "&" => .ok (bits (· &&& ·) a b)
  | "==" => .ok (truth (a == b))
  | "!=" => .ok (truth (a != b))
  | "<=" => .ok (truth (a ≤ b))
  | ">=" => .ok (truth (b ≤ a))
  | "<" => .ok (truth (a < b))
  | ">" => .ok (truth (b < a))
  | "<<" => .ok (wrap (a * Int.pow 2 (power b)))
  | ">>" => .ok (Int.fdiv a (Int.pow 2 (power b)))
  | "+" => .ok (wrap (a + b))
  | "-" => .ok (wrap (a - b))
  | "*" => .ok (wrap (a * b))
  | "/" => if b = 0 then .error (.form "division by zero") else .ok (Int.tdiv a b)
  | "%" => if b = 0 then .error (.form "division by zero") else .ok (Int.tmod a b)
  | _ => .error (.form "expecting EOF")

def startsWith (cs : List Char) (s : String) : Bool := s.toList.isPrefixOf cs

def operatorAt (cs : List Char) : Option (String × Nat) :=
  let candidates := binary.filter fun o => startsWith cs o.1
  let twoChars := candidates.find? fun o => o.1.length == 2
  let found := twoChars.or candidates.head?
  -- an operator followed by "=" is an assignment
  found.filter fun o =>
    ["==", "!=", "<=", ">="].contains o.1 || (cs.drop o.1.length).head? != some '='

def assignmentAt (cs : List Char) : Option (Option String × Nat) :=
  if startsWith cs "=" && !startsWith cs "==" then some (none, 1)
  else
    match ["<<=", ">>="].find? (startsWith cs) with
    | some o => some (some (o.take 2).toString, 3)
    | none =>
      match ["+=", "-=", "*=", "/=", "%=", "&=", "|=", "^="].find? (startsWith cs) with
      | some o => some (some (o.take 1).toString, 2)
      | none => none

mutual

def expression : (fuel : Nat) → Reader Int
  | 0 => throw (.form "too deep")
  | fuel + 1 => do
    skipBlanks
    let cs ← peek
    let name := cs.takeWhile isNameChar
    let after := (cs.drop name.length).dropWhile (· == ' ')
    let isName := match name with
      | [] => false
      | c :: _ => !c.isDigit
    match (if isName then assignmentAt after else none) with
    | some (op, n) =>
      modify fun s => { s with rest := after.drop n }
      let v ← expression fuel
      let name := String.ofList name
      match op with
      | none => assign name v
      | some op => do
        match apply op (← valueOf name) v with
        | .ok v => assign name v
        | .error e => throw e
    | none =>
      let c ← level fuel 1
      skipBlanks
      match ← peek with
      | '?' :: _ =>
        skip 1
        let a ← expression fuel
        skipBlanks
        match ← peek with
        | ':' :: _ =>
          skip 1
          let b ← expression fuel
          return if c != 0 then a else b
        | _ => throw (.form "expecting ':'")
      | _ => return c

def level : (fuel : Nat) → (least : Nat) → Reader Int
  | 0, _ => throw (.form "too deep")
  | fuel + 1, least => do
    let a ← unary fuel
    climb fuel least a

def climb : (fuel : Nat) → (least : Nat) → Int → Reader Int
  | 0, _, a => return a
  | fuel + 1, least, a => do
    skipBlanks
    match operatorAt (← peek) with
    | some (op, strength) =>
      if strength < least then return a
      else
        skip op.length
        let b ← level fuel (strength + 1)
        match apply op a b with
        | .ok v => climb fuel least v
        | .error e => throw e
    | none => return a

def unary : (fuel : Nat) → Reader Int
  | 0 => throw (.form "too deep")
  | fuel + 1 => do
    skipBlanks
    match ← peek with
    | '-' :: _ => skip 1; return wrap (-(← unary fuel))
    | '+' :: _ => skip 1; unary fuel
    | '!' :: _ => skip 1; return truth ((← unary fuel) == 0)
    | '~' :: _ => skip 1; return -(← unary fuel) - 1
    | '(' :: _ =>
      skip 1
      let v ← expression fuel
      skipBlanks
      match ← peek with
      | ')' :: _ => skip 1; return v
      | _ => throw (.form "expecting ')'")
    | cs =>
      let token := cs.takeWhile isNameChar
      match token with
      | [] => throw (.form "expecting primary")
      | c :: _ =>
        skip token.length
        if c.isDigit then
          match constant token with
          | some n => return n
          | none => throw (.form "expecting EOF")
        else valueOf (String.ofList token)

end

def whole (fuel : Nat) : Reader Int := do
  skipBlanks
  if (← peek).isEmpty then return 0
  let v ← expression fuel
  skipBlanks
  if (← peek).isEmpty then return v else throw (.form "expecting EOF")

def evaluate (look : String → Option String) (text : String) :
    Except String (Int × Variables) :=
  match ((whole (4 * text.length + 10)).run look).run ⟨text.toList, []⟩ with
  | .ok (v, s) => .ok (v, s.assigned.reverse)
  | .error e => .error (e.message text)

end SmokeBench.Machine.Shell.Arithmetic
