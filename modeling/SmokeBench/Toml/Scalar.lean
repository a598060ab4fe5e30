import SmokeBench.Toml.Value

/-!
Scalars written without quotes: booleans, numbers, dates and times. Underscores may stand between
two digits; a decimal number has no leading zero; a number with a base prefix has no sign.
-/

namespace SmokeBench.Toml.Scalar

def digitValue (c : Char) : Nat :=
  if '0' ≤ c ∧ c ≤ '9' then c.toNat - 48
  else if 'a' ≤ c ∧ c ≤ 'z' then c.toNat - 87
  else if 'A' ≤ c ∧ c ≤ 'Z' then c.toNat - 55
  else 99

def isDigit (c : Char) : Bool := digitValue c < 10

/-- Reads digits with single underscores between them; `fresh` says that a digit must come next. -/
def digitsFrom (base value : Nat) (fresh : Bool) : List Char → Option Nat
  | [] => if fresh then none else some value
  | '_' :: rest => if fresh then none else digitsFrom base value true rest
  | c :: rest =>
    if digitValue c < base then digitsFrom base (value * base + digitValue c) false rest else none

def digits (base : Nat) (cs : List Char) : Option Nat := digitsFrom base 0 true cs

def sign : List Char → Bool × List Char
  | '-' :: rest => (true, rest)
  | '+' :: rest => (false, rest)
  | cs => (false, cs)

def decimal (cs : List Char) : Option Nat :=
  match cs with
  | ['0'] => some 0
  | '0' :: _ => none
  | cs => digits 10 cs

def integer (cs : List Char) : Option Int :=
  match cs with
  | '0' :: 'x' :: rest => (digits 16 rest).map Int.ofNat
  | '0' :: 'o' :: rest => (digits 8 rest).map Int.ofNat
  | '0' :: 'b' :: rest => (digits 2 rest).map Int.ofNat
  | cs =>
    let (negative, body) := sign cs
    (decimal body).map fun n => if negative then -(n : Int) else n

/-- Splits at the first character that satisfies the test and drops it. -/
def splitFirst (test : Char → Bool) (cs : List Char) : List Char × Option (List Char) :=
  match cs.dropWhile (!test ·) with
  | [] => (cs, none)
  | _ :: rest => (cs.takeWhile (!test ·), some rest)

def exponent (cs : List Char) : Option Int :=
  let (negative, body) := sign cs
  (digits 10 body).map fun n => if negative then -(n : Int) else n

def real (cs : List Char) : Option Real :=
  let (negative, body) := sign cs
  if body = ['i', 'n', 'f'] then some (.infinite negative)
  else if body = ['n', 'a', 'n'] then some .nan
  else
    let (mantissa, power) := splitFirst (fun c => c == 'e' || c == 'E') body
    let (whole, fraction) := splitFirst (· == '.') mantissa
    if power.isNone && fraction.isNone then none
    else do
      let w ← decimal whole
      let e ← match power with
        | none => some 0
        | some cs => exponent cs
      match fraction with
      | none => return .finite negative w e
      | some cs =>
        let f ← digits 10 cs
        let places := (cs.filter (· != '_')).length
        return .finite negative (w * Nat.pow 10 places + f) (e - places)

/-- Exactly `n` decimal digits. -/
def fixed : Nat → Nat → List Char → Option (Nat × List Char)
  | 0, value, cs => some (value, cs)
  | n + 1, value, c :: cs => if isDigit c then fixed n (value * 10 + digitValue c) cs else none
  | _ + 1, _, [] => none

def daysIn (year month : Nat) : Nat :=
  if month = 2 then
    if year % 4 = 0 ∧ (year % 100 ≠ 0 ∨ year % 400 = 0) then 29 else 28
  else if month = 4 ∨ month = 6 ∨ month = 9 ∨ month = 11 then 30
  else 31

def expect (c : Char) : List Char → Option (List Char)
  | d :: rest => if c = d then some rest else none
  | [] => none

def date (cs : List Char) : Option (List Char) := do
  let (year, cs) ← fixed 4 0 cs
  let cs ← expect '-' cs
  let (month, cs) ← fixed 2 0 cs
  let cs ← expect '-' cs
  let (day, cs) ← fixed 2 0 cs
  if 1 ≤ month ∧ month ≤ 12 ∧ 1 ≤ day ∧ day ≤ daysIn year month then some cs else none

def fraction : List Char → Option (List Char)
  | '.' :: c :: rest => if isDigit c then some (rest.dropWhile isDigit) else none
  | ['.'] => none
  | cs => some cs

/-- Hours and minutes, with or without seconds and a fraction of one. -/
def time (cs : List Char) : Option (List Char) := do
  let (hour, cs) ← fixed 2 0 cs
  let cs ← expect ':' cs
  let (minute, cs) ← fixed 2 0 cs
  if 23 < hour ∨ 59 < minute then none
  match cs with
  | ':' :: cs =>
    let (second, cs) ← fixed 2 0 cs
    if 60 < second then none else fraction cs
  | cs => some cs

def offset : List Char → Option (List Char)
  | [] => some []
  | 'Z' :: rest | 'z' :: rest => some rest
  | c :: rest =>
    if c = '+' ∨ c = '-' then do
      let (hour, cs) ← fixed 2 0 rest
      let cs ← expect ':' cs
      let (minute, cs) ← fixed 2 0 cs
      if 24 < hour ∨ 59 < minute then none else some cs
    else none

def isMoment (cs : List Char) : Bool :=
  match date cs with
  | some [] => true
  | some (c :: rest) =>
    (c == 'T' || c == 't' || c == ' ') && (time rest >>= offset) == some []
  | none => time cs == some []

def read (cs : List Char) : Option Value :=
  if cs = ['t', 'r', 'u', 'e'] then some (.boolean true)
  else if cs = ['f', 'a', 'l', 's', 'e'] then some (.boolean false)
  else
    match integer cs with
    | some n => some (.integer n)
    | none =>
      match real cs with
      | some r => some (.real r)
      | none => if isMoment cs then some .moment else none

end SmokeBench.Toml.Scalar
