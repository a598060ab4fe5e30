import SmokeBench.Decimal.Shortest
import SmokeBench.Toml.Value

/-!
The wording for a value that is not what a setting expects.
-/

namespace SmokeBench.Misfit

/-- Characters written as an escape in a quoted text: controls, separators other than the space,
format characters and marks that join the character before them. -/
def unprintableRuns : List (Nat × Nat) :=
  [(0x00, 0x1F), (0x7F, 0xA0), (0xAD, 0xAD), (0x300, 0x36F), (0x378, 0x379), (0x483, 0x489),
    (0x591, 0x5BD), (0x600, 0x605), (0x610, 0x61A), (0x61C, 0x61C), (0x64B, 0x65F), (0x6DD, 0x6DD),
    (0x70F, 0x70F), (0x1680, 0x1680), (0x180E, 0x180E), (0x1AB0, 0x1ADD), (0x1DC0, 0x1DFF),
    (0x2000, 0x200F), (0x2028, 0x202F), (0x205F, 0x206F), (0x20D0, 0x20F0), (0x3000, 0x3000),
    (0x302A, 0x302F), (0x3099, 0x309A), (0xE000, 0xF8FF), (0xFE00, 0xFE0F), (0xFE20, 0xFE2F),
    (0xFEFF, 0xFEFF), (0xFFF0, 0xFFFB), (0xFFFE, 0xFFFF), (0xE0000, 0x10FFFF)]

def hex (n : Nat) : List Char := Nat.toDigits 16 n

def quoteChar (c : Char) : List Char :=
  if c = '"' then ['\\', '"']
  else if c = '\\' then ['\\', '\\']
  else if c = '\n' then ['\\', 'n']
  else if c = '\r' then ['\\', 'r']
  else if c = '\t' then ['\\', 't']
  else if c.toNat = 0 then ['\\', '0']
  else if unprintableRuns.any fun r => r.1 ≤ c.toNat && c.toNat ≤ r.2 then
    ['\\', 'u', '\x7b'] ++ hex c.toNat ++ ['\x7d']
  else [c]

def quoted (s : String) : String := String.ofList ('"' :: (s.toList.flatMap quoteChar ++ ['"']))

/-- The double nearest to a number, written with all its digits; none when it is too large. -/
def realText : Toml.Real → Option String
  | .nan => some "NaN"
  | .infinite negative => some (if negative then "-inf" else "inf")
  | .finite negative digits exponent =>
    let magnitude : Int := (Nat.toDigits 10 digits).length + exponent
    let bits :=
      if digits = 0 ∨ magnitude < -400 then 0
      else if 400 < magnitude then 0x7FF0000000000000
      else (Float.ofScientific digits (exponent < 0) exponent.natAbs).toBits.toNat
    if bits = 0x7FF0000000000000 then none
    else
      let text := Decimal.positional (Decimal.ofBits bits)
      some (if negative then "-" ++ text else text)

def wrongType (found expected : String) : String := s!"invalid type: {found}, expected {expected}"

/-- The reason a value is refused where something else was expected. -/
def describe (expected : String) : Toml.Value → String
  | .string s => wrongType s!"string {quoted s}" expected
  | .integer n =>
    if -Int.pow 2 63 ≤ n ∧ n < Int.pow 2 64 then wrongType s!"integer \x60{n}\x60" expected
    else if -Int.pow 2 127 ≤ n ∧ n < Int.pow 2 127 then
      wrongType s!"integer \x60{n}\x60 as i128" expected
    else if 0 ≤ n ∧ n < Int.pow 2 128 then wrongType s!"integer \x60{n}\x60 as u128" expected
    else "integer number overflowed"
  | .real r =>
    match realText r with
    | some text => wrongType s!"floating point \x60{text}\x60" expected
    | none => "floating-point number overflowed"
  | .boolean b => wrongType s!"boolean \x60{b}\x60" expected
  | .moment | .table _ => wrongType "map" expected
  | .array _ => wrongType "sequence" expected

def negative (n : Int) (expected : String) : String :=
  s!"invalid value: integer \x60{n}\x60, expected {expected}"

def ticked (s : String) : String := s!"\x60{s}\x60"

def unknownField (name : String) (known : List String) : String :=
  let expected := match known with
    | [a] => ticked a
    | [a, b] => s!"{ticked a} or {ticked b}"
    | names => "one of " ++ String.intercalate ", " (names.map ticked)
  s!"unknown field {ticked name}, expected {expected}"

end SmokeBench.Misfit
