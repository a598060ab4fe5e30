/-!
The shortest decimal that reads back as a given double. A positive double is `m * 2 ^ q`; the reals
that round to it form an interval, closed when `m` is even. On the grids of one, two, ...
seventeen digits the two neighbours of the value are tried: the first grid with a neighbour in
the interval gives the digits, and of two such neighbours the nearer one.
-/

namespace SmokeBench.Decimal

/-- `digits * 10 ^ exponent`. -/
structure Short where
  digits : Nat
  exponent : Int
  deriving DecidableEq, Repr

def up (base : Nat) (e : Int) : Nat := Nat.pow base e.toNat
def down (base : Nat) (e : Int) : Nat := Nat.pow base (-e).toNat

/-- Whether `d * 10 ^ p` is less than `x * 2 ^ s`. -/
def below (d : Nat) (p : Int) (x : Nat) (s : Int) : Bool :=
  decide (d * up 10 p * down 2 s < x * up 2 s * down 10 p)

def within (m : Nat) (low high : Nat) (s : Int) (d : Nat) (p : Int) : Bool :=
  let tooLow := below d p low s
  let tooHigh := !below d p high s
  let onLow := d * up 10 p * down 2 s == low * up 2 s * down 10 p
  let onHigh := d * up 10 p * down 2 s == high * up 2 s * down 10 p
  if m % 2 = 0 then !tooLow && (!tooHigh || onHigh) else !tooLow && !onLow && !tooHigh

/-- The power of ten of the first digit of `x * 2 ^ s`. -/
def leadingPower (x : Nat) (s : Int) : Int :=
  let whole := x * up 2 s / down 2 s
  if 0 < whole then ((Nat.toDigits 10 whole).length : Int) - 1
  else
    match (List.range 400).find? fun j => down 2 s ≤ x * up 2 s * Nat.pow 10 j with
    | some j => -(j : Int)
    | none => 0

def tryDigits (m x low high : Nat) (s : Int) (power : Int) (n : Nat) : Option Short :=
  let p := power - (n : Int) + 1
  let num : Nat := x * up 2 s * down 10 p
  let den : Nat := down 2 s * up 10 p
  let d : Nat := num / den
  let nearer := 2 * (num % den) < den
  let lowIn := within m low high s d p
  let highIn := within m low high s (d + 1) p
  if lowIn && highIn then
    if nearer then some ⟨d, p⟩ else some ⟨d + 1, p⟩
  else if lowIn then some ⟨d, p⟩
  else if highIn then some ⟨d + 1, p⟩
  else none

/-- The shortest decimal for `m * 2 ^ q`, where `boundary` says that the next smaller double is only
half as far away as the next larger one. -/
def shortest (m : Nat) (q : Int) (boundary : Bool) : Short :=
  let s := q - 2
  let x := 4 * m
  let low := if boundary then x - 1 else x - 2
  let power := leadingPower x s
  match (List.range 17).findSome? fun n => tryDigits m x low (x + 2) s power (n + 1) with
  | some short => short
  | none => ⟨m, 0⟩

def ofBits (bits : Nat) : Short :=
  let field : Nat := bits / Nat.pow 2 52 % 2048
  let low : Nat := bits % Nat.pow 2 52
  if field = 0 then
    if low = 0 then ⟨0, 0⟩ else shortest low (-1074) false
  else shortest (low + Nat.pow 2 52) ((field : Int) - 1075) (low = 0 && 1 < field)

/-- All digits without an exponent, and always a decimal point. -/
def positional (d : Short) : String :=
  let ds := Nat.toDigits 10 d.digits
  if 0 ≤ d.exponent then String.ofList (ds ++ List.replicate d.exponent.toNat '0' ++ ['.', '0'])
  else
    let places := (-d.exponent).toNat
    let padded := List.replicate (places + 1 - ds.length) '0' ++ ds
    let whole := padded.take (padded.length - places)
    String.ofList (whole ++ '.' :: padded.drop whole.length)

end SmokeBench.Decimal
