import SmokeBench.Bytes

/-!
Reading bytes as UTF-8, one byte at a time. `Scan` is the state between two bytes, so a text
read in pieces is the text read at once. A maximal part that no character starts with counts as
one fault: `lossy` writes U+FFFD for it, `strict` refuses the whole.
-/

namespace SmokeBench.Text.Utf8

/-- A character that still owes `owed` bytes, the next of them in `[low, high]`. -/
structure Pending where
  owed : Nat
  low : UInt8
  high : UInt8
  code : Nat
  deriving DecidableEq, Repr

/-- Characters read so far, newest first (`none` for a fault), and the unfinished one. -/
structure Scan where
  read : List (Option Char)
  pending : Option Pending
  deriving DecidableEq, Repr

def Scan.start : Scan := ⟨[], none⟩

def lead (read : List (Option Char)) (b : UInt8) : Scan :=
  let n := b.toNat
  if n < 0x80 then ⟨some (Char.ofNat n) :: read, none⟩
  else if n < 0xC2 then ⟨none :: read, none⟩
  else if n < 0xE0 then ⟨read, some ⟨1, 0x80, 0xBF, n - 0xC0⟩⟩
  else if n < 0xF0 then
    ⟨read, some ⟨2, if n = 0xE0 then 0xA0 else 0x80, if n = 0xED then 0x9F else 0xBF, n - 0xE0⟩⟩
  else if n < 0xF5 then
    ⟨read, some ⟨3, if n = 0xF0 then 0x90 else 0x80, if n = 0xF4 then 0x8F else 0xBF, n - 0xF0⟩⟩
  else ⟨none :: read, none⟩

def Scan.feed (s : Scan) (b : UInt8) : Scan :=
  match s.pending with
  | none => lead s.read b
  | some p =>
    if p.low ≤ b ∧ b ≤ p.high then
      let code := p.code * 64 + (b.toNat - 0x80)
      if p.owed ≤ 1 then ⟨some (Char.ofNat code) :: s.read, none⟩
      else ⟨s.read, some ⟨p.owed - 1, 0x80, 0xBF, code⟩⟩
    else lead (none :: s.read) b

def Scan.finish (s : Scan) : List (Option Char) :=
  match s.pending with
  | none => s.read.reverse
  | some _ => (none :: s.read).reverse

def scan (b : Bytes) : List (Option Char) := (b.foldl Scan.feed Scan.start).finish

def lossy (b : Bytes) : String := String.ofList ((scan b).map (·.getD '\uFFFD'))

def strict (b : Bytes) : Option String :=
  let cs := scan b
  if cs.all Option.isSome then some (String.ofList (cs.filterMap id)) else none

end SmokeBench.Text.Utf8
