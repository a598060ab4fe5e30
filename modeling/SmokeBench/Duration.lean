/-!
Time spans and points on the bench clock, both counted in nanoseconds.
-/

namespace SmokeBench

structure Duration where
  nanos : Nat
  deriving DecidableEq, Repr, Inhabited

namespace Duration

def zero : Duration := ⟨0⟩
def ofMillis (n : Nat) : Duration := ⟨n * 1000000⟩
def ofSecs (n : Nat) : Duration := ⟨n * 1000000000⟩

/-- Whole milliseconds, cut off. -/
def millis (d : Duration) : Nat := d.nanos / 1000000

instance : Add Duration := ⟨fun a b => ⟨a.nanos + b.nanos⟩⟩
/-- A span is never negative: taking more than there is leaves zero. -/
instance : Sub Duration := ⟨fun a b => ⟨a.nanos - b.nanos⟩⟩
instance : LE Duration := ⟨fun a b => a.nanos ≤ b.nanos⟩
instance : LT Duration := ⟨fun a b => a.nanos < b.nanos⟩
instance (a b : Duration) : Decidable (a ≤ b) := Nat.decLe _ _
instance (a b : Duration) : Decidable (a < b) := Nat.decLt _ _

def max (a b : Duration) : Duration := if a ≤ b then b else a
def min (a b : Duration) : Duration := if a ≤ b then a else b

end Duration

abbrev Instant := Duration

end SmokeBench
