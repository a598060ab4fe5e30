/-!
Values of a TOML document. A number with a point keeps its exact decimal value; dates and times
are only known to be well formed, since no setting holds one.
-/

namespace SmokeBench.Toml

/-- `digits * 10 ^ exponent`, or one of the special numbers. -/
inductive Real
  | finite (negative : Bool) (digits : Nat) (exponent : Int)
  | infinite (negative : Bool)
  | nan
  deriving DecidableEq, Repr

inductive Value
  | string (s : String)
  | integer (n : Int)
  | real (r : Real)
  | boolean (b : Bool)
  | moment
  | array (items : List Value)
  | table (entries : List (String × Value))

abbrev Entries := List (String × Value)

end SmokeBench.Toml
