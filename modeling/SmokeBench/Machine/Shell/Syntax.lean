/-!
The command language of the simulated machine, as data.
-/

namespace SmokeBench.Machine.Shell

/-- What is done with a parameter: `colon` makes an empty value count as unset, `longest` asks for
the longest match of a pattern. -/
inductive ParamOp
  | plain
  | length
  | orDefault (colon : Bool)
  | orAssign (colon : Bool)
  | orFail (colon : Bool)
  | alternative (colon : Bool)
  | dropFront (longest : Bool)
  | dropBack (longest : Bool)
  deriving DecidableEq, Repr, Inhabited

inductive RedirectKind
  | read
  | write
  | append
  | readWrite
  | duplicate
  | document (id : Nat)
  deriving DecidableEq, Repr, Inhabited

mutual

inductive Part
  | bare (text : String)
  | quoted (text : String)
  | param (name : String) (op : ParamOp) (arg : List Part) (inQuotes : Bool)
  | command (body : List Item) (inQuotes : Bool)
  | arith (body : List Part) (inQuotes : Bool)

inductive Redirect
  | mk (fd : Nat) (kind : RedirectKind) (target : List Part)

inductive Clause
  | mk (patterns : List (List Part)) (body : List Item)

inductive Command
  | simple (line : Nat) (assignments : List (String × List Part)) (words : List (List Part))
      (redirects : List Redirect)
  | pipeline (negated : Bool) (commands : List Command)
  | both (first second : Command)
  | either (first second : Command)
  | subshell (body : List Item) (redirects : List Redirect)
  | block (body : List Item) (redirects : List Redirect)
  | branch (condition body alternative : List Item) (redirects : List Redirect)
  | loop (isUntil : Bool) (condition body : List Item) (redirects : List Redirect)
  | each (name : String) (words : Option (List (List Part))) (body : List Item)
      (redirects : List Redirect)
  | select (word : List Part) (clauses : List Clause) (redirects : List Redirect)
  | define (name : String) (body : Command)

/-- A command of a list, and whether it is left to run in the background. -/
inductive Item
  | mk (command : Command) (background : Bool)

end

abbrev Word := List Part

instance : Inhabited Part := ⟨.bare ""⟩
instance : Inhabited Command := ⟨.block [] []⟩
instance : Inhabited Item := ⟨.mk default false⟩

end SmokeBench.Machine.Shell
