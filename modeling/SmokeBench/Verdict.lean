/-!
A verdict is an outcome with a one-line message. `anyPass` takes the first pass of several
verdicts, and otherwise one verdict that tells all of them.
-/

namespace SmokeBench

inductive Outcome
  | pass
  | fail
  | skip
  | info
  deriving DecidableEq, Repr

namespace Outcome

def label : Outcome → String
  | pass => "PASS"
  | fail => "FAIL"
  | skip => "SKIP"
  | info => "INFO"

def isFailure (o : Outcome) : Bool := o == fail

end Outcome

structure Verdict where
  outcome : Outcome
  message : String
  deriving DecidableEq, Repr

namespace Verdict

def pass (message : String) : Verdict := ⟨.pass, message⟩
def fail (message : String) : Verdict := ⟨.fail, message⟩
def skip (message : String) : Verdict := ⟨.skip, message⟩
def info (message : String) : Verdict := ⟨.info, message⟩

def passed (v : Verdict) : Bool := v.outcome == .pass

def withMessage (v : Verdict) (message : String) : Verdict := { v with message }

/-- A failure that should not count as one becomes information; every other outcome stays. -/
def inconclusive (v : Verdict) : Verdict :=
  if v.outcome = .fail then { v with outcome := .info } else v

def display (v : Verdict) : String := v.outcome.label ++ ": " ++ v.message

def joinMisses (vs : List Verdict) : Verdict :=
  ⟨if vs.any (·.outcome.isFailure) then .fail else .info,
    String.intercalate "; " (vs.map (·.message))⟩

def anyPass (vs : List Verdict) : Verdict :=
  match vs.find? passed with
  | some v => v
  | none => if vs.isEmpty then info "no checks to evaluate" else joinMisses vs

end Verdict

end SmokeBench
