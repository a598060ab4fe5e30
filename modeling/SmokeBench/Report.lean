import SmokeBench.Verdict

/-!
What a run leaves behind: the verdicts of each scenario and how they add up.
-/

namespace SmokeBench

structure ScenarioReport where
  sectionName : String
  name : String
  verdicts : List Verdict
  deriving DecidableEq, Repr

/-- The outcome that stands for all verdicts: a failure outweighs a pass, a pass outweighs
information, and information outweighs a skip. -/
def ScenarioReport.outcome (r : ScenarioReport) : Outcome :=
  let has (o : Outcome) := r.verdicts.any (·.outcome == o)
  if has .fail then .fail
  else if has .pass then .pass
  else if has .skip && !has .info then .skip
  else .info

structure Tally where
  passed : Nat
  failed : Nat
  skipped : Nat
  info : Nat
  deriving DecidableEq, Repr

namespace Tally

def zero : Tally := ⟨0, 0, 0, 0⟩

def add (t : Tally) : Outcome → Tally
  | .pass => { t with passed := t.passed + 1 }
  | .fail => { t with failed := t.failed + 1 }
  | .skip => { t with skipped := t.skipped + 1 }
  | .info => { t with info := t.info + 1 }

def merge (a b : Tally) : Tally :=
  ⟨a.passed + b.passed, a.failed + b.failed, a.skipped + b.skipped, a.info + b.info⟩

def total (t : Tally) : Nat := t.passed + t.failed + t.skipped + t.info

end Tally

structure SuiteReport where
  title : String
  scenarios : List ScenarioReport
  deriving DecidableEq, Repr

namespace SuiteReport

def failed (r : SuiteReport) : Bool := r.scenarios.any (·.outcome.isFailure)

def tally (r : SuiteReport) : Tally :=
  (r.scenarios.flatMap (·.verdicts)).foldl (fun t v => t.add v.outcome) .zero

def exitStatus (r : SuiteReport) : Nat := if r.failed then 1 else 0

def totals (rs : List SuiteReport) : Tally := (rs.map tally).foldl Tally.merge .zero

end SuiteReport

end SmokeBench
