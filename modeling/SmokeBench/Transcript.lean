import SmokeBench.Dialogue
import SmokeBench.Report

/-!
The transcript is written line by line while a run goes on. It remembers the section it is in, so
that a header is printed only where the section changes; the section counts as entered once its
header was asked for, whether or not the lines could be written.
-/

namespace SmokeBench

structure Transcript where
  sectionName : Option String
  deriving DecidableEq, Repr

namespace Transcript

def start : Transcript := ⟨none⟩

def rule : String := String.ofList (List.replicate 60 '=')

/-- Writes lines until one cannot be written. -/
def printLines : List String → Dialogue (Except IoError Unit)
  | [] => return .ok ()
  | line :: rest => do
    match ← ask (.print (line ++ "\n")) with
    | .ok () => printLines rest
    | .error e => return .error e

def bannerLines (title : String) : List String := [rule, "SANITY TEST: " ++ title, rule]

def sectionLines (name : String) : List String := ["", s!"--- Testing {name} ---"]

def resultLines (r : SuiteReport) : List String :=
  ["", rule,
    if r.failed then s!"RESULT: Some {r.title} checks FAILED"
    else s!"RESULT: All {r.title} checks PASSED",
    rule, ""]

def overallLines (rs : List SuiteReport) : List String :=
  let t := SuiteReport.totals rs
  let failed := (rs.filter (·.failed)).length
  [s!"OVERALL: {rs.length} suites, {t.total} checks: {t.passed} passed, {t.failed} failed, " ++
      s!"{t.skipped} skipped, {t.info} info",
    if failed = 0 then "RESULT: All suites PASSED"
    else s!"RESULT: {failed} of {rs.length} suites FAILED"]

abbrev Step := Dialogue (Except IoError Unit × Transcript)

def banner (_ : Transcript) (title : String) : Step := do
  return (← printLines (bannerLines title), ⟨none⟩)

def enter (t : Transcript) (name : String) : Step := do
  if t.sectionName = some name then return (.ok (), t)
  else return (← printLines (sectionLines name), ⟨some name⟩)

def verdict (t : Transcript) (v : Verdict) : Step := do
  return (← printLines [v.display], t)

def suiteResult (t : Transcript) (r : SuiteReport) : Step := do
  return (← printLines (resultLines r), t)

def overall (t : Transcript) (rs : List SuiteReport) : Step := do
  return (← printLines (overallLines rs), t)

end Transcript

end SmokeBench
