import SmokeBench.Report
import SmokeBench.Scope
import SmokeBench.Summary.Canonical

/-!
The summary of a whole run, written as canonical JSON for machines and as a Markdown digest for
people.
-/

namespace SmokeBench

structure RunSummary where
  status : String
  startedAt : Nat
  endedAt : Nat
  durationMs : Nat
  totals : Tally
  suites : List SuiteReport
  deriving DecidableEq, Repr

inductive SummaryError
  | io (path : Path) (cause : IoError)
  deriving DecidableEq, Repr

def SummaryError.message : SummaryError → String
  | io path cause => s!"failed to write summary at {path.display}: {cause.message}"

namespace RunSummary

def of (startedAt endedAt : Nat) (suites : List SuiteReport) : RunSummary where
  status := if suites.any (·.failed) then "fail" else "pass"
  startedAt := startedAt
  endedAt := endedAt
  durationMs := endedAt - startedAt
  totals := SuiteReport.totals suites
  suites := suites

def create (startedAt : Nat) (suites : List SuiteReport) : Dialogue RunSummary := do
  return of startedAt (← ask .calendar) suites

open Summary (Json)

def verdictJson (v : Verdict) : Json :=
  .object [("outcome", .string v.outcome.label), ("message", .string v.message)]

def scenarioJson (r : ScenarioReport) : Json :=
  .object [("section", .string r.sectionName), ("name", .string r.name),
    ("verdicts", .array (r.verdicts.map verdictJson))]

def suiteJson (r : SuiteReport) : Json :=
  .object [("title", .string r.title), ("scenarios", .array (r.scenarios.map scenarioJson))]

def tallyJson (t : Tally) : Json :=
  .object [("passed", .number t.passed), ("failed", .number t.failed),
    ("skipped", .number t.skipped), ("info", .number t.info)]

def toJson (s : RunSummary) : Json :=
  .object [("status", .string s.status), ("started_at_ms", .number s.startedAt),
    ("ended_at_ms", .number s.endedAt), ("duration_ms", .number s.durationMs),
    ("totals", tallyJson s.totals), ("suites", .array (s.suites.map suiteJson))]

def canonical (s : RunSummary) : String := String.ofList s.toJson.render

def scenarioLines (r : ScenarioReport) : List String :=
  s!"- {r.name} ({r.outcome.label})" :: r.verdicts.map ("  - " ++ ·.display)

def suiteLines (r : SuiteReport) : List String :=
  ["", "## " ++ r.title, ""] ++
    if r.scenarios.isEmpty then ["- None"] else r.scenarios.flatMap scenarioLines

def digestLines (s : RunSummary) : List String :=
  ["# Sanity Run Summary", "", "## Status", "",
    "- Status: " ++ s.status,
    s!"- Duration (ms): {s.durationMs}",
    s!"- Checks: {s.totals.passed} passed, {s.totals.failed} failed, " ++
      s!"{s.totals.skipped} skipped, {s.totals.info} info"] ++
    s.suites.flatMap suiteLines

/-- The Markdown digest; every line ends with a line feed. -/
def digest (s : RunSummary) : String := String.join (s.digestLines.map (· ++ "\n"))

def jsonName : String := "summary.json"
def digestName : String := "summary.md"

def storeAt (path : Path) (text : String) : Dialogue (Except SummaryError Path) := do
  match ← ask (.store path (Bytes.ofString text)) with
  | .ok () => return .ok path
  | .error e => return .error (.io path e)

def writeTo (s : RunSummary) (dir : Path) : Dialogue (Except SummaryError (List Path)) := do
  match ← makeDirs dir with
  | .error e => return .error (.io dir e)
  | .ok () =>
    match ← storeAt (dir.join (.ofString jsonName)) s.canonical with
    | .error e => return .error e
    | .ok jsonPath =>
      match ← storeAt (dir.join (.ofString digestName)) s.digest with
      | .error e => return .error e
      | .ok digestPath => return .ok [jsonPath, digestPath]

end RunSummary

end SmokeBench
