import Mathlib.Data.List.Forall2
import SmokeBench.Proofs.Agreement
import SmokeBench.Proofs.Requests

/-! A run writes its transcript while it goes on and returns a report at its end. Both tell the
same: on a sink that never fails the transcript is the report, rendered in one go. The rendering is
written out here, line by line, and takes nothing from what writes the transcript. The section that
the transcript remembers is the section of the last entry, and this is all the induction needs. -/

namespace SmokeBench

open Dialogue

namespace SuiteReport

def rule : String := "============================================================"

def verdictLine (v : Verdict) : String :=
  match v.outcome with
  | .pass => "PASS: " ++ v.message
  | .fail => "FAIL: " ++ v.message
  | .skip => "SKIP: " ++ v.message
  | .info => "INFO: " ++ v.message

/-- The lines of entries that follow an entry of section `before`. -/
def entryLines : Option String → List ScenarioReport → List String
  | _, [] => []
  | before, r :: rest =>
    (if before = some r.sectionName then [] else ["", "--- Testing " ++ r.sectionName ++ " ---"]) ++
      r.verdicts.map verdictLine ++ entryLines (some r.sectionName) rest

def resultLine (r : SuiteReport) : String :=
  if r.failed then "RESULT: Some " ++ r.title ++ " checks FAILED"
  else "RESULT: All " ++ r.title ++ " checks PASSED"

def lines (r : SuiteReport) : List String :=
  [rule, "SANITY TEST: " ++ r.title, rule] ++ entryLines none r.scenarios ++
    ["", rule, r.resultLine, rule, ""]

theorem rule_eq : rule = Transcript.rule := by decide +kernel

theorem verdictLine_eq : verdictLine = Verdict.display := by
  funext ⟨outcome, message⟩
  cases outcome <;> rfl

theorem entryLines_cons (before : Option String) (r : ScenarioReport) (rest : List ScenarioReport) :
    entryLines before (r :: rest) = Transcript.headerLines before r.sectionName ++
      r.verdicts.map Verdict.display ++ entryLines (some r.sectionName) rest := by
  rw [entryLines, verdictLine_eq]
  rfl

theorem lines_eq (r : SuiteReport) : r.lines =
    Transcript.bannerLines r.title ++ entryLines none r.scenarios ++ Transcript.resultLines r := by
  rw [lines, rule_eq]
  rfl

end SuiteReport

/-- An entry is about this scenario, and tells something of it. -/
structure ScenarioReport.Tells (r : ScenarioReport) (s : Scenario) : Prop where
  sectionName : r.sectionName = s.sectionName
  name : r.name = s.name
  verdicts : r.verdicts ≠ []

variable {σ : Type} {host : Host σ}

theorem Scenario.verdictsOf_ne_nil (name : String) (r : Except ScenarioFault (List Verdict)) :
    verdictsOf name r ≠ [] := by
  rcases r with f | _ | ⟨v, rest⟩ <;> simp [verdictsOf]

theorem Scenario.execute_ne_nil (s : Scenario) (bench : Bench) (available : Availability) (st : σ) :
    ((s.execute bench available).run host st).1 ≠ [] := by
  unfold execute
  split
  · simp
  · split
    · rw [run_bind]
      exact verdictsOf_ne_nil _ _
    · simp

theorem Scenario.execute_silent {s : Scenario} (hjudges : s.Judges Request.Silent) (bench : Bench)
    (available : Availability) : (s.execute bench available).Only Request.Silent := by
  refine execute_only bench available (fun r hr => ?_) hjudges
  cases r with
  | print text => cases hr
  | _ => trivial

namespace Suite

theorem lookUp_silent (known : Known) (b : Binary) : (lookUp known b).Only Request.Silent := by
  unfold lookUp
  split
  · exact only_pure _
  · exact (only_ask trivial).bind fun _ => only_pure _

variable (hsink : host.TakesAll)

include hsink

theorem printVerdicts_tells (t : Transcript) (vs : List Verdict) (st : σ) :
    Tells host (printVerdicts t vs) st (.ok (), t)
      ((vs.map Verdict.display).map (· ++ "\n")) := by
  induction vs generalizing st with
  | nil => exact .pure _ st
  | cons v rest ih => exact (Transcript.verdict_tells hsink t v st).bind (ih _)

theorem runScenarios_tells (bench : Bench) (t : Transcript) (known : Known)
    (done : List ScenarioReport) (scenarios : List Scenario)
    (hjudges : ∀ s ∈ scenarios, s.Judges Request.Silent) (st : σ) :
    ∃ reports t', List.Forall₂ (fun s r => ScenarioReport.Tells r s) scenarios reports ∧
      Tells host (runScenarios bench t known done scenarios) st (.ok (done ++ reports), t')
        ((SuiteReport.entryLines t.sectionName reports).map (· ++ "\n")) := by
  induction scenarios generalizing t known done st with
  | nil => exact ⟨[], t, .nil, by rw [List.append_nil]; exact .pure _ st⟩
  | cons s rest ih =>
    have hquiet := s.execute_silent (hjudges s (by simp)) bench
    have henter := Transcript.enter_tells hsink t s.sectionName st
    set s₁ := ((t.enter s.sectionName).run host st).2
    have hlook : Tells host _ _ _ _ := .silent (lookUp_silent known s.binary) s₁
    set looked := (lookUp known s.binary).run host s₁
    have hexec : Tells host _ _ _ _ := .silent (hquiet looked.1.1) looked.2
    set ran := (s.execute bench looked.1.1).run host looked.2
    have hverdicts := printVerdicts_tells hsink ⟨some s.sectionName⟩ ran.1 ran.2
    set s₂ := ((printVerdicts ⟨some s.sectionName⟩ ran.1).run host ran.2).2
    set entry : ScenarioReport := ⟨s.sectionName, s.name, ran.1⟩
    obtain ⟨reports, t', hmatch, hrest⟩ := ih ⟨some s.sectionName⟩ looked.1.2
      (done ++ [entry]) (fun x hx => hjudges x (by simp [hx])) s₂
    rw [List.append_assoc, List.singleton_append] at hrest
    refine ⟨entry :: reports, t', .cons ⟨rfl, rfl, s.execute_ne_nil bench _ _⟩ hmatch, ?_⟩
    have hall : Tells host (runScenarios bench t known done (s :: rest)) st
        (.ok (done ++ entry :: reports), t')
        ((Transcript.headerLines t.sectionName s.sectionName).map (· ++ "\n") ++ ([] ++ ([] ++
          ((ran.1.map Verdict.display).map (· ++ "\n") ++
            (SuiteReport.entryLines (some s.sectionName) reports).map (· ++ "\n"))))) :=
      Tells.bind henter (Tells.bind hlook (Tells.bind hexec (Tells.bind hverdicts hrest)))
    exact hall.congr (by simp [SuiteReport.entryLines_cons, entry])

/-- On a sink that never fails a run comes to the report of what its scenarios came to, and tells its
lines. -/
theorem run_tells_report (bench : Bench) (suite : Suite) (t : Transcript)
    (hphase : suite.phase = .registered)
    (hjudges : ∀ s ∈ suite.scenarios, s.Judges Request.Silent) (st : σ) :
    ∃ reports t', List.Forall₂ (fun s r => ScenarioReport.Tells r s) suite.scenarios reports ∧
      ((runScenarios bench .start [] [] suite.scenarios).run host
        ((t.banner suite.title).run host st).2).1 = (.ok reports, t') ∧
      Tells host (suite.run bench t) st
        ⟨.ok ⟨suite.title, reports⟩, { suite with phase := .reported }, t'⟩
        ((SuiteReport.lines ⟨suite.title, reports⟩).map (· ++ "\n")) := by
  have hbanner := Transcript.banner_tells hsink t suite.title st
  set s₁ := ((t.banner suite.title).run host st).2
  obtain ⟨reports, t', hmatch, hscenarios⟩ :=
    runScenarios_tells hsink bench .start [] [] suite.scenarios hjudges s₁
  set s₂ := ((runScenarios bench .start [] [] suite.scenarios).run host s₁).2
  have hresult := Transcript.suiteResult_tells hsink t' ⟨suite.title, reports⟩ s₂
  have hexpect : suite.expectRegistered = .ok () := by simp [expectRegistered, hphase]
  have hrun : Tells host (suite.run bench t) st
      ⟨.ok ⟨suite.title, reports⟩, { suite with phase := .reported }, t'⟩
      ((Transcript.bannerLines suite.title).map (· ++ "\n") ++
        ((SuiteReport.entryLines none reports).map (· ++ "\n") ++
          ((Transcript.resultLines ⟨suite.title, reports⟩).map (· ++ "\n") ++ []))) := by
    unfold Suite.run
    rw [hexpect]
    exact Tells.bind hbanner (Tells.bind hscenarios (Tells.bind hresult (.pure _ _)))
  exact ⟨reports, t', hmatch, hscenarios.result, hrun.congr (by simp [SuiteReport.lines_eq])⟩

/-- On a sink that never fails a run ends well whatever becomes of its scenarios: every scenario
has its entry in the report, and the sink took the lines of that report, one write for each, which say
that checks failed exactly if one did. The run holds the sink, so evaluators cannot write to it. -/
theorem run_writes_report (bench : Bench) (suite : Suite) (t : Transcript)
    (hphase : suite.phase = .registered)
    (hjudges : ∀ s ∈ suite.scenarios, s.Judges Request.Silent) (st : σ) :
    ∃ report : SuiteReport,
      ((suite.run bench t).run host st).1.result = .ok report ∧
      ((suite.run bench t).run host st).1.suite = { suite with phase := .reported } ∧
      report.title = suite.title ∧
      List.Forall₂ (fun s r => ScenarioReport.Tells r s) suite.scenarios report.scenarios ∧
      (report.failed = true ↔ ∃ x ∈ report.scenarios, ∃ v ∈ x.verdicts, v.outcome = .fail) ∧
      written ((suite.run bench t).journal host st) = report.lines.map (· ++ "\n") := by
  obtain ⟨reports, t', hmatch, -, hrun⟩ := run_tells_report hsink bench suite t hphase hjudges st
  refine ⟨⟨suite.title, reports⟩, by rw [hrun.result], by rw [hrun.result], rfl, hmatch, ?_, hrun.sink⟩
  simp only [SuiteReport.failed_iff, ScenarioReport.outcome_eq_fail_iff]

omit hsink

/-- A binary that is found, an evaluator that panics and a scope that cannot be made. -/
def mixed : Suite where
  title := "Mixed"
  scenarios :=
    [.locate "Presence" ⟨"tool", .ofString "/bin"⟩,
      .bounded "Response" "panic" ⟨"tool", .ofString "/bin"⟩ [] .zero
        fun _ => pure (.error (.text "no luck")),
      .bounded "Response" "scoped" ⟨"tool", .ofString "/bin"⟩ ["\x7bscope\x7d/a"] .zero
        fun _ => pure (.ok [])]
  phase := .registered

theorem mixed_judges : ∀ s ∈ mixed.scenarios, s.Judges Request.Silent := by
  intro s hs mode evaluate haction e
  simp only [mixed, List.mem_cons, List.not_mem_nil, or_false] at hs
  rcases hs with rfl | rfl | rfl <;> cases haction <;> exact only_pure _

def mixedReport : SuiteReport where
  title := "Mixed"
  scenarios :=
    [⟨"Presence", "tool", [.pass "tool exists and is executable"]⟩,
      ⟨"Response", "panic", [.fail "panic aborted: no luck"]⟩,
      ⟨"Response", "scoped", [.fail ("scoped error: failed to create scope under /tmp: " ++
        "Permission denied (os error 13)")]⟩]

theorem mixed_reported :
    ((mixed.run .standard .start).run (.still : Host Unit) ()).1.result = .ok mixedReport := by
  rfl

theorem run_writes_report_mixed :
    (Host.still : Host Unit).TakesAll ∧ mixed.phase = .registered ∧
    (∀ s ∈ mixed.scenarios, s.Judges Request.Silent) ∧
    written ((mixed.run .standard .start).journal (.still : Host Unit) ()) =
      ["============================================================\n", "SANITY TEST: Mixed\n",
        "============================================================\n",
        "\n", "--- Testing Presence ---\n", "PASS: tool exists and is executable\n",
        "\n", "--- Testing Response ---\n", "FAIL: panic aborted: no luck\n",
        "FAIL: scoped error: failed to create scope under /tmp: Permission denied (os error 13)\n",
        "\n", "============================================================\n",
        "RESULT: Some Mixed checks FAILED\n",
        "============================================================\n", "\n"] := by
  refine ⟨Host.still_takesAll, rfl, mixed_judges, ?_⟩
  obtain ⟨report, hresult, -, -, -, -, hwritten⟩ :=
    run_writes_report Host.still_takesAll .standard mixed .start rfl mixed_judges ()
  obtain rfl : mixedReport = report := Except.ok.inj (mixed_reported.symm.trans hresult)
  rw [hwritten]
  decide +kernel

end Suite

end SmokeBench
