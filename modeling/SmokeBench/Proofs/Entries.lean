import SmokeBench.Proofs.Rendering
import SmokeBench.Proofs.Visits

/-! The report of a run whose sink never fails, told by where the run stops for each scenario. A run
carries nothing from stop to stop but the section, what it knows of binaries and the state of its
host, so the stops are a function of these. -/

namespace SmokeBench

open Dialogue

variable {σ : Type} (host : Host σ) (bench : Bench)

/-- A run that is about to look for the binary of its next scenario. -/
structure Stop (σ : Type) where
  scenario : Scenario
  known : Suite.Known
  start : σ

namespace Stop

variable (x : Stop σ)

def looking : Dialogue (Availability × Suite.Known) := Suite.lookUp x.known x.scenario.binary

def visit : Visit σ :=
  ⟨x.scenario, (x.looking.run host x.start).1.1, (x.looking.run host x.start).2⟩

def learnt : Suite.Known := (x.looking.run host x.start).1.2

end Stop

namespace Suite

/-- The stops of a run whose sink takes everything. -/
def stops : Transcript → Known → List Scenario → σ → List (Stop σ)
  | _, _, [], _ => []
  | t, known, s :: rest, st =>
    let x : Stop σ := ⟨s, known, ((t.enter s.sectionName).run host st).2⟩
    let v := x.visit host
    let printing := printVerdicts ⟨some s.sectionName⟩ (v.verdicts host bench)
    x :: stops ⟨some s.sectionName⟩ (x.learnt host) rest (printing.run host (v.finish host bench)).2

def entries (t : Transcript) (known : Known) (scenarios : List Scenario) (st : σ) :
    List ScenarioReport :=
  (stops host bench t known scenarios st).map fun x => (x.visit host).entry host bench

variable {host bench}

theorem entries_length (t : Transcript) (known : Known) (scenarios : List Scenario) (st : σ) :
    (entries host bench t known scenarios st).length = scenarios.length := by
  induction scenarios generalizing t known st with
  | nil => rfl
  | cons s rest ih => exact congrArg (· + 1) (ih _ _ _)

theorem exists_visit_of_mem {t : Transcript} {known : Known} {scenarios : List Scenario} {st : σ}
    {r : ScenarioReport} (h : r ∈ entries host bench t known scenarios st) :
    ∃ v : Visit σ, v.scenario ∈ scenarios ∧ r = v.entry host bench := by
  induction scenarios generalizing t known st with
  | nil => cases h
  | cons s rest ih =>
    rcases List.mem_cons.mp h with hfirst | hrest
    · exact ⟨_, List.mem_cons_self, hfirst⟩
    · obtain ⟨v, hv, hr⟩ := ih hrest
      exact ⟨v, List.mem_cons_of_mem _ hv, hr⟩

variable (bench) in
theorem runScenarios_entries (hsink : host.TakesAll) (t : Transcript) (known : Known)
    (done : List ScenarioReport) (scenarios : List Scenario) (st : σ) :
    ((runScenarios bench t known done scenarios).run host st).1.1 =
      .ok (done ++ entries host bench t known scenarios st) := by
  induction scenarios generalizing t known done st with
  | nil => rw [entries, stops, List.map_nil, List.append_nil]; rfl
  | cons s rest ih =>
    rw [runScenarios, run_bind, (Transcript.enter_tells hsink t s.sectionName st).result]
    dsimp only
    rw [run_bind, run_bind, run_bind, (printVerdicts_tells hsink _ _ _).result]
    refine (ih _ _ _ _).trans ?_
    rw [List.append_assoc]
    rfl

def runStops (host : Host σ) (bench : Bench) (suite : Suite) (t : Transcript) (st : σ) :
    List (Stop σ) :=
  stops host bench .start [] suite.scenarios ((t.banner suite.title).run host st).2

/-- What a run of a suite reports on a sink that never fails. -/
def reportOf (host : Host σ) (bench : Bench) (suite : Suite) (t : Transcript) (st : σ) :
    SuiteReport :=
  ⟨suite.title, entries host bench .start [] suite.scenarios ((t.banner suite.title).run host st).2⟩

variable (bench) in
theorem run_tells (hsink : host.TakesAll) (suite : Suite) (t : Transcript)
    (hphase : suite.phase = .registered)
    (hjudges : ∀ s ∈ suite.scenarios, s.Judges Request.Silent) (st : σ) :
    ((suite.run bench t).run host st).1.result = .ok (suite.reportOf host bench t st) ∧
    written ((suite.run bench t).journal host st) =
      (suite.reportOf host bench t st).lines.map (· ++ "\n") := by
  obtain ⟨reports, t', -, hscenarios, hrun⟩ :=
    run_tells_report hsink bench suite t hphase hjudges st
  have hreport : suite.reportOf host bench t st = ⟨suite.title, reports⟩ := by
    have hentries := runScenarios_entries bench hsink .start [] [] suite.scenarios
      ((t.banner suite.title).run host st).2
    rw [hscenarios] at hentries
    rw [reportOf, Except.ok.inj hentries]
    rfl
  rw [hreport]
  exact ⟨by rw [hrun.result], hrun.sink⟩

end Suite

end SmokeBench
