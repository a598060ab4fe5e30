import SmokeBench.Proofs.FailingSink
import SmokeBench.Proofs.Lifecycle
import SmokeBench.Proofs.Visits

/-! Suites that run one after the other on one transcript. The first one that is not told to its end
is the last one that runs. If there is none, every suite has reached its last phase, every suite has
its report, and the sink took the lines of the reports in their order. -/

namespace SmokeBench

open Dialogue

variable {σ : Type} {host : Host σ}

/-- A report is about this suite, and has an entry for each of its scenarios. -/
structure SuiteReport.Tells (r : SuiteReport) (suite : Suite) : Prop where
  title : r.title = suite.title
  scenarios : List.Forall₂ (fun s e => ScenarioReport.Tells e s) suite.scenarios r.scenarios

namespace Suite

/-- Runs suites until one of them does not come to its end, and keeps what became of each. -/
def runEach (bench : Bench) (t : Transcript) : List Suite → Dialogue (List Outcome)
  | [] => return []
  | suite :: rest => do
    let outcome ← suite.run bench t
    match outcome.result with
    | .ok _ => (outcome :: ·) <$> runEach bench outcome.transcript rest
    | .error _ => return [outcome]

def reports (os : List Outcome) : List SuiteReport := os.filterMap (·.result.toOption)

def AllReported (suites : List Suite) (os : List Outcome) : Prop :=
  List.Forall₂ (fun suite o => o.suite = { suite with phase := .reported }) suites os

/-- A suite that has not been run and whose scenarios are judged without a line. -/
structure Ready (suite : Suite) : Prop where
  registered : suite.phase = .registered
  silent : ∀ s ∈ suite.scenarios, s.Judges Request.Silent

/-- What became of suites in a row, and what the sink was asked to take for it. -/
inductive Sequel (suites : List Suite) (os : List Outcome) (as : List Attempt) : Prop
  | reported (hall : AllReported suites os)
      (htold : List.Forall₂ (fun suite r => SuiteReport.Tells r suite) suites (reports os))
      (hresults : ∀ o ∈ os, ∃ r, o.result = .ok r)
      (haccepted : as = accepted ((reports os).flatMap (·.lines)))
  | stopped (hall : ¬ AllReported suites os) (herror : ∃ o ∈ os, ∃ e, o.result = .error e)

variable {suite : Suite} {rest : List Suite} {o : Outcome} {os : List Outcome} {as bs : List Attempt}

theorem Sequel.cons {report : SuiteReport} (hsuite : o.suite = { suite with phase := .reported })
    (hresult : o.result = .ok report) (htells : report.Tells suite)
    (has : as = accepted report.lines) (h : Sequel rest os bs) :
    Sequel (suite :: rest) (o :: os) (as ++ bs) := by
  have hreports : reports (o :: os) = report :: reports os := by
    rw [reports, List.filterMap_cons, hresult]
    rfl
  cases h with
  | reported hall htold hresults haccepted =>
    refine .reported (.cons hsuite hall) ?_ ?_ ?_
    · rw [hreports]
      exact .cons htells htold
    · exact List.forall_mem_cons.mpr ⟨⟨report, hresult⟩, hresults⟩
    · rw [hreports, List.flatMap_cons, accepted_append, has, haccepted]
  | stopped hall herror =>
    refine .stopped ?_ ?_
    · intro h
      exact hall (List.forall₂_cons.mp h).2
    · obtain ⟨x, hx, e, he⟩ := herror
      exact ⟨x, List.mem_cons_of_mem _ hx, e, he⟩

theorem Sequel.stop {e : SuiteError} (hresult : o.result = .error e)
    (hphase : o.suite.phase ≠ .reported) : Sequel (suite :: rest) [o] as := by
  refine .stopped ?_ ⟨o, List.mem_singleton_self o, e, hresult⟩
  intro h
  apply hphase
  rw [(List.forall₂_cons.mp h).1]

variable (host) in
/-- Suites in a row come to their ends one after the other, or one of them does not. -/
theorem runEach_sequel (bench : Bench) (t : Transcript) {suites : List Suite}
    (hready : ∀ suite ∈ suites, suite.Ready) (st : σ) :
    Sequel suites ((runEach bench t suites).run host st).1
      (attempts ((runEach bench t suites).journal host st)) := by
  induction suites generalizing t st with
  | nil => exact .reported .nil .nil (by simp [runEach]) rfl
  | cons suite rest ih =>
    obtain ⟨hfirst, hrest⟩ := List.forall_mem_cons.mp hready
    obtain ⟨report, htitle, htells, hended⟩ :=
      run_ended host bench suite t hfirst.registered hfirst.silent st
    obtain ⟨phase, -, hsuite, -⟩ := run_leaves hfirst.registered bench t host st
    have hphase : ((suite.run bench t).run host st).1.suite.phase = phase := by rw [hsuite]
    unfold runEach
    rw [run_bind, journal_bind, attempts_append]
    generalize hresult : ((suite.run bench t).run host st).1.result = result at hended ⊢
    rw [hphase] at hended
    cases hended with
    | reported h =>
      dsimp only
      rw [run_map, journal_map]
      exact .cons hsuite hresult ⟨htitle, htells⟩ h (ih _ hrest _)
    | aggregated h =>
      exact .stop hresult (by rw [hphase]; decide)
    | running h =>
      exact .stop hresult (by rw [hphase]; decide)

end Suite

theorem Walk.asks {bench : Bench} {s : σ} {vs : List (Visit σ)} {j : List Exchange}
    (h : Walk host bench s vs j) :
    ∀ x ∈ j, x.request.announces ∨ ∃ v ∈ vs, x ∈ v.journal host bench := by
  induction h with
  | stop s => simp
  | announce hr _ ih => exact List.forall_mem_cons.mpr ⟨.inl hr, ih⟩
  | @visit v vs j _ ih =>
    intro x hx
    rcases List.mem_append.mp hx with hx | hx
    · exact .inr ⟨v, List.mem_cons_self, hx⟩
    · apply (ih x hx).imp_right
      rintro ⟨w, hw, hx⟩
      exact ⟨w, List.mem_cons_of_mem _ hw, hx⟩

namespace Suite

/-- A request of a run of one of these suites. -/
def Asked (suites : List Suite) (host : Host σ) (bench : Bench) (x : Exchange) : Prop :=
  x.request.announces ∨ ∃ suite ∈ suites, ∃ s ∈ suite.scenarios, ∃ available st,
    x ∈ (s.execute bench available).journal host st

variable (host) in
/-- Suites in a row are a walk over their scenarios, over all of them if each suite comes to its end. -/
theorem runEach_tours (bench : Bench) (t : Transcript) (suites : List Suite) (st : σ) :
    ∃ visits os, Tours host bench (runEach bench t suites) st os visits ∧
      visits.map (·.scenario) <+: suites.flatMap (·.scenarios) ∧
      ((∀ o ∈ os, ∃ r, o.result = .ok r) →
        visits.map (·.scenario) = suites.flatMap (·.scenarios)) := by
  induction suites generalizing t st with
  | nil => exact ⟨[], [], .pure _ st, List.prefix_refl _, fun _ => rfl⟩
  | cons suite rest ih =>
    obtain ⟨first, outcome, htours, hbegins, hall⟩ := run_tours host bench suite t st
    rw [List.flatMap_cons]
    cases hresult : outcome.result with
    | error e =>
      refine ⟨first ++ [], [outcome], htours.bind ?_, ?_, fun hok => ?_⟩
      · rw [hresult]
        exact .pure _ _
      · rw [List.append_nil]
        exact hbegins.trans (List.prefix_append _ _)
      · obtain ⟨r, hr⟩ := hok outcome (List.mem_singleton_self _)
        cases hresult.symm.trans hr
    | ok report =>
      obtain ⟨later, os, hlater, hprefix, hrest⟩ :=
        ih outcome.transcript ((suite.run bench t).run host st).2
      have hfirst := (hall report hresult).1
      refine ⟨first ++ later, outcome :: os, htours.bind ?_, ?_, fun hok => ?_⟩
      · rw [hresult]
        exact hlater.map _
      · rw [List.map_append, hfirst]
        exact (List.prefix_append_right_inj _).mpr hprefix
      · rw [List.map_append, hfirst, hrest (List.forall_mem_cons.mp hok).2]

theorem runEach_asks {suites : List Suite} (bench : Bench) (t : Transcript) (st : σ) :
    ∀ x ∈ (runEach bench t suites).journal host st, Asked suites host bench x := by
  intro x hx
  obtain ⟨visits, os, htours, hbegins, -⟩ := runEach_tours host bench t suites st
  refine (htours.walk.asks x hx).imp_right ?_
  rintro ⟨v, hv, hx⟩
  have hscenario : v.scenario ∈ suites.flatMap (·.scenarios) :=
    hbegins.subset (List.mem_map_of_mem (f := (·.scenario)) hv)
  obtain ⟨suite, hsuite, hscenario⟩ := List.mem_flatMap.mp hscenario
  exact ⟨suite, hsuite, v.scenario, hscenario, v.available, v.start, hx⟩

end Suite

end SmokeBench
