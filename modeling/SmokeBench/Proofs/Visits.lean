import Mathlib.Data.List.Basic
import SmokeBench.Proofs.Requests

/-! A run goes from scenario to scenario. Its journal is made of the courses of its scenarios, one
whole course after the other, and between them the run only prints or looks for a binary. So what
holds of the course of every scenario holds along every run, also of one that ends early. -/

namespace SmokeBench

open Dialogue

/-- What a run asks for between two scenarios. -/
def Request.announces : Request → Bool
  | print _ | availability _ => true
  | _ => false

/-- A scenario as a run came to it. -/
structure Visit (σ : Type) where
  scenario : Scenario
  available : Availability
  start : σ

variable {σ α β : Type} (host : Host σ) (bench : Bench)

namespace Visit

variable (v : Visit σ)

def journal : List Exchange := (v.scenario.execute bench v.available).journal host v.start

def verdicts : List Verdict := ((v.scenario.execute bench v.available).run host v.start).1

def finish : σ := ((v.scenario.execute bench v.available).run host v.start).2

def entry : ScenarioReport := ⟨v.scenario.sectionName, v.scenario.name, v.verdicts host bench⟩

end Visit

/-- From a state on, the journal is made of these visits in order and of announcements. -/
inductive Walk : σ → List (Visit σ) → List Exchange → Prop
  | stop (s : σ) : Walk s [] []
  | announce {s : σ} {r : Request} {vs : List (Visit σ)} {j : List Exchange} (h : r.announces)
      (rest : Walk (host.answer r s).2 vs j) : Walk s vs (⟨r, (host.answer r s).1⟩ :: j)
  | visit {v : Visit σ} {vs : List (Visit σ)} {j : List Exchange}
      (rest : Walk (v.finish host bench) vs j) : Walk v.start (v :: vs) (v.journal host bench ++ j)

/-- From a state on, a dialogue comes to a result and its journal is a walk. -/
structure Tours (d : Dialogue α) (s : σ) (a : α) (vs : List (Visit σ)) : Prop where
  result : (d.run host s).1 = a
  walk : Walk host bench s vs (d.journal host s)

variable {host bench}

theorem Walk.append {s : σ} {vs ws : List (Visit σ)} {i j : List Exchange}
    (h : Walk host bench s vs i) (hj : Walk host bench (after host s i) ws j) :
    Walk host bench s (vs ++ ws) (i ++ j) := by
  induction h with
  | stop s => exact hj
  | announce hr _ ih => exact .announce hr (ih hj)
  | @visit v vs i _ ih =>
    rw [List.append_assoc]
    refine .visit (ih ?_)
    rwa [after_append, Visit.journal, after_journal] at hj

namespace Tours

theorem pure (a : α) (s : σ) : Tours host bench (Pure.pure a) s a [] := ⟨rfl, .stop s⟩

theorem bind {d : Dialogue α} {f : α → Dialogue β} {s : σ} {a : α} {b : β}
    {vs ws : List (Visit σ)} (hd : Tours host bench d s a vs)
    (hf : Tours host bench (f a) (d.run host s).2 b ws) :
    Tours host bench (d >>= f) s b (vs ++ ws) where
  result := by rw [run_bind, hd.result, hf.result]
  walk := by
    rw [journal_bind, hd.result]
    exact hd.walk.append (by rw [after_journal]; exact hf.walk)

theorem map {d : Dialogue α} {s : σ} {a : α} {vs : List (Visit σ)} (f : α → β)
    (h : Tours host bench d s a vs) : Tours host bench (f <$> d) s (f a) vs where
  result := by rw [run_map, h.result]
  walk := by
    rw [journal_map]
    exact h.walk

theorem quiet {d : Dialogue α} (h : d.Only (Request.announces ·)) (s : σ) :
    Tours host bench d s (d.run host s).1 [] := by
  refine ⟨rfl, ?_⟩
  induction d generalizing s with
  | done a => exact .stop s
  | ask r k ih => exact .announce h.1 (ih _ (h.2 _) _)

theorem visit (v : Visit σ) :
    Tours host bench (v.scenario.execute bench v.available) v.start (v.verdicts host bench) [v] :=
  ⟨rfl, by
    have h := Walk.visit (v := v) (.stop (v.finish host bench))
    rwa [List.append_nil] at h⟩

end Tours

namespace Transcript

variable {P : Request → Prop} (hprint : ∀ text, P (.print text))

include hprint

theorem printLines_only (lines : List String) : (printLines lines).Only P := by
  induction lines with
  | nil => exact only_pure _
  | cons line rest ih =>
    refine (only_ask (hprint _)).bind fun reply => ?_
    split
    · exact ih
    · exact only_pure _

theorem print_only (lines : List String) (t : Transcript) :
    (do return (← printLines lines, t) : Step).Only P :=
  (printLines_only hprint lines).bind fun _ => only_pure _

theorem banner_only (t : Transcript) (title : String) : (t.banner title).Only P :=
  print_only hprint _ _

theorem suiteResult_only (t : Transcript) (r : SuiteReport) : (t.suiteResult r).Only P :=
  print_only hprint _ _

theorem enter_only (t : Transcript) (name : String) : (t.enter name).Only P := by
  unfold enter
  split
  · exact only_pure _
  · exact print_only hprint _ _

end Transcript

namespace Suite

theorem lookUp_only (known : Known) (b : Binary) :
    (lookUp known b).Only (Request.announces ·) := by
  unfold lookUp
  split
  · exact only_pure _
  · exact (only_ask (by rfl)).bind fun _ => only_pure _

theorem printVerdicts_only {P : Request → Prop} (hprint : ∀ text, P (.print text))
    (t : Transcript) (vs : List Verdict) : (printVerdicts t vs).Only P := by
  induction vs generalizing t with
  | nil => exact only_pure _
  | cons v rest ih =>
    refine (Transcript.print_only hprint _ t).bind fun printed => ?_
    split
    · exact ih _
    · exact only_pure _

variable (host bench) in
theorem runScenarios_tours (t : Transcript) (known : Known) (done : List ScenarioReport)
    (scenarios : List Scenario) (s : σ) :
    ∃ visits result, Tours host bench (runScenarios bench t known done scenarios) s result visits ∧
      visits.map (·.scenario) <+: scenarios ∧
      ∀ reports, result.1 = .ok reports →
        visits.map (·.scenario) = scenarios ∧
          reports = done ++ visits.map (·.entry host bench) := by
  induction scenarios generalizing t known done s with
  | nil =>
    refine ⟨[], (.ok done, t), .pure _ s, List.prefix_refl _, fun reports h => ⟨rfl, ?_⟩⟩
    cases h
    simp
  | cons scenario rest ih =>
    have henter : Tours host bench (t.enter scenario.sectionName) s _ [] :=
      .quiet (t.enter_only (fun _ => rfl) scenario.sectionName) s
    set s₁ := ((t.enter scenario.sectionName).run host s).2
    generalize ((t.enter scenario.sectionName).run host s).1 = entered at henter
    obtain ⟨e | ⟨⟩, t₁⟩ := entered
    · exact ⟨[], (.error e, t₁), henter.bind (.pure _ _), List.nil_prefix, fun _ h => by cases h⟩
    have hlook : Tours host bench (lookUp known scenario.binary) s₁ _ [] :=
      .quiet (lookUp_only known scenario.binary) s₁
    set s₂ := ((lookUp known scenario.binary).run host s₁).2
    generalize ((lookUp known scenario.binary).run host s₁).1 = looked at hlook
    obtain ⟨available, known'⟩ := looked
    let v : Visit σ := ⟨scenario, available, s₂⟩
    have hprint : Tours host bench (printVerdicts t₁ (v.verdicts host bench))
        (v.finish host bench) _ [] :=
      .quiet (printVerdicts_only (fun _ => rfl) t₁ _) _
    set s₃ := ((printVerdicts t₁ (v.verdicts host bench)).run host (v.finish host bench)).2
    generalize ((printVerdicts t₁ (v.verdicts host bench)).run host (v.finish host bench)).1 =
      printed at hprint
    obtain ⟨e | ⟨⟩, t₂⟩ := printed
    · refine ⟨[v], (.error e, t₂), ?_, ⟨rest, rfl⟩, fun _ h => by cases h⟩
      exact henter.bind (hlook.bind ((Tours.visit v).bind (hprint.bind (.pure _ _))))
    · obtain ⟨visits, result, htours, hbegins, hreports⟩ :=
        ih t₂ known' (done ++ [v.entry host bench]) s₃
      refine ⟨v :: visits, result, ?_, (List.prefix_cons_inj _).mpr hbegins, fun reports h => ?_⟩
      · exact henter.bind (hlook.bind ((Tours.visit v).bind (hprint.bind htours)))
      · obtain ⟨hall, rfl⟩ := hreports reports h
        exact ⟨by rw [List.map_cons, hall], by rw [List.append_assoc]; rfl⟩

variable (host bench) in
theorem run_tours (suite : Suite) (t : Transcript) (s : σ) :
    ∃ visits outcome, Tours host bench (suite.run bench t) s outcome visits ∧
      visits.map (·.scenario) <+: suite.scenarios ∧
      ∀ report, outcome.result = .ok report →
        visits.map (·.scenario) = suite.scenarios ∧
          report.scenarios = visits.map (·.entry host bench) := by
  unfold run
  split
  · rename_i e _
    exact ⟨[], ⟨.error e, suite, t⟩, .pure _ s, List.nil_prefix, fun _ h => by cases h⟩
  have hbanner : Tours host bench (t.banner suite.title) s _ [] :=
    .quiet (t.banner_only (fun _ => rfl) suite.title) s
  set s₁ := ((t.banner suite.title).run host s).2
  generalize ((t.banner suite.title).run host s).1 = begun at hbanner
  obtain ⟨e | ⟨⟩, t₁⟩ := begun
  · exact ⟨[], ⟨.error (.transcript e), { suite with phase := .running }, t₁⟩,
      hbanner.bind (.pure _ _), List.nil_prefix, fun _ h => by cases h⟩
  obtain ⟨visits, ⟨ran, t₂⟩, htours, hbegins, hreports⟩ :=
    runScenarios_tours host bench t₁ [] [] suite.scenarios s₁
  set s₂ := ((runScenarios bench t₁ [] [] suite.scenarios).run host s₁).2
  have hnone : [] ++ (visits ++ []) = visits := List.append_nil visits
  rcases ran with e | reports
  · refine ⟨visits, ⟨.error (.transcript e), { suite with phase := .running }, t₂⟩, ?_, hbegins,
      fun _ h => by cases h⟩
    rw [← hnone]
    exact Tours.bind hbanner (Tours.bind htours (.pure _ _))
  have hresult : Tours host bench (t₂.suiteResult ⟨suite.title, reports⟩) s₂ _ [] :=
    .quiet (t₂.suiteResult_only (fun _ => rfl) _) s₂
  generalize ((t₂.suiteResult ⟨suite.title, reports⟩).run host s₂).1 = told at hresult
  obtain ⟨e | ⟨⟩, t₃⟩ := told
  · refine ⟨visits, ⟨.error (.transcript e), { suite with phase := .aggregated }, t₃⟩, ?_, hbegins,
      fun _ h => by cases h⟩
    rw [← hnone]
    exact Tours.bind hbanner (Tours.bind htours (Tours.bind hresult (.pure _ _)))
  · refine ⟨visits, ⟨.ok ⟨suite.title, reports⟩, { suite with phase := .reported }, t₃⟩, ?_,
      hbegins, fun report h => ?_⟩
    · rw [← hnone]
      exact Tours.bind hbanner (Tours.bind htours (Tours.bind hresult (.pure _ _)))
    · cases h
      exact hreports reports rfl

end Suite

end SmokeBench
