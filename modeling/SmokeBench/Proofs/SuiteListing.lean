import Mathlib.Data.List.Nodup
import SmokeBench.Proofs.ExitStatus

/-! What is listed and what is run. The list chooses suites for itself and builds each of them when it
comes to it; a run has them chosen and built before it starts. Both go through the canonical order and ask
of the selection only what is in it, and no suite fails to be built. So the list names the suites and the
scenarios that a run goes through, in their order. -/

namespace SmokeBench

open Dialogue

namespace Catalog

theorem selectedKinds_congr {a b : List SuiteKind} (h : ∀ k, k ∈ a ↔ k ∈ b) :
    selectedKinds a = selectedKinds b := by
  have hnil : a = [] ↔ b = [] := by
    simp only [List.eq_nil_iff_forall_not_mem, h]
  refine List.filter_congr fun k _ => ?_
  rw [Bool.eq_iff_iff]
  simp [hnil, h k]

end Catalog

theorem SuiteKind.title_injective : Function.Injective SuiteKind.title := by
  intro k k'
  cases k <;> cases k' <;> decide

namespace Program

/-- What is to be read about a suite: its key, in a column of ten, and its title, and under them the
section and the name of each scenario. -/
def outline (kind : SuiteKind) (suite : Suite) : List String :=
  (kind.key ++ String.ofList (List.replicate (10 - kind.key.length) ' ') ++ suite.title) ::
    suite.scenarios.map fun x => "  " ++ x.sectionName ++ ": " ++ x.name

/-- An action asks for nothing but that these lines are printed, each with its line feed, one after the
other as far as they are taken. It succeeds if all were taken. -/
structure PrintsOut {σ : Type} (host : Host σ) (st : σ) (x : Action Nat) (lines : List String) :
    Prop where
  only : ∀ y ∈ x.run.journal host st, ∃ text, y.request = .print text
  told : ((x.run.run host st).1 = .ok 0 ∧ attempts (x.run.journal host st) = accepted lines) ∨
    ∃ e, (x.run.run host st).1 = .error (failedOutput e) ∧
      Refused [] lines e (attempts (x.run.journal host st))

/-- An action executes these scenarios one after the other, as far as it comes, and all of them if it
comes to its end. Before and after them it starts nothing. -/
structure GoesThrough {σ : Type} (host : Host σ) (bench : Bench) (st : σ) (x : Action Nat)
    (scenarios : List Scenario) (visits : List (Visit σ)) : Prop where
  walks : ∃ before during later, x.run.journal host st = before ++ during ++ later ∧
    Walk host bench (after host st before) visits during ∧
    ∀ y ∈ before ++ later, y.request.spawns = false
  begins : visits.map (·.scenario) <+: scenarios
  all : ∀ status, (x.run.run host st).1 = .ok status → visits.map (·.scenario) = scenarios

/-- What is listed and what is run for the suites that were asked for. -/
structure InStep (i : Invocation) (s : Settings) (kinds : List SuiteKind) (suites : List Suite) :
    Prop where
  chosen : ∀ k, k ∈ kinds ↔ i.suites = [] ∨ k ∈ i.suites
  canonical : kinds.Sublist SuiteKind.all
  once : (suites.map (·.title)).Nodup
  built : Catalog.buildSelected i.suites s = .ok suites
  titled : suites.map (·.title) = kinds.map SuiteKind.title
  listed : ∀ {σ : Type} (host : Host σ) (st : σ),
    PrintsOut host st (list i s) ((kinds.zip suites).flatMap fun x => outline x.1 x.2)
  runs : ∀ {σ : Type} (host : Host σ) (st : σ),
    ∃ visits, GoesThrough host s.bench st (runSuites i s) (suites.flatMap (·.scenarios)) visits

section Running

variable {σ : Type} (host : Host σ) (i : Invocation) (s : Settings) (st : σ)

theorem conclude_spawns (started : Nat) (reports : List SuiteReport) (t : Transcript) (st : σ) :
    ∀ y ∈ (conclude s started reports t).run.journal host st, y.request.spawns = false := by
  have hasks : (conclude s started reports t).run.Only fun r => r.spawns = false := by
    refine (conclude_asks s started reports t).mono fun r h => ?_
    rcases h with hannounces | hdigs | rfl | ⟨summary, dir, -, rfl | rfl⟩
    · cases r <;> first | rfl | cases hannounces
    · cases r <;> first | rfl | cases hdigs
    · rfl
    · rfl
    · rfl
  exact hasks.journal st

theorem runSuites_goesThrough : ∃ visits, GoesThrough host s.bench st (runSuites i s)
    ((suitesFor i s).flatMap (·.scenarios)) visits := by
  have hcalendar : ∀ y ∈ (ask .calendar).journal host st, y.request.spawns = false :=
    List.forall_mem_singleton.mpr rfl
  obtain ⟨visits, os, htours, hbegins, hwhole⟩ :=
    Suite.runEach_tours host s.bench .start (suitesFor i s) (host.answer .calendar st).2
  refine ⟨visits, ?_⟩
  rcases runSuites_cases host i s st with
    ⟨-, message, hyields⟩ | ⟨hreported, -, -, started, t, st', hyields⟩
  · refine ⟨⟨(ask .calendar).journal host st, _, [], ?_, htours.walk, ?_⟩, hbegins, ?_⟩
    · rw [hyields.journal, List.append_nil]
      rfl
    · rwa [List.append_nil]
    · intro status hstatus
      rw [hyields.result] at hstatus
      cases hstatus
  · refine ⟨⟨(ask .calendar).journal host st, _, _, hyields.journal, htours.walk, ?_⟩, hbegins, ?_⟩
    · exact List.forall_mem_append.mpr ⟨hcalendar, conclude_spawns host s started _ t st'⟩
    · intro status _
      cases Suite.runEach_sequel host s.bench .start (suitesFor_ready i s)
        (host.answer .calendar st).2 with
      | stopped hall herror => exact absurd hreported hall
      | reported hall htold hresults haccepted =>
        rw [htours.result] at hresults
        exact hwhole hresults

end Running

section Listing

variable (i : Invocation) (s : Settings)

theorem suitesFor_titles : (suitesFor i s).map (·.title) =
    (Catalog.selectedKinds i.suites).map SuiteKind.title := List.map_map

theorem suitesFor_once : ((suitesFor i s).map (·.title)).Nodup := by
  have hall : SuiteKind.all.Nodup := by decide
  rw [suitesFor_titles]
  exact List.Nodup.map SuiteKind.title_injective (hall.sublist List.filter_sublist)

theorem outline_eq (kind : SuiteKind) :
    suiteListing kind (Catalog.suite s kind) = outline kind (Catalog.suite s kind) := by
  cases kind <;> rfl

theorem printLines_printsOut {σ : Type} (host : Host σ) (st : σ) (lines : List String) :
    PrintsOut host st (printLines lines >>= fun _ => pure 0) lines := by
  have hrun : (printLines lines >>= fun _ => (pure 0 : Action Nat)).run =
      (fun r => (r.mapError failedOutput).map fun _ => 0) <$> Transcript.printLines lines := by
    rw [ExceptT.run_bind, printLines_run, bind_map_left, ← bind_pure_comp]
    refine bind_congr fun r => ?_
    cases r <;> rfl
  constructor
  · rw [hrun, journal_map]
    exact (Transcript.printLines_only (P := fun r => ∃ text, r = .print text) (fun _ => ⟨_, rfl⟩)
      lines).journal st
  · have htried : Tried lines (attempts ((Transcript.printLines lines).journal host st))
        ((Transcript.printLines lines).run host st).1 := Transcript.printLines_tried lines st
    rw [hrun, run_map, journal_map]
    cases hreply : ((Transcript.printLines lines).run host st).1 with
    | ok u =>
      rw [hreply] at htried
      exact .inl ⟨rfl, htried⟩
    | error e =>
      rw [hreply] at htried
      exact .inr ⟨e, rfl, htried⟩

theorem list_printsOut {σ : Type} (host : Host σ) (st : σ) :
    PrintsOut host st (list i s) (((Catalog.selectedKinds i.suites).zip
      (suitesFor i s)).flatMap fun x => outline x.1 x.2) := by
  have hzip : (Catalog.selectedKinds i.suites).zip (suitesFor i s) =
      (Catalog.selectedKinds i.suites).map fun k => (k, Catalog.suite s k) := by
    have hmaps := List.zip_map' (f := id) (g := Catalog.suite s) (l := Catalog.selectedKinds i.suites)
    rwa [List.map_id] at hmaps
  have hlines : ((Catalog.selectedKinds i.suites).flatMap fun kind =>
      suiteListing kind (Catalog.suite s kind)) =
        ((Catalog.selectedKinds i.suites).map fun k => (k, Catalog.suite s k)).flatMap fun x =>
          outline x.1 x.2 := by
    rw [List.flatMap_map]
    exact List.flatMap_congr fun kind _ => outline_eq s kind
  rw [list_eq, hzip, hlines]
  exact printLines_printsOut host st _

end Listing

/-- The list is the outline of the suites that a run builds, and their scenarios are what the run goes
through. Both depend on the suites that are in the selection and on nothing else of it. -/
theorem list_in_step_with_run (i : Invocation) (s : Settings) :
    (∃ kinds suites, InStep i s kinds suites) ∧
    ∀ selected, (∀ k, k ∈ selected ↔ k ∈ i.suites) →
      list { i with suites := selected } s = list i s ∧
        Catalog.buildSelected selected s = Catalog.buildSelected i.suites s ∧
        runSuites { i with suites := selected } s = runSuites i s := by
  constructor
  · exact ⟨Catalog.selectedKinds i.suites, suitesFor i s, {
      chosen k := Catalog.mem_selectedKinds
      canonical := List.filter_sublist
      once := suitesFor_once i s
      built := Catalog.buildSelected_eq _ _
      titled := suitesFor_titles i s
      listed host st := list_printsOut i s host st
      runs host st := runSuites_goesThrough host i s st }⟩
  · intro selected hsame
    have hkinds : Catalog.selectedKinds selected = Catalog.selectedKinds i.suites :=
      Catalog.selectedKinds_congr hsame
    have hbuilt : Catalog.buildSelected selected s = Catalog.buildSelected i.suites s := by
      rw [Catalog.buildSelected, Catalog.buildSelected, hkinds]
    refine ⟨?_, hbuilt, ?_⟩
    · rw [list_eq, list_eq, hkinds]
    · rw [runSuites, runSuites, suitesOf, suitesOf, hbuilt]

/-- Two suites, one of them named twice, in another order than they are listed and run in. -/
theorem list_in_step_with_run_repeated :
    let i : Invocation := ⟨false, true, ⟨none, none, none, none⟩, [.binaries, .datadir]⟩
    let selected : List SuiteKind := [.datadir, .binaries, .datadir]
    (∀ k, k ∈ selected ↔ k ∈ i.suites) ∧
    list { i with suites := selected } bareSettings = list i bareSettings ∧
    ∃ suites, Catalog.buildSelected selected bareSettings = .ok suites ∧
      suites.map (·.title) =
        ["Binary Existence and Basic Response", "Data Directory and File Creation"] := by
  intro i selected
  have hsame (k : SuiteKind) : k ∈ selected ↔ k ∈ i.suites := by
    cases k <;> decide
  obtain ⟨⟨kinds, suites, hstep⟩, hset⟩ := list_in_step_with_run i bareSettings
  obtain ⟨hlist, hbuilt, -⟩ := hset selected hsame
  have hsuites : suites = suitesFor i bareSettings :=
    Except.ok.inj (hstep.built.symm.trans (Catalog.buildSelected_eq _ _))
  refine ⟨hsame, hlist, suites, hbuilt.trans hstep.built, ?_⟩
  rw [hsuites]
  rfl

end Program

end SmokeBench
