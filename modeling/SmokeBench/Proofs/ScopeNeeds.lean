import SmokeBench.Proofs.Places
import SmokeBench.Proofs.TextSearch

/-! When a scenario needs a scope. The flag is set by the constructors and by whatever adds a setup
step or a watched path, and it says exactly that one of the three mentions a scope. So the branches
for a scenario without a scope, which prepare, watch and replace nothing, leave nothing out. -/

namespace SmokeBench.Scenario

open Dialogue

variable {s : Scenario}

/-- Made by a constructor with these arguments, with these setup steps and watched paths added one after
the other. -/
inductive Built : List String → List SetupStep → List Path → Scenario → Prop
  | locate (sectionName : String) (binary : Binary) : Built [] [] [] (.locate sectionName binary)
  | bounded (sectionName name : String) (binary : Binary) (args : List String)
      (timeout : Duration) (evaluate : Evaluator) :
      Built args [] [] (.bounded sectionName name binary args timeout evaluate)
  | supervised (sectionName name : String) (binary : Binary) (args : List String)
      (window grace : Duration) (evaluate : Evaluator) :
      Built args [] [] (.supervised sectionName name binary args window grace evaluate)
  | withSetup {args : List String} {steps : List SetupStep} {paths : List Path} {s : Scenario}
      (h : Built args steps paths s) (step : SetupStep) :
      Built args (steps ++ [step]) paths (s.withSetup step)
  | watching {args : List String} {steps : List SetupStep} {paths : List Path} {s : Scenario}
      (h : Built args steps paths s) (relative : Path) :
      Built args steps (paths ++ [relative]) (s.watching relative)

def HoldsToken (s : Scenario) : Prop := ∃ a ∈ s.args, scopeToken.toList <:+: a.toList

def MentionsScope (s : Scenario) : Prop := s.HoldsToken ∨ s.setup ≠ [] ∨ s.watch ≠ []

theorem build_needsScope (sectionName name : String) (binary : Binary) (action : Action)
    (args : List String) (timeout : Duration) :
    (build sectionName name binary action args timeout).needsScope ↔
      (build sectionName name binary action args timeout).MentionsScope := by
  simp [build, MentionsScope, HoldsToken, Text.contains_iff]

section Building

variable {args : List String} {steps : List SetupStep} {paths : List Path}

theorem Built.needsScope_iff (h : Built args steps paths s) : s.needsScope ↔ s.MentionsScope := by
  induction h with
  | locate sectionName binary => exact build_needsScope _ _ _ _ _ _
  | bounded sectionName name binary args timeout evaluate => exact build_needsScope _ _ _ _ _ _
  | supervised sectionName name binary args window grace evaluate =>
    exact build_needsScope _ _ _ _ _ _
  | withSetup h step ih => simp [Scenario.withSetup, MentionsScope]
  | watching h relative ih => simp [Scenario.watching, MentionsScope]

theorem Built.holds (h : Built args steps paths s) :
    s.args = args ∧ s.setup = steps ∧ s.watch = paths := by
  induction h with
  | locate sectionName binary => exact ⟨rfl, rfl, rfl⟩
  | bounded sectionName name binary args timeout evaluate => exact ⟨rfl, rfl, rfl⟩
  | supervised sectionName name binary args window grace evaluate => exact ⟨rfl, rfl, rfl⟩
  | withSetup h step ih =>
    obtain ⟨hargs, hsetup, hwatch⟩ := ih
    exact ⟨hargs, congrArg (· ++ [step]) hsetup, hwatch⟩
  | watching h relative ih =>
    obtain ⟨hargs, hsetup, hwatch⟩ := ih
    exact ⟨hargs, hsetup, congrArg (· ++ [relative]) hwatch⟩

end Building

/-- A scenario is driven without a scope, and that loses nothing: there is no step to perform and no
path to watch, and the subject is started once, with the arguments as they stand. With any scope
the same would be done. -/
structure LosesNothing (s : Scenario) (bench : Bench) (mode : RunMode) (evaluate : Evaluator) :
    Prop where
  driven : s.driveIsolated bench mode evaluate = s.drive bench none mode evaluate
  setup : s.setup = []
  watch : s.watch = []
  args : ∀ a ∈ s.args, ¬ scopeToken.toList <:+: a.toList
  starts : ∀ {σ : Type} (host : Host σ) (st : σ),
    started ((s.subjectRun bench none mode).journal host st) = [(s.binary.path, s.args)]
  prepared : ∀ scope, prepare scope s.setup = pure (.ok ())
  served : ∀ scope, s.subjectRun bench (some scope) mode = s.subjectRun bench none mode

theorem renderArgs_of_not_holdsToken (h : ¬ s.HoldsToken) (root : Option Path) :
    s.renderArgs root = s.args := by
  cases root with
  | none => rfl
  | some root =>
    have hsame (a : String) (ha : a ∈ s.args) :
        Text.replaceToken scopeToken root.display a = a := by
      apply Text.replaceToken_of_not_contains
      rw [Text.contains_iff]
      intro hinfix
      exact h ⟨a, ha, hinfix⟩
    exact (List.map_congr_left hsame).trans (List.map_id _)

theorem losesNothing (h : ¬ s.MentionsScope) (hneeds : ¬ s.needsScope) (bench : Bench)
    (mode : RunMode) (evaluate : Evaluator) : s.LosesNothing bench mode evaluate := by
  obtain ⟨htoken, hsetup, hwatch⟩ : ¬ s.HoldsToken ∧ s.setup = [] ∧ s.watch = [] := by
    simpa [MentionsScope] using h
  refine ⟨if_neg hneeds, hsetup, hwatch, ?_, ?_, ?_, ?_⟩
  · intro a ha hinfix
    exact htoken ⟨a, ha, hinfix⟩
  · intro σ host st
    exact s.subjectRun_starts bench none mode (by simp) host st
  · intro scope
    rw [hsetup]
    rfl
  · intro scope
    unfold subjectRun
    rw [renderArgs_of_not_holdsToken htoken, renderArgs_of_not_holdsToken htoken]
    cases mode with
    | bounded => rfl
    | supervised grace =>
      dsimp only
      rw [s.supervise_some bench grace (by simp [hwatch]), s.supervise_none, hwatch]
      rfl

/-- A scenario holds the arguments, steps and paths that were handed over, in their order. It needs a
scope exactly if one of them mentions one, and one that needs none is driven without a scope and loses
nothing by it. -/
theorem Built.needs_what_it_mentions {args : List String} {steps : List SetupStep}
    {paths : List Path} (h : Built args steps paths s) :
    (s.args = args ∧ s.setup = steps ∧ s.watch = paths) ∧
    (s.needsScope ↔ (∃ a ∈ s.args, scopeToken.toList <:+: a.toList) ∨ s.setup ≠ [] ∨ s.watch ≠ []) ∧
    (¬ s.needsScope → ∀ bench mode evaluate, s.LosesNothing bench mode evaluate) := by
  have hmentions := h.needsScope_iff
  refine ⟨h.holds, hmentions, ?_⟩
  intro hneeds bench mode evaluate
  exact losesNothing (mt hmentions.mpr hneeds) hneeds bench mode evaluate

/-- A check that needs a scope only for the paths that it watches, and one that needs none. -/
theorem needs_what_it_mentions_watch :
    let plain : Scenario := .supervised "Run" "run" ⟨"daemon", .ofString "/bin"⟩ ["-server=0"] .zero
      .zero fun _ => pure (.ok [])
    let watching := (plain.watching (.ofString "lock")).watching (.ofString "pid")
    watching.watch = [.ofString "lock", .ofString "pid"] ∧ watching.needsScope ∧
      ¬ plain.needsScope ∧ plain.LosesNothing .standard .bounded fun _ => pure (.ok []) := by
  intro plain watching
  have hplain : Built ["-server=0"] [] [] plain := .supervised _ _ _ _ _ _ _
  have hwatching : Built ["-server=0"] [] [.ofString "lock", .ofString "pid"] watching :=
    (hplain.watching (.ofString "lock")).watching (.ofString "pid")
  obtain ⟨⟨-, -, hpaths⟩, hneeds, -⟩ := hwatching.needs_what_it_mentions
  obtain ⟨-, -, hnothing⟩ := hplain.needs_what_it_mentions
  have hfree : ¬ plain.needsScope := by decide
  exact ⟨hpaths, hneeds.mpr (.inr (.inr (List.cons_ne_nil _ _))), hfree, hnothing hfree _ _ _⟩

end SmokeBench.Scenario
