import SmokeBench.Proofs.FailingSink
import SmokeBench.Proofs.Visits

/-! The life of a suite under any calls, each run with an environment and a sink of its own. Only
a registered suite changes: a registration adds to its list and leaves it registered, and its one
run takes it to a phase that it never leaves. From then on every call is refused before it does
anything, so the rest of the calls is settled at once. -/

namespace SmokeBench

open Dialogue

def Phase.rank : Phase → Nat
  | registered => 0
  | running => 1
  | aggregated => 2
  | reported => 3

inductive Call (σ : Type)
  | register (scenario : Scenario)
  | run (bench : Bench) (transcript : Transcript) (host : Host σ) (start : σ)

/-- A call as a suite came to it. -/
structure Turn (σ : Type) where
  before : Suite
  call : Call σ

variable {σ : Type}

namespace Turn

variable (x : Turn σ)

def result : Except SuiteError (Option SuiteReport) :=
  match x.call with
  | .register scenario => (x.before.register scenario).map fun _ => none
  | .run bench t host start => ((x.before.run bench t).run host start).1.result.map some

def after : Suite :=
  match x.call with
  | .register scenario =>
    match x.before.register scenario with
    | .ok suite => suite
    | .error _ => x.before
  | .run bench t host start => ((x.before.run bench t).run host start).1.suite

def journal : List Exchange :=
  match x.call with
  | .register _ => []
  | .run bench t host start => (x.before.run bench t).journal host start

def passes : Bool :=
  match x.call with
  | .register _ => false
  | .run _ _ _ _ => x.before.phase == .registered

/-- These scenarios are executed in the call, in order. -/
def Executes (visits : List (Visit σ)) : Prop :=
  match x.call with
  | .register _ => visits = []
  | .run bench _ host start => Walk host bench start visits x.journal

end Turn

/-- What stays and what grows from an earlier to a later state of a suite. -/
structure Suite.Precedes (a b : Suite) : Prop where
  title : b.title = a.title
  phase : a.phase.rank ≤ b.phase.rank
  scenarios : a.scenarios <+: b.scenarios
  frozen : a.phase ≠ .registered → b.scenarios = a.scenarios

namespace Suite.Precedes

theorem refl (s : Suite) : s.Precedes s := ⟨rfl, Nat.le_refl _, List.prefix_refl _, fun _ => rfl⟩

theorem trans {a b c : Suite} (hab : a.Precedes b) (hbc : b.Precedes c) : a.Precedes c where
  title := hbc.title.trans hab.title
  phase := Nat.le_trans hab.phase hbc.phase
  scenarios := hab.scenarios.trans hbc.scenarios
  frozen h := by
    have hb : b.phase ≠ .registered := fun hregistered => by
      have hrank := hab.phase
      rw [hregistered] at hrank
      cases ha : a.phase with
      | registered => exact h ha
      | _ => rw [ha] at hrank; exact absurd hrank (by decide)
    exact (hbc.frozen hb).trans (hab.frozen h)

end Suite.Precedes

namespace Suite

/-- The calls of a history, each with the state it found. -/
def turns : Suite → List (Call σ) → List (Turn σ)
  | _, [] => []
  | s, c :: rest => ⟨s, c⟩ :: turns (Turn.after ⟨s, c⟩) rest

def afterCalls (s : Suite) (calls : List (Call σ)) : Suite :=
  calls.foldl (fun s c => Turn.after ⟨s, c⟩) s

variable {s : Suite}

theorem expectRegistered_ok (h : s.phase = .registered) : s.expectRegistered = .ok () := if_pos h

theorem expectRegistered_error (h : s.phase ≠ .registered) :
    s.expectRegistered = .error (.phase s.title s.phase .registered) := if_neg h

theorem register_ok (h : s.phase = .registered) (scenario : Scenario) :
    s.register scenario = .ok { s with scenarios := s.scenarios ++ [scenario] } := by
  rw [register, expectRegistered_ok h]

theorem register_error (h : s.phase ≠ .registered) (scenario : Scenario) :
    s.register scenario = .error (.phase s.title s.phase .registered) := by
  rw [register, expectRegistered_error h]

theorem run_refused (h : s.phase ≠ .registered) (bench : Bench) (t : Transcript) :
    s.run bench t = pure ⟨.error (.phase s.title s.phase .registered), s, t⟩ := by
  rw [run, expectRegistered_error h]

theorem run_leaves (h : s.phase = .registered) (bench : Bench) (t : Transcript) (host : Host σ)
    (st : σ) : ∃ phase, phase ≠ .registered ∧
      ((s.run bench t).run host st).1.suite = { s with phase := phase } ∧
      ∀ title found expected,
        ((s.run bench t).run host st).1.result ≠ .error (.phase title found expected) := by
  unfold run
  rw [expectRegistered_ok h]
  dsimp only
  rw [run_bind]
  split
  · exact ⟨.running, by simp, rfl, by simp⟩
  · rw [run_bind]
    split
    · exact ⟨.running, by simp, rfl, by simp⟩
    · rw [run_bind]
      split
      · exact ⟨.aggregated, by simp, rfl, by simp⟩
      · exact ⟨.reported, by simp, rfl, by simp⟩

end Suite

namespace Turn

variable {x : Turn σ}

/-- After it has started a suite refuses every call and stays as it is. -/
theorem refused (h : x.before.phase ≠ .registered) :
    x.result = .error (.phase x.before.title x.before.phase .registered) ∧ x.after = x.before ∧
      x.journal = [] ∧ x.passes = false := by
  obtain ⟨s, c⟩ := x
  cases c with
  | register scenario =>
    simp only [result, after, journal, passes, Suite.register_error h]
    exact ⟨rfl, trivial, trivial, trivial⟩
  | run bench t host st =>
    have hpasses : (s.phase == .registered) = false := beq_eq_false_iff_ne.mpr h
    simp only [result, after, journal, passes, Suite.run_refused h, hpasses]
    exact ⟨rfl, rfl, rfl, trivial⟩

theorem accepted_of_registered (h : x.before.phase = .registered) (title : String)
    (found expected : Phase) : x.result ≠ .error (.phase title found expected) := by
  obtain ⟨s, c⟩ := x
  cases c with
  | register scenario =>
    simp only [result, Suite.register_ok h]
    simp [Except.map]
  | run bench t host st =>
    obtain ⟨phase, -, -, hresult⟩ := Suite.run_leaves h bench t host st
    have hnot := hresult title found expected
    simp only [result]
    intro heq
    cases hr : ((s.run bench t).run host st).1.result with
    | error e =>
      rw [hr] at heq hnot
      exact hnot (congrArg Except.error (Except.error.inj heq))
    | ok report =>
      rw [hr] at heq
      cases heq

/-- A call that is not refused leaves the suite registered with one scenario more, or started. -/
theorem after_of_registered (h : x.before.phase = .registered) :
    (∃ scenario, x.call = .register scenario ∧ x.result = .ok none ∧
      x.after = { x.before with scenarios := x.before.scenarios ++ [scenario] }) ∨
    (x.passes = true ∧ ∃ phase, phase ≠ .registered ∧ x.after = { x.before with phase := phase }) := by
  obtain ⟨s, c⟩ := x
  cases c with
  | register scenario =>
    refine .inl ⟨scenario, rfl, ?_, ?_⟩
    · simp only [result, Suite.register_ok h]
      rfl
    · simp only [after, Suite.register_ok h]
  | run bench t host st =>
    obtain ⟨phase, hphase, hsuite, -⟩ := Suite.run_leaves h bench t host st
    exact .inr ⟨beq_iff_eq.mpr h, phase, hphase, hsuite⟩

theorem precedes (x : Turn σ) : x.before.Precedes x.after := by
  by_cases h : x.before.phase = .registered
  · rcases after_of_registered h with ⟨scenario, -, -, hafter⟩ | ⟨-, phase, -, hafter⟩
    · rw [hafter]
      exact ⟨rfl, Nat.le_refl _, List.prefix_append _ _, fun hnot => absurd h hnot⟩
    · rw [hafter]
      exact ⟨rfl, by rw [h]; exact Nat.zero_le _, List.prefix_refl _, fun _ => rfl⟩
  · rw [(refused h).2.1]
    exact .refl _

theorem registered_iff {scenario : Scenario} (hcall : x.call = .register scenario) :
    (∃ a, x.result = .ok a) ↔ x.before.phase = .registered := by
  constructor
  · rintro ⟨a, ha⟩
    by_contra h
    rw [(refused h).1] at ha
    cases ha
  · intro h
    rcases after_of_registered h with ⟨_, -, hresult, -⟩ | ⟨hpasses, -⟩
    · exact ⟨none, hresult⟩
    · rw [passes, hcall] at hpasses
      cases hpasses

theorem after_register {scenario : Scenario} (hcall : x.call = .register scenario)
    (h : x.before.phase = .registered) :
    x.after = { x.before with scenarios := x.before.scenarios ++ [scenario] } := by
  rcases after_of_registered h with ⟨_, hsame, -, hafter⟩ | ⟨hpasses, -⟩
  · rw [hcall] at hsame
    cases hsame
    exact hafter
  · rw [passes, hcall] at hpasses
    cases hpasses

theorem rejected_iff : (∃ title found expected, x.result = .error (.phase title found expected)) ↔
    x.before.phase ≠ .registered := by
  constructor
  · rintro ⟨title, found, expected, hresult⟩ h
    exact accepted_of_registered h title found expected hresult
  · intro h
    exact ⟨_, _, _, (refused h).1⟩

theorem started_of_passes (h : x.passes = true) : x.after.phase ≠ .registered := by
  have hregistered : x.before.phase = .registered := by
    by_contra hnot
    rw [(refused hnot).2.2.2] at h
    cases h
  rcases after_of_registered hregistered with ⟨scenario, hcall, -, -⟩ | ⟨-, phase, hphase, hafter⟩
  · rw [passes, hcall] at h
    cases h
  · rw [hafter]
    exact hphase

/-- Where a run that is not refused ends depends on the line that the sink refused. -/
theorem ended_of_passes (h : x.passes = true)
    (hjudges : ∀ scenario ∈ x.before.scenarios, scenario.Judges Request.Silent) :
    ∃ report : SuiteReport, report.title = x.before.title ∧
      List.Forall₂ (fun s r => ScenarioReport.Tells r s) x.before.scenarios report.scenarios ∧
      (x.after.phase = .reported ↔ ∃ a, x.result = .ok a) ∧
      (x.after.phase = .aggregated ↔
        ∃ e, Refused report.openingLines (Transcript.resultLines report) e (attempts x.journal)) ∧
      (x.after.phase = .running ↔
        ∃ e, Refused [] report.openingLines e (attempts x.journal)) := by
  obtain ⟨s, c⟩ := x
  cases c with
  | register scenario => cases h
  | run bench t host st =>
    obtain ⟨report, htitle, hmatch, hended⟩ :=
      Suite.run_ended host bench s t (beq_iff_eq.mp h) hjudges st
    refine ⟨report, htitle, hmatch, hended.reported_iff.trans ?_, hended.aggregated_iff,
      hended.running_iff⟩
    simp only [result]
    cases ((s.run bench t).run host st).1.result with
    | error e => exact iff_of_false (by simp) (by simp [Except.map])
    | ok r => exact iff_of_true ⟨r, rfl⟩ ⟨some r, rfl⟩

theorem executes_prefix (x : Turn σ) :
    ∃ visits, x.Executes visits ∧ (visits.map (·.scenario)) <+: x.before.scenarios := by
  obtain ⟨s, c⟩ := x
  cases c with
  | register scenario => exact ⟨[], rfl, List.nil_prefix⟩
  | run bench t host st =>
    obtain ⟨visits, outcome, htours, hprefix, -⟩ := s.run_tours host bench t st
    exact ⟨visits, htours.walk, hprefix⟩

end Turn

namespace Suite

variable {s : Suite}

theorem precedes_after (s : Suite) (calls : List (Call σ)) :
    ∀ x ∈ s.turns calls, s.Precedes x.after := by
  induction calls generalizing s with
  | nil =>
    intro x hx
    cases hx
  | cons c rest ih =>
    intro x hx
    rcases List.mem_cons.mp hx with rfl | hx
    · exact Turn.precedes ⟨s, c⟩
    · exact (Turn.precedes ⟨s, c⟩).trans (ih _ x hx)

theorem states_pairwise (s : Suite) (calls : List (Call σ)) :
    (s :: (s.turns calls).map Turn.after).Pairwise Precedes := by
  induction calls generalizing s with
  | nil => exact List.pairwise_singleton _ _
  | cons c rest ih =>
    refine List.pairwise_cons.mpr ⟨fun b hb => ?_, ih _⟩
    obtain ⟨x, hx, rfl⟩ := List.mem_map.mp hb
    exact s.precedes_after (c :: rest) x hx

theorem turns_refused (h : s.phase ≠ .registered) (calls : List (Call σ)) :
    (∀ x ∈ s.turns calls, x.before = s) ∧ s.afterCalls calls = s := by
  induction calls with
  | nil => exact ⟨fun x hx => (List.not_mem_nil hx).elim, rfl⟩
  | cons c rest ih =>
    have hafter : Turn.after ⟨s, c⟩ = s := (Turn.refused (x := ⟨s, c⟩) h).2.1
    refine ⟨fun x hx => ?_, ?_⟩
    · rw [turns, hafter] at hx
      rcases List.mem_cons.mp hx with rfl | hx
      · rfl
      · exact ih.1 x hx
    · rw [afterCalls, List.foldl_cons, hafter]
      exact ih.2

theorem executes_of_refused {x : Turn σ} (h : x.before.phase ≠ .registered) : x.Executes [] := by
  have hjournal := (Turn.refused h).2.2.1
  obtain ⟨s, c⟩ := x
  cases c with
  | register scenario => rfl
  | run bench t host st =>
    simp only [Turn.Executes, hjournal]
    exact .stop st

theorem passes_of_started (h : s.phase ≠ .registered) (calls : List (Call σ)) :
    (s.turns calls).countP Turn.passes = 0 := by
  refine List.countP_eq_zero.mpr fun x hx => ?_
  have hbefore := (turns_refused h calls).1 x hx
  rw [(Turn.refused (by rw [hbefore]; exact h)).2.2.2]
  exact Bool.false_ne_true

theorem passes_le_one (s : Suite) (calls : List (Call σ)) :
    (s.turns calls).countP Turn.passes ≤ 1 := by
  induction calls generalizing s with
  | nil => exact Nat.zero_le 1
  | cons c rest ih =>
    by_cases h : s.phase = .registered
    · rw [turns, List.countP_cons]
      rcases Turn.after_of_registered (x := ⟨s, c⟩) h with
        ⟨scenario, hcall, -, -⟩ | ⟨-, phase, hphase, hafter⟩
      · have hnot : Turn.passes ⟨s, c⟩ = false := by rw [Turn.passes, hcall]
        rw [hnot]
        exact ih _
      · rw [hafter, passes_of_started hphase]
        split <;> omega
    · rw [passes_of_started h]
      exact Nat.zero_le 1

/-- All that is ever executed is the list at the end, or a beginning of it, once and in order. -/
theorem executes_once (s : Suite) (calls : List (Call σ)) :
    ∃ visits : List (List (Visit σ)), List.Forall₂ Turn.Executes (s.turns calls) visits ∧
      (visits.flatten.map (·.scenario)) <+: (s.afterCalls calls).scenarios := by
  have hidle {s : Suite} (h : s.phase ≠ .registered) (calls : List (Call σ)) :
      List.Forall₂ Turn.Executes (s.turns calls) ((s.turns calls).map fun _ => []) := by
    refine List.forall₂_map_right_iff.mpr (List.forall₂_same.mpr fun x hx => ?_)
    refine executes_of_refused ?_
    rw [(turns_refused h calls).1 x hx]
    exact h
  have hnone (turns : List (Turn σ)) :
      (turns.map fun _ => ([] : List (Visit σ))).flatten = [] := by simp
  induction calls generalizing s with
  | nil => exact ⟨[], .nil, List.nil_prefix⟩
  | cons c rest ih =>
    by_cases h : s.phase = .registered
    · rcases Turn.after_of_registered (x := ⟨s, c⟩) h with
        ⟨scenario, hcall, -, -⟩ | ⟨-, phase, hphase, hafter⟩
      · obtain ⟨visits, hrest, hprefix⟩ := ih (Turn.after ⟨s, c⟩)
        refine ⟨[] :: visits, .cons ?_ hrest, hprefix⟩
        rw [Turn.Executes, hcall]
      · obtain ⟨visits, hfirst, hprefix⟩ := Turn.executes_prefix ⟨s, c⟩
        have hstarted : (Turn.after ⟨s, c⟩).phase ≠ .registered := by rw [hafter]; exact hphase
        refine ⟨visits :: _, .cons hfirst (hidle hstarted rest), ?_⟩
        rw [List.flatten_cons, hnone, List.append_nil, afterCalls, List.foldl_cons]
        rw [show List.foldl _ _ rest = _ from (turns_refused hstarted rest).2, hafter]
        exact hprefix
    · refine ⟨_, hidle h (c :: rest), ?_⟩
      rw [hnone]
      exact List.nil_prefix

/-- Under any calls a suite goes through its phases in order and runs once. A refused call does
nothing and tells the phase; a run that is not refused ends in the phase of the block where the sink
refused a line, or is reported. -/
theorem lives_once (s : Suite) (calls : List (Call σ)) :
    (s :: (s.turns calls).map Turn.after).Pairwise Precedes ∧
    (s.turns calls).countP Turn.passes ≤ 1 ∧
    (∃ visits : List (List (Visit σ)), List.Forall₂ Turn.Executes (s.turns calls) visits ∧
      (visits.flatten.map (·.scenario)) <+: (s.afterCalls calls).scenarios) ∧
    ∀ x ∈ s.turns calls,
      (∀ scenario, x.call = .register scenario →
        ((∃ a, x.result = .ok a) ↔ x.before.phase = .registered) ∧
        (x.before.phase = .registered →
          x.after = { x.before with scenarios := x.before.scenarios ++ [scenario] })) ∧
      ((∃ title found expected, x.result = .error (.phase title found expected)) ↔
        x.before.phase ≠ .registered) ∧
      (x.before.phase ≠ .registered →
        x.result = .error (.phase x.before.title x.before.phase .registered) ∧
        x.after = x.before ∧ x.journal = []) ∧
      (x.passes = true → x.after.phase ≠ .registered ∧
        ((∀ scenario ∈ x.before.scenarios, scenario.Judges Request.Silent) →
          ∃ report : SuiteReport, report.title = x.before.title ∧
            List.Forall₂ (fun s r => ScenarioReport.Tells r s) x.before.scenarios
              report.scenarios ∧
            (x.after.phase = .reported ↔ ∃ a, x.result = .ok a) ∧
            (x.after.phase = .aggregated ↔
              ∃ e, Refused report.openingLines (Transcript.resultLines report) e
                (attempts x.journal)) ∧
            (x.after.phase = .running ↔
              ∃ e, Refused [] report.openingLines e (attempts x.journal)))) := by
  refine ⟨s.states_pairwise calls, s.passes_le_one calls, s.executes_once calls, fun x _ => ?_⟩
  refine ⟨fun scenario hcall => ⟨Turn.registered_iff hcall, Turn.after_register hcall⟩,
    Turn.rejected_iff, fun h => ?_, fun h => ⟨Turn.started_of_passes h, Turn.ended_of_passes h⟩⟩
  obtain ⟨hresult, hafter, hjournal, -⟩ := Turn.refused h
  exact ⟨hresult, hafter, hjournal⟩

end Suite

/-- A host whose sink has room for some lines. -/
def Host.roomFor (lines : Nat) : Host Nat where
  answer r taken := match r with
    | .print _ => if taken < lines then (.ok (), taken + 1) else (.error .noSpace, taken)
    | r => Host.still.answer r taken

namespace Suite

/-- A suite with one scenario whose run finds no room for its result, and then a late call. -/
def crowded : Suite where
  title := "Crowded"
  scenarios := [.locate "Presence" ⟨"tool", .ofString "/bin"⟩]
  phase := .registered

def crowdedCalls : List (Call Nat) :=
  [.register (.locate "Presence" ⟨"tool", .ofString "/bin"⟩), .run .standard .start (.roomFor 7) 0,
    .register (.locate "Presence" ⟨"late", .ofString "/bin"⟩)]

def crowdedRun : Turn Nat := ⟨crowded, .run .standard .start (.roomFor 7) 0⟩

theorem crowded_judges : ∀ s ∈ crowded.scenarios, s.Judges Request.Silent := by
  intro s hs mode evaluate haction e
  obtain rfl := List.mem_singleton.mp hs
  cases haction

theorem lives_once_crowded :
    crowdedRun ∈ (empty "Crowded").turns crowdedCalls ∧ crowdedRun.passes = true ∧
    crowdedRun.after.phase = .aggregated ∧
    (∀ s ∈ crowdedRun.before.scenarios, s.Judges Request.Silent) ∧
    (∃ report : SuiteReport, ∃ e,
      Refused report.openingLines (Transcript.resultLines report) e (attempts crowdedRun.journal)) ∧
    ((empty "Crowded").turns crowdedCalls).countP Turn.passes ≤ 1 := by
  have hmem : crowdedRun ∈ (empty "Crowded").turns crowdedCalls := .tail _ (.head _)
  have hphase : crowdedRun.after.phase = .aggregated := by rfl
  obtain ⟨-, honce, -, hturns⟩ := lives_once (empty "Crowded") crowdedCalls
  obtain ⟨-, -, -, hpasses⟩ := hturns crowdedRun hmem
  obtain ⟨report, -, -, -, haggregated, -⟩ := (hpasses rfl).2 crowded_judges
  exact ⟨hmem, rfl, hphase, crowded_judges, ⟨report, haggregated.mp hphase⟩, honce⟩

end Suite

end SmokeBench
