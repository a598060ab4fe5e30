import SmokeBench.Program
import SmokeBench.Proofs.PositiveTimes
import SmokeBench.Proofs.SuiteSequence

/-! The steps of the program as dialogues. A failure ends an action, so an action is a dialogue that
goes on only after a result; here each step of the program is given as such a dialogue, down to the
suites in a row, the lines about all of them and the summary. -/

namespace SmokeBench

open Dialogue

namespace Catalog

def suite (settings : Settings) (k : SuiteKind) : Suite :=
  ⟨k.title, k.scenarios settings, .registered⟩

theorem mem_selectedKinds {selected : List SuiteKind} {k : SuiteKind} :
    k ∈ selectedKinds selected ↔ selected = [] ∨ k ∈ selected := by
  have hall : k ∈ SuiteKind.all := by cases k <;> decide
  simp [selectedKinds, hall]

end Catalog

namespace Transcript

/-- What is left to be written is not tried once a line is refused. -/
theorem printLines_append (a b : List String) : printLines (a ++ b) = (do
    match ← printLines a with
    | .ok () => printLines b
    | .error e => return .error e) := by
  induction a with
  | nil => rfl
  | cons line rest ih =>
    rw [List.cons_append, printLines, printLines, LawfulMonad.bind_assoc]
    refine bind_congr fun reply => ?_
    cases reply with
    | ok u => exact ih
    | error e => rfl

end Transcript

namespace Program

section Actions

variable {α β : Type}

theorem run_lift_bind (d : Dialogue α) (f : α → Action β) :
    (liftM d >>= f : Action β).run = d >>= fun a => (f a).run := ExceptT.run_bind_lift d f

theorem orFail_run {ε : Type} (d : Dialogue (Except ε α)) (failure : ε → Failure) :
    (orFail d failure).run = (fun r => r.mapError failure) <$> d := by
  unfold orFail
  rw [run_lift_bind, ← bind_pure_comp]
  apply bind_congr
  intro r
  cases r <;> rfl

theorem printLines_run (lines : List String) :
    (printLines lines).run = (fun r => r.mapError failedOutput) <$> Transcript.printLines lines := by
  unfold printLines
  rw [run_lift_bind, ← bind_pure_comp]
  apply bind_congr
  intro r
  cases r <;> rfl

theorem printLines_append (a b : List String) :
    printLines (a ++ b) = printLines a >>= fun _ => printLines b := by
  apply ExceptT.ext
  rw [printLines_run, Transcript.printLines_append, ExceptT.run_bind, printLines_run, map_bind,
    bind_map_left]
  apply bind_congr
  intro r
  cases r with
  | error e => rfl
  | ok u => exact (printLines_run b).symm

theorem forIn_printLines (xs : List α) (lines : α → List String) (u : PUnit) :
    (forIn xs u fun x _ => do
      printLines (lines x)
      Pure.pure (.yield u) : Action PUnit) = printLines (xs.flatMap lines) := by
  induction xs with
  | nil => rfl
  | cons x rest ih =>
    rw [List.forIn_cons, List.flatMap_cons, printLines_append, LawfulMonad.bind_assoc]
    refine bind_congr fun _ => ?_
    rw [pure_bind]
    exact ih

/-- An action that prints and does nothing else, and that fails with status one, if at all. -/
structure Prints (x : Action α) : Prop where
  only : x.run.Only (Request.announces ·)
  status : ∀ {σ : Type} (host : Host σ) (st : σ) (f : Failure),
    (x.run.run host st).1 = .error f → f.status = 1

namespace Prints

theorem pure (a : α) : Prints (Pure.pure a) where
  only := only_pure _
  status _ _ _ h := nomatch h

theorem bind {x : Action α} {f : α → Action β} (hx : Prints x) (hf : ∀ a, Prints (f a)) :
    Prints (x >>= f) where
  only := by
    rw [ExceptT.run_bind]
    refine hx.only.bind fun r => ?_
    cases r with
    | error e => exact only_pure _
    | ok a => exact (hf a).only
  status host st failure h := by
    rw [ExceptT.run_bind, run_bind] at h
    cases hr : (x.run.run host st).1 with
    | error e =>
      rw [hr] at h
      obtain rfl := Except.error.inj h
      exact hx.status host st e hr
    | ok a =>
      rw [hr] at h
      exact (hf a).status host _ failure h

end Prints

theorem printLines_prints (lines : List String) : Prints (printLines lines) where
  only := by
    rw [printLines_run]
    exact (Transcript.printLines_only (fun _ => rfl) lines).map _
  status host st f h := by
    rw [printLines_run, run_map] at h
    cases hr : ((Transcript.printLines lines).run host st).1 with
    | error e =>
      rw [hr] at h
      rw [← Except.error.inj h]
      rfl
    | ok u =>
      rw [hr] at h
      cases h

theorem discard_orFail_run {ε : Type} (d : Dialogue (Except ε α)) (failure : ε → Failure) :
    (discard (orFail d failure)).run = (fun r => (r.map fun _ => ()).mapError failure) <$> d := by
  unfold Functor.discard
  rw [map_const, Function.comp_apply, ExceptT.run_map, orFail_run, Functor.map_map]
  congr 1
  funext r
  cases r <;> rfl

def statusOf : Except Failure Nat → Nat
  | .ok status => status
  | .error f => f.status

theorem Prints.status_le {x : Action α} (h : Prints x) {σ : Type} (host : Host σ) (st : σ) :
    statusOf ((x >>= fun _ => (Pure.pure 0 : Action Nat)).run.run host st).1 ≤ 1 := by
  rw [ExceptT.run_bind, run_bind]
  cases hr : (x.run.run host st).1 with
  | ok a => exact Nat.zero_le 1
  | error f => exact Nat.le_of_eq (h.status host st f hr)

end Actions

def suitesFor (i : Invocation) (s : Settings) : List Suite :=
  (Catalog.selectedKinds i.suites).map (Catalog.suite s)

theorem suitesOf_eq (i : Invocation) (s : Settings) : suitesOf i s = pure (suitesFor i s) := by
  rw [suitesOf, Catalog.buildSelected_eq]
  rfl

theorem list_eq (i : Invocation) (s : Settings) :
    list i s = printLines ((Catalog.selectedKinds i.suites).flatMap fun kind =>
      suiteListing kind (Catalog.suite s kind)) >>= fun _ => Pure.pure 0 := by
  have hbuild (kind : SuiteKind) :
      orFail (Pure.pure (Catalog.build kind s)) (fun e => badSettings e.message) =
        (Pure.pure (Catalog.suite s kind) : Action Suite) := by
    rw [Catalog.build_eq]
    rfl
  unfold list
  simp only [hbuild, pure_bind]
  rw [forIn_printLines]
  rfl

/-- All reports with the transcript after the last suite, or the first error. -/
def concluded (done : List SuiteReport) (t : Transcript) :
    List Suite.Outcome → Except SuiteError (List SuiteReport × Transcript)
  | [] => .ok (done, t)
  | o :: rest =>
    match o.result with
    | .ok report => concluded (done ++ [report]) o.transcript rest
    | .error e => .error e

theorem runAll_run (bench : Bench) (t : Transcript) (done : List SuiteReport) (suites : List Suite) :
    (runAll bench t done suites).run =
      (fun os => (concluded done t os).mapError fun e => failedRun e.message) <$>
        Suite.runEach bench t suites := by
  induction suites generalizing t done with
  | nil => rfl
  | cons suite rest ih =>
    unfold runAll Suite.runEach
    rw [run_lift_bind, map_bind]
    apply bind_congr
    intro o
    cases hresult : o.result with
    | error e =>
      rw [map_pure, concluded, hresult]
      rfl
    | ok report =>
      dsimp only
      rw [ih, Functor.map_map]
      simp only [concluded, hresult]

theorem concluded_ok {os : List Suite.Outcome} (h : ∀ o ∈ os, ∃ r, o.result = .ok r)
    (done : List SuiteReport) (t : Transcript) :
    ∃ t', concluded done t os = .ok (done ++ Suite.reports os, t') := by
  induction os generalizing done t with
  | nil => exact ⟨t, by rw [Suite.reports, List.filterMap_nil, List.append_nil]; rfl⟩
  | cons o rest ih =>
    obtain ⟨⟨report, hresult⟩, hrest⟩ := List.forall_mem_cons.mp h
    obtain ⟨t', hconcluded⟩ := ih hrest (done ++ [report]) o.transcript
    refine ⟨t', ?_⟩
    unfold concluded
    rw [hresult, Suite.reports, List.filterMap_cons, hresult]
    rw [List.append_assoc] at hconcluded
    exact hconcluded

theorem concluded_error {os : List Suite.Outcome} (h : ∃ o ∈ os, ∃ e, o.result = .error e)
    (done : List SuiteReport) (t : Transcript) : ∃ e, concluded done t os = .error e := by
  induction os generalizing done t with
  | nil => simp at h
  | cons o rest ih =>
    unfold concluded
    cases hresult : o.result with
    | error e => exact ⟨e, rfl⟩
    | ok report =>
      refine ih ?_ _ _
      obtain ⟨x, hx, e, he⟩ := h
      rcases List.mem_cons.mp hx with rfl | hx
      · rw [hresult] at he
        cases he
      · exact ⟨x, hx, e, he⟩

def record (s : Settings) (started : Nat) (reports : List SuiteReport) : Action Unit :=
  match s.summaryDir with
  | some dir => do
    let summary ← (RunSummary.create started reports : Dialogue _)
    discard (orFail (summary.writeTo dir) fun e => failedRun e.message)
  | none => pure ()

/-- What is left to do once every suite was told to its end. -/
def conclude (s : Settings) (started : Nat) (reports : List SuiteReport) (t : Transcript) :
    Action Nat := do
  match ← (t.overall reports : Dialogue _) with
  | (.error e, _) => throw (failedOutput e)
  | (.ok (), _) =>
    record s started reports
    return if reports.any (·.failed) then 1 else 0

theorem runSuites_run (i : Invocation) (s : Settings) : (runSuites i s).run = (do
    let started ← (ask .calendar : Dialogue Nat)
    let os ← Suite.runEach s.bench .start (suitesFor i s)
    match concluded [] .start os with
    | .error e => return .error (failedRun e.message)
    | .ok (reports, t) => (conclude s started reports t).run) := by
  have heq : runSuites i s = (do
      let started ← (ask .calendar : Dialogue Nat)
      let suites ← suitesOf i s
      let told ← runAll s.bench .start [] suites
      conclude s started told.1 told.2) := by
    obtain ⟨srcDir, qtDir, timing, scopeRoot, scopePrefix, summaryDir⟩ := s
    cases summaryDir <;> rfl
  rw [heq, run_lift_bind]
  apply bind_congr
  intro started
  rw [suitesOf_eq, pure_bind, ExceptT.run_bind, runAll_run, bind_map_left]
  apply bind_congr
  intro os
  cases concluded [] .start os <;> rfl

section Conclusion

variable (s : Settings) (started : Nat) (reports : List SuiteReport)

variable {s} in
theorem record_some {dir : Path} (hdir : s.summaryDir = some dir) :
    (record s started reports).run = (do
      let ended ← (ask .calendar : Dialogue Nat)
      (fun r => (r.map fun _ => ()).mapError fun e => failedRun e.message) <$>
        (RunSummary.of started ended reports).writeTo dir) := by
  unfold record
  rw [hdir]
  dsimp only
  rw [run_lift_bind]
  apply bind_congr (x := (ask .calendar : Dialogue Nat))
  intro ended
  exact discard_orFail_run _ _

theorem conclude_run (t : Transcript) : (conclude s started reports t).run = (do
    match ← Transcript.printLines (Transcript.overallLines reports) with
    | .error e => return .error (failedOutput e)
    | .ok () => (fun r => r.map fun _ => if reports.any (·.failed) then 1 else 0) <$>
        (record s started reports).run) := by
  unfold conclude Transcript.overall
  rw [run_lift_bind, LawfulMonad.bind_assoc]
  apply bind_congr
  intro r
  cases r with
  | error e => rfl
  | ok u =>
    rw [pure_bind]
    dsimp only
    rw [ExceptT.run_bind, ← bind_pure_comp]
    apply bind_congr
    intro r
    cases r <;> rfl

end Conclusion

def report (r : Except Failure Nat) : Dialogue Nat := do
  match r with
  | .ok status => return status
  | .error f =>
    discard (ask (.printError s!"{CommandLine.programName}: {f.message}\n"))
    return f.status

theorem report_status {σ : Type} (host : Host σ) (st : σ) (r : Except Failure Nat) :
    ((report r).run host st).1 = statusOf r := by
  cases r <;> rfl

theorem main_eq {args : List Bytes} {i : Invocation} (h : CommandLine.parse args = .ok i) :
    main args = (act i).run >>= report := by
  unfold main
  rw [h]
  rfl

theorem act_eq (i : Invocation) : (act i).run =
    (if i.showVersion then
      (printLines [s!"{CommandLine.programName} {CommandLine.version}"] >>= fun _ => pure 0).run
    else do
      match ← Settings.load i.overrides with
      | .error e => return .error (badSettings e.message)
      | .ok s => (if i.list then list i s else runSuites i s).run) := by
  unfold act
  split
  · rfl
  · rw [ExceptT.run_bind, orFail_run, bind_map_left]
    apply bind_congr
    intro loaded
    cases loaded <;> rfl

end Program

end SmokeBench
