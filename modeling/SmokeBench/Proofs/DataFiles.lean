import SmokeBench.Proofs.DataVerdicts
import SmokeBench.Proofs.ScopePaths

/-! What a pass for an optional file says about a supervised run. The watch looks whether anything is at a
path and not what it is, and the evaluator asks for the kind only of what it still finds. So a pass tells
that a regular file is there, or that something was there and is gone. Where the subject makes nothing but
regular files at these places, there was such a file; where it makes a directory and removes it in time,
there was none. -/

namespace SmokeBench

open Dialogue

variable {σ : Type} {host : Host σ}

/-- At some moment of this journal there is a regular file at this path, in whatever spelling. -/
def Stood (host : Host σ) (st : σ) (j : List Exchange) (p : Path) : Prop :=
  ∃ i q size, i <+: j ∧ q.sameAs p ∧
    (host.answer (.metadata q) (after host st i)).1 = .ok ⟨.file, size⟩

theorem stood_of_mem {α : Type} {d : Dialogue α} {st : σ} {p q : Path} {size : Nat}
    (hmem : ⟨.metadata q, .ok ⟨.file, size⟩⟩ ∈ d.journal host st) (hsame : q.sameAs p) :
    Stood host st (d.journal host st) p := by
  have hgenuine : Genuine host st (d.journal host st) := genuine_journal d st
  obtain ⟨i, k, hsplit⟩ := List.append_of_mem hmem
  rw [hsplit, genuine_append] at hgenuine
  rw [hsplit]
  exact ⟨i, q, size, List.prefix_append _ _, hsame, hgenuine.2.1.symm⟩

namespace Catalog

/-- A look finds a regular file at this path. -/
def Met (k : List Exchange) (p : Path) : Prop := ∃ size, ⟨.metadata p, .ok ⟨.file, size⟩⟩ ∈ k

/-- A look finds nothing at this path any more where an earlier one found something. -/
def Missed (i k : List Exchange) (p : Path) : Prop :=
  (∃ e, ⟨.metadata p, .error e⟩ ∈ k) ∧ Sighted i p

/-- What the verdict on an optional file tells, after what was exchanged while the subject was there and
what was exchanged to judge it. -/
structure Tells (host : Host σ) (st : σ) (paths : List Path) (i k : List Exchange) (v : Verdict) :
    Prop where
  passes : v.passed ↔ ∃ p ∈ paths, Met k p ∨ Missed i k p
  right_iff : (v.passed → ∃ p ∈ paths, Stood host st (i ++ k) p) ↔
    ((∃ p ∈ paths, Missed i k p) → ∃ p ∈ paths, Stood host st (i ++ k) p)
  regular : (∀ p ∈ paths, ∀ q m, ⟨.metadata q, .ok m⟩ ∈ i → q.sameAs p → m.kind = .file) →
    v.passed → ∃ p ∈ paths, Stood host st (i ++ k) p

section Judging

variable {st : σ} {o : Observation} {p : Path} {paths : List Path} {i k : List Exchange} {v : Verdict}

/-- A file is found if a look finds it, or finds nothing where the watch has seen something. -/
theorem found_iff (hsaw : ∀ p, o.saw p ↔ Sighted i p) : Found host o paths st ↔
    ∃ p ∈ paths, Met (hunt host o paths st) p ∨ Missed i (hunt host o paths st) p := by
  constructor
  · rintro ⟨p, reply, hmem, hattests⟩
    refine ⟨p, mem_of_hunt hmem, ?_⟩
    cases reply with
    | ok m =>
      obtain ⟨kind, size⟩ := m
      obtain rfl : kind = .file := beq_iff_eq.mp hattests
      exact .inl ⟨size, hmem⟩
    | error e => exact .inr ⟨⟨e, hmem⟩, (hsaw p).mp hattests⟩
  · rintro ⟨p, -, ⟨size, hmem⟩ | ⟨⟨e, hmem⟩, hsighted⟩⟩
    · exact ⟨p, _, hmem, rfl⟩
    · exact ⟨p, _, hmem, (hsaw p).mpr hsighted⟩

/-- Only what is missed can be mistaken for a regular file. -/
theorem tells_of_passes {α : Type} {d : Dialogue α} (hj : d.journal host st = i ++ k)
    (hpasses : v.passed ↔ ∃ p ∈ paths, Met k p ∨ Missed i k p) : Tells host st paths i k v := by
  have hmet {p : Path} (h : Met k p) : Stood host st (i ++ k) p := by
    obtain ⟨size, hmem⟩ := h
    rw [← hj]
    exact stood_of_mem (hj ▸ List.mem_append_right _ hmem) (beq_self_eq_true p.components)
  have hright (h : (∃ p ∈ paths, Missed i k p) → ∃ p ∈ paths, Stood host st (i ++ k) p)
      (hpassed : v.passed) : ∃ p ∈ paths, Stood host st (i ++ k) p := by
    obtain ⟨p, hp, hfound | hmissed⟩ := hpasses.mp hpassed
    · exact ⟨p, hp, hmet hfound⟩
    · exact h ⟨p, hp, hmissed⟩
  -- a regular file that is missed was there when a poll found it
  refine ⟨hpasses, ⟨fun h => ?_, hright⟩, fun hregular => hright ?_⟩
  · rintro ⟨p, hp, hmissed⟩
    exact h (hpasses.mpr ⟨p, hp, .inr hmissed⟩)
  · rintro ⟨p, hp, -, q, m, hmem, hsame⟩
    obtain ⟨kind, size⟩ := m
    obtain rfl : kind = .file := hregular p hp q _ hmem hsame
    refine ⟨p, hp, ?_⟩
    rw [← hj]
    exact stood_of_mem (hj ▸ List.mem_append_left _ hmem) hsame

variable (s : Scenario) (bench : Bench) (scope : Scope) (grace : Duration)

theorem work_seeks {f : Evidence → Dialogue (List Verdict)} {places : List Path} (hf : Seeks f places)
    (host : Host σ) (st : σ) :
    let supervision := s.subjectRun bench (some scope) (.supervised grace)
    let whole := s.work bench (some scope) (.supervised grace) (inspect f)
    (∃ fault, (supervision.run host st).1 = .error fault ∧
      Yields host whole st (.error fault) (supervision.journal host st)) ∨
    ∃ run o v, (supervision.run host st).1 = .ok (run, o) ∧
      (v.passed ↔ Found host o (places.map scope.root.join) (supervision.run host st).2) ∧
      Yields host whole st (.ok [v]) (supervision.journal host st ++
        hunt host o (places.map scope.root.join) (supervision.run host st).2) := by
  intro supervision whole
  cases hran : (supervision.run host st).1 with
  | error fault => exact .inl ⟨fault, rfl, Yields.bind_pure ⟨hran, rfl⟩ rfl⟩
  | ok ran =>
    obtain ⟨run, o⟩ := ran
    let e : Evidence := ⟨s.name, s.binary, run, some scope.root, o⟩
    have hplaces : places.filterMap e.scopePath = places.map scope.root.join :=
      congrFun (List.filterMap_eq_map (f := scope.root.join)) places
    obtain ⟨v, -, hpassed, hyields⟩ := hf host (supervision.run host st).2 e
    rw [hplaces] at hpassed hyields
    have hjudged : Yields host (inspect f e) (supervision.run host st).2 (.ok [v]) _ := hyields.map _
    exact .inr ⟨run, o, v, rfl, hpassed, Yields.bind ⟨hran, rfl⟩ (hjudged.bind_pure rfl)⟩

end Judging

/-- In a supervised run that comes to a verdict on an optional file, it passes exactly if the evaluator
meets a regular file at one of the places or misses what the watch has seen at one of them. So a pass that
tells of no regular file is one that rests on something missed, and never comes about if whatever the
watch found at these places was a regular file. -/
theorem optional_files_tell (s : Scenario) (bench : Bench) (scope : Scope) (grace : Duration)
    (host : Host σ) (st : σ) :
    ∀ x ∈ [(createsPidFile, [pidFile]), (createsDebugLog, [regtestLog, rootLog])],
      let supervision := s.subjectRun bench (some scope) (.supervised grace)
      let whole := s.work bench (some scope) (.supervised grace) (inspect x.1)
      (∃ fault, (supervision.run host st).1 = .error fault ∧ (whole.run host st).1 = .error fault) ∨
      ∃ v k, (whole.run host st).1 = .ok [v] ∧
        whole.journal host st = supervision.journal host st ++ k ∧
        Tells host st (x.2.map scope.root.join) (supervision.journal host st) k v := by
  intro x hx
  have hseeks : Seeks x.1 x.2 := by
    rcases List.mem_cons.mp hx with rfl | hx
    · exact createsPidFile_seeks
    · obtain rfl := List.mem_singleton.mp hx
      exact createsDebugLog_seeks
  rcases work_seeks s bench scope grace hseeks host st with ⟨fault, hfault, hyields⟩ |
    ⟨run, o, v, hran, hpassed, hyields⟩
  · exact .inl ⟨fault, hfault, hyields.result⟩
  · have hplain := s.not_strays_of_supervise bench grace _ hran
    have hrecalls := s.supervise_recalls bench grace _ hplain hran
    have hsaw (p : Path) := (hrecalls.saw p).trans (or_iff_right (by simp))
    exact .inr ⟨v, _, hyields.result, hyields.journal,
      tells_of_passes hyields.journal (hpassed.trans (found_iff hsaw))⟩

end Catalog

/-- A subject that has something of this kind at every path until it is asked to end. -/
def Host.fleeting (kind : FileKind) : Host Bool where
  answer r there := match r with
    | .metadata _ => (if there then .ok ⟨kind, 0⟩ else .error .notFound, there)
    | .pollExit _ | .awaitExit _ _ => (.ok (if there then none else some (.exited 0)), there)
    | .signalGroup _ .term => (.ok (), false)
    | r => Host.still.answer r there

theorem Host.fleeting_kind {kind : FileKind} {p : Path} {there : Bool} {m : Metadata}
    (h : ((fleeting kind).answer (.metadata p) there).1 = .ok m) : m.kind = kind := by
  cases there with
  | true =>
    obtain rfl := Except.ok.inj h
    rfl
  | false => cases h

namespace Catalog

/-- A regular file that is removed at the end passes, and it was there. -/
theorem optional_files_tell_fleeting :
    let settings : Settings := ⟨.ofString "/bin", .ofString "/bin", .standard, none, "lcc_test_", none⟩
    let scope : Scope := ⟨.ofString "/tmp/s", true⟩
    ∃ s ∈ dataDirectory (.of settings) settings.timing,
      let whole := s.work .standard (some scope) (.supervised .zero) (inspect createsPidFile)
      (whole.run (.fleeting .file) true).1 = .ok [.pass "PID file created"] ∧
        Stood (.fleeting .file) true (whole.journal (.fleeting .file) true)
          (scope.root.join pidFile) := by
  intro settings scope
  refine ⟨_, .tail _ (.tail _ (.head _)), ?_⟩
  intro whole
  have hok : (whole.run (.fleeting .file) true).1 = .ok [.pass "PID file created"] := by
    decide +kernel
  refine ⟨hok, ?_⟩
  rcases optional_files_tell _ .standard scope .zero (.fleeting .file) true
    (createsPidFile, [pidFile]) (.head _) with ⟨fault, -, hfault⟩ | ⟨v, k, hv, hjournal, htells⟩
  · cases hok.symm.trans hfault
  · obtain rfl := (List.cons.inj (Except.ok.inj (hok.symm.trans hv))).1
    have hregular := htells.regular (fun _ _ q m hmem _ => ?_) rfl
    · obtain ⟨p, hp, hstood⟩ := hregular
      obtain rfl := List.mem_singleton.mp hp
      rw [← hjournal] at hstood
      exact hstood
    · obtain ⟨there, hreply⟩ := reply_of_mem hmem
      exact Host.fleeting_kind hreply.symm

/-- Directories that are removed at the end pass as well, although there never was a regular file. -/
theorem directories_pass :
    let settings : Settings := ⟨.ofString "/bin", .ofString "/bin", .standard, none, "lcc_test_", none⟩
    let scope : Scope := ⟨.ofString "/tmp/s", true⟩
    let mode : RunMode := .supervised settings.timing.stopGrace
    ∀ x ∈ [(createsPidFile, "PID file created"),
        (createsDebugLog, "debug.log created (removed at shutdown)")],
      ∃ s ∈ dataDirectory (.of settings) settings.timing, s.action = .run mode (inspect x.1) ∧
        let whole := s.work .standard (some scope) mode (inspect x.1)
        (whole.run (.fleeting .directory) true).1 = .ok [.pass x.2] ∧
          ∀ p, ¬Stood (.fleeting .directory) true (whole.journal (.fleeting .directory) true) p := by
  intro settings scope mode
  have hnone (j : List Exchange) (p : Path) : ¬Stood (.fleeting .directory) true j p := by
    rintro ⟨i, q, size, -, -, htold⟩
    cases Host.fleeting_kind htold
  rw [List.forall_mem_cons, List.forall_mem_singleton]
  constructor
  · refine ⟨_, .tail _ (.tail _ (.head _)), rfl, ?_, fun p => hnone _ p⟩
    decide +kernel
  · refine ⟨_, .tail _ (.head _), rfl, ?_, fun p => hnone _ p⟩
    decide +kernel

end Catalog

end SmokeBench
