import SmokeBench.Proofs.Files
import SmokeBench.Proofs.Sightings

/-! Which paths a scope takes. A path is refused if it starts at the top or goes up anywhere, by every
function that resolves one and by nothing else; any other path leads to its own names below the
root. The evidence resolves it to the same path, so what the watch saw is found again. -/

namespace SmokeBench

open Dialogue

namespace Path

open Bytes (slash dot)

def pieces (p : Path) : List Bytes := List.splitOn slash p.bytes

/-- The pieces that are no names: between two separators, here and up. -/
def signs : List Bytes := [[], [dot], [dot, dot]]

/-- A path that starts at the top or goes up somewhere. -/
def Strays (p : Path) : Prop := p.isAbsolute ∨ [dot, dot] ∈ p.pieces

instance (p : Path) : Decidable p.Strays := inferInstanceAs (Decidable (_ ∨ _))

theorem componentOf_cases (x : Bytes) :
    (componentOf x = none ∧ (x = [] ∨ x = [dot])) ∨
    (componentOf x = some .parent ∧ x = [dot, dot]) ∨
    (componentOf x = some (.normal x) ∧ x ∉ signs) := by
  unfold componentOf
  split_ifs with hempty hup
  · exact .inl ⟨rfl, hempty⟩
  · exact .inr (.inl ⟨rfl, hup⟩)
  · refine .inr (.inr ⟨rfl, ?_⟩)
    rw [not_or] at hempty
    simp [signs, hempty, hup]

theorem body_eq (p : Path) : body p.bytes = p.pieces.filterMap componentOf := by
  rw [body, Bytes.splitOn_eq]
  rfl

theorem mem_lead {b : Bytes} {c : Component} (h : c ∈ lead b) : c = .root ∨ c = .current := by
  unfold lead at h
  split_ifs at h
  · exact .inl (List.mem_singleton.mp h)
  · exact .inr (List.mem_singleton.mp h)
  · cases h

theorem parent_mem_components {p : Path} : .parent ∈ p.components ↔ [dot, dot] ∈ p.pieces := by
  have hlead : .parent ∉ lead p.bytes := fun h => by rcases mem_lead h with h | h <;> cases h
  rw [components_eq, List.mem_append, or_iff_right hlead, body_eq, List.mem_filterMap]
  constructor
  · rintro ⟨x, hx, hparent⟩
    rcases componentOf_cases x with ⟨hc, -⟩ | ⟨-, rfl⟩ | ⟨hc, -⟩
    · rw [hc] at hparent
      cases hparent
    · exact hx
    · rw [hc] at hparent
      cases hparent
  · intro h
    exact ⟨_, h, rfl⟩

theorem root_mem_components {p : Path} : .root ∈ p.components ↔ p.isAbsolute := by
  have hbody : .root ∉ body p.bytes := by
    rw [body_eq, List.mem_filterMap]
    rintro ⟨x, -, hroot⟩
    rcases componentOf_cases x with ⟨hc, -⟩ | ⟨hc, -⟩ | ⟨hc, -⟩ <;> rw [hc] at hroot <;> cases hroot
  rw [components_eq, List.mem_append, or_iff_left hbody]
  unfold lead isAbsolute
  split_ifs with hslash hdot <;> simp [hslash]

theorem body_of_not_strays {p : Path} (h : ¬ p.Strays) :
    body p.bytes = (p.pieces.filter (· ∉ signs)).map .normal := by
  have hup : [dot, dot] ∉ p.pieces := fun hmem => h (.inr hmem)
  rw [body_eq]
  generalize p.pieces = ps at hup
  induction ps with
  | nil => rfl
  | cons x rest ih =>
    obtain ⟨hx, hrest⟩ := not_or.mp (mt List.mem_cons.mpr hup)
    rcases componentOf_cases x with ⟨hc, hsign⟩ | ⟨-, rfl⟩ | ⟨hc, hname⟩
    · have hsigns : x ∈ signs := by rcases hsign with rfl | rfl <;> decide
      rw [List.filterMap_cons, hc, List.filter_cons_of_neg (by simpa using hsigns), ih hrest]
    · exact absurd rfl hx
    · rw [List.filterMap_cons, hc, List.filter_cons_of_pos (by simpa using hname), ih hrest]
      rfl

theorem names_of_not_strays {p : Path} (h : ¬ p.Strays) :
    p.names = p.pieces.filter (· ∉ signs) := by
  have hlead (f : Component → Option Bytes) (hroot : f .root = none) (hcurrent : f .current = none) :
      (lead p.bytes).filterMap f = [] := by
    rw [List.filterMap_eq_nil_iff]
    intro c hc
    rcases mem_lead hc with rfl | rfl
    · exact hroot
    · exact hcurrent
  rw [names, components_eq, List.filterMap_append, hlead _ rfl rfl, body_of_not_strays h,
    List.nil_append, List.filterMap_map]
  exact List.filterMap_some

/-- Joined to an absolute root such a path leads to its names below that root. -/
theorem components_join_names {root relative : Path} (hroot : root.isAbsolute)
    (h : ¬ relative.Strays) :
    (root.join relative).components = root.components ++ relative.names.map .normal := by
  have hrelative : relative.isAbsolute = false := by
    rw [← Bool.not_eq_true]
    exact fun habs => h (.inl habs)
  rw [components_join (bytes_ne_nil hroot) hrelative, body_of_not_strays h, names_of_not_strays h]

end Path

namespace Scope

variable {scope : Scope} {relative : Path}

theorem escapes_iff : escapes relative ↔ relative.Strays := by
  unfold escapes Path.Strays
  rw [List.any_eq_true, ← Path.root_mem_components, ← Path.parent_mem_components]
  constructor
  · rintro ⟨c, hc, hescapes⟩
    cases c with
    | root => exact .inl hc
    | parent => exact .inr hc
    | current => cases hescapes
    | normal name => cases hescapes
  · rintro (h | h)
    · exact ⟨_, h, rfl⟩
    · exact ⟨_, h, rfl⟩

theorem path_of_strays (h : relative.Strays) : scope.path relative = .error (.escape relative) := by
  rw [path, if_pos (escapes_iff.mpr h)]

theorem path_of_not_strays (h : ¬ relative.Strays) :
    scope.path relative = .ok (scope.root.join relative) := by
  rw [path, if_neg (mt escapes_iff.mp h)]

/-- A path that is refused, whatever was to be done with it, before anything is done. -/
structure Refuses (scope : Scope) (relative : Path) : Prop where
  path : scope.path relative = .error (.escape relative)
  createDir : scope.createDir relative = pure (.error (.escape relative))
  writeFile : ∀ content, scope.writeFile relative content = pure (.error (.escape relative))

/-- A path that leads below the root, for the scope and for the evidence alike, and that nothing
refuses. -/
structure Takes (scope : Scope) (relative : Path) : Prop where
  path : scope.path relative = .ok (scope.root.join relative)
  below : (scope.root.join relative).components =
    scope.root.components ++ relative.names.map .normal
  names : relative.names = relative.pieces.filter (· ∉ Path.signs)
  evidence : ∀ e : Evidence, e.scope = some scope.root →
    e.scopePath relative = some (scope.root.join relative)
  createDir : ∀ {σ : Type} (host : Host σ) (s : σ) (p : Path),
    ((scope.createDir relative).run host s).1 ≠ .error (.escape p)
  writeFile : ∀ {σ : Type} (host : Host σ) (s : σ) (content : Bytes) (p : Path),
    ((scope.writeFile relative content).run host s).1 ≠ .error (.escape p)

theorem refuses_of_strays (h : relative.Strays) : scope.Refuses relative where
  path := path_of_strays h
  createDir := by rw [createDir, path_of_strays h]
  writeFile content := by rw [writeFile, path_of_strays h]

theorem makeParent_ne_escape {σ : Type} (host : Host σ) (s : σ) (path p : Path) :
    ((makeParent path).run host s).1 ≠ .error (.escape p) := by
  unfold makeParent
  split
  · simp
  · rw [run_bind]
    split <;> simp

theorem takes_of_not_strays (hroot : scope.root.isAbsolute) (h : ¬ relative.Strays) :
    scope.Takes relative where
  path := path_of_not_strays h
  below := Path.components_join_names hroot h
  names := Path.names_of_not_strays h
  evidence e he := by rw [Evidence.scopePath, he, Option.map_some]
  createDir host s p := by
    rw [createDir, path_of_not_strays h]
    dsimp only
    rw [run_bind]
    split <;> simp
  writeFile host s content p := by
    rw [writeFile, path_of_not_strays h]
    dsimp only
    rw [run_bind]
    split
    · rename_i e he
      have hparent := makeParent_ne_escape host s (scope.root.join relative) p
      rw [he] at hparent
      simpa using hparent
    · rw [run_bind]
      split <;> simp

end Scope

namespace Scenario

variable {scope : Scope}

theorem watchPaths_of_not_strays {watch : List Path} (h : ∀ r ∈ watch, ¬ r.Strays) :
    watchPaths scope watch = .ok (watch.map scope.root.join) := by
  unfold watchPaths
  induction watch with
  | nil => rfl
  | cons r rest ih =>
    rw [List.mapM_cons, Scope.path_of_not_strays (h r (by simp)), ih fun x hx => h x (by simp [hx])]
    rfl

variable (scope) in
theorem watchPaths_of_strays {watch : List Path} (h : ∃ r ∈ watch, r.Strays) :
    ∃ r ∈ watch, r.Strays ∧ watchPaths scope watch = .error (.escape r) := by
  unfold watchPaths
  induction watch with
  | nil => simp at h
  | cons r rest ih =>
    rw [List.mapM_cons]
    by_cases hr : r.Strays
    · rw [Scope.path_of_strays hr]
      exact ⟨r, by simp, hr, rfl⟩
    · have hrest : ∃ r ∈ rest, r.Strays := by simpa [hr] using h
      obtain ⟨x, hx, hstrays, herror⟩ := ih hrest
      rw [Scope.path_of_not_strays hr, herror]
      exact ⟨x, by simp [hx], hstrays, rfl⟩

variable (s : Scenario) (bench : Bench) (grace : Duration) (args : List String)

variable (scope) in
theorem supervise_of_strays (h : ∃ r ∈ s.watch, r.Strays) :
    ∃ r ∈ s.watch, r.Strays ∧
      s.supervise bench (some scope) grace args = pure (.error (.scope (.escape r))) := by
  obtain ⟨r, hr, hstrays, herror⟩ := watchPaths_of_strays scope h
  refine ⟨r, hr, hstrays, ?_⟩
  unfold supervise
  dsimp only
  rw [herror]

theorem supervise_of_not_strays (h : ∀ r ∈ s.watch, ¬ r.Strays) :
    s.supervise bench (some scope) grace args = (do
      match ← Runner.spawn s.binary.path args with
      | .error e => return .error (.run e)
      | .ok subject =>
        let observation ← Observation.observe subject.pid
          ⟨s.watch.map scope.root.join, s.timeout, bench.pollInterval⟩
        match ← bench.runner.stop subject grace with
        | .ok run => return .ok (run, observation)
        | .error e => return .error (.run e)) := by
  have hwatch : watchPaths scope s.watch = .ok (s.watch.map scope.root.join) :=
    watchPaths_of_not_strays h
  unfold supervise
  dsimp only
  generalize watchPaths scope s.watch = watch at hwatch ⊢
  subst hwatch
  rfl

theorem supervise_ne_escape (h : ∀ r ∈ s.watch, ¬ r.Strays) {σ : Type} (host : Host σ) (st : σ)
    (p : Path) : ((s.supervise bench (some scope) grace args).run host st).1 ≠
      .error (.scope (.escape p)) := by
  rw [supervise_of_not_strays s bench grace args h, run_bind]
  split
  · simp
  · rw [run_bind, run_bind]
    split <;> simp

theorem spawn_blind (path : Path) : (Runner.spawn path args).Only fun r => r.looks = false := by
  refine Only.bind (only_ask rfl) fun started => Only.bind (only_ask rfl) fun reply => ?_
  split <;> exact only_pure _

/-- The observation of a supervised subject recalls what was seen while it ran. -/
theorem supervise_recalls (h : ∀ r ∈ s.watch, ¬ r.Strays) {σ : Type} {host : Host σ} {st : σ}
    {run : RunResult} {o : Observation}
    (hok : ((s.supervise bench (some scope) grace args).run host st).1 = .ok (run, o)) :
    Observation.Recalls (s.watch.map scope.root.join) [] o.seen
      ((s.supervise bench (some scope) grace args).journal host st) := by
  rw [supervise_of_not_strays s bench grace args h, run_bind] at hok
  rw [supervise_of_not_strays s bench grace args h, journal_bind]
  refine (Observation.Recalls.blind (spawn_blind args s.binary.path) st).trans ?_
  generalize ((Runner.spawn s.binary.path args).run host st).1 = spawned at hok ⊢
  rcases spawned with e | subject
  · cases hok
  rw [run_bind, run_bind] at hok
  rw [journal_bind, journal_bind]
  have hobserved := @Observation.observe_recalls σ host subject.pid
    ⟨s.watch.map scope.root.join, s.timeout, bench.pollInterval⟩
    ((Runner.spawn s.binary.path args).run host st).2
  have hstop : (bench.runner.stop subject grace).Only fun r => r.looks = false :=
    (bench.runner.stop_only subject grace).mono fun _ h =>
      Request.looks_of_handles (Request.handles_of_attends h)
  split at hok
  · cases hok
    exact hobserved.trans ((Observation.Recalls.blind hstop _).trans .nothing)
  · cases hok

/-- What a watch below a scope comes to. A straying path ends it before the subject is started, and
nothing else is refused. What the evidence tells of a watched path is what was seen there, and it
tells of no other path. -/
structure Watches (s : Scenario) (bench : Bench) (scope : Scope) (grace : Duration)
    (args : List String) {σ : Type} (host : Host σ) (st : σ) : Prop where
  refused : (∃ r ∈ s.watch, r.Strays) → ∃ r ∈ s.watch, r.Strays ∧
    s.supervise bench (some scope) grace args = pure (.error (.scope (.escape r)))
  taken : (∀ r ∈ s.watch, ¬ r.Strays) → ∀ p,
    ((s.supervise bench (some scope) grace args).run host st).1 ≠ .error (.scope (.escape p))
  told : ∀ run o, ((s.supervise bench (some scope) grace args).run host st).1 = .ok (run, o) →
    ∀ e : Evidence, e.scope = some scope.root → e.observation = o → ∀ r ∈ s.watch,
      ∃ p, scope.path r = .ok p ∧ e.scopePath r = some p ∧ (e.observation.saw p ↔
        Sighted ((s.supervise bench (some scope) grace args).journal host st) p)
  known : ∀ run o, ((s.supervise bench (some scope) grace args).run host st).1 = .ok (run, o) →
    ∀ e : Evidence, e.scope = some scope.root → ∀ p ∈ o.seen,
      ∃ r ∈ s.watch, e.scopePath r = some p

theorem not_strays_of_supervise {σ : Type} {host : Host σ} {st : σ} {run : RunResult}
    {o : Observation}
    (hok : ((s.supervise bench (some scope) grace args).run host st).1 = .ok (run, o)) :
    ∀ r ∈ s.watch, ¬ r.Strays := by
  intro r hr hstrays
  obtain ⟨x, -, -, hrefused⟩ := s.supervise_of_strays scope bench grace args ⟨r, hr, hstrays⟩
  rw [hrefused] at hok
  cases hok

theorem watches (scope : Scope) {σ : Type} (host : Host σ) (st : σ) :
    s.Watches bench scope grace args host st where
  refused := s.supervise_of_strays scope bench grace args
  taken h := s.supervise_ne_escape bench grace args h host st
  told run o hok e hscope hobservation r hr := by
    have hplain := s.not_strays_of_supervise bench grace args hok
    have hrecalls := s.supervise_recalls bench grace args hplain hok
    refine ⟨scope.root.join r, Scope.path_of_not_strays (hplain r hr), ?_, ?_⟩
    · rw [Evidence.scopePath, hscope, Option.map_some]
    · rw [hobservation]
      exact (hrecalls.saw _).trans (or_iff_right (by simp))
  known run o hok e hscope p hp := by
    have hplain := s.not_strays_of_supervise bench grace args hok
    have hrecalls := s.supervise_recalls bench grace args hplain hok
    have hwatched := (hrecalls.watched p hp).resolve_left List.not_mem_nil
    obtain ⟨r, hr, rfl⟩ := List.mem_map.mp hwatched
    exact ⟨r, hr, by rw [Evidence.scopePath, hscope, Option.map_some]⟩

end Scenario

/-- Below an absolute root a scope takes every path that does not stray, wherever a path is given,
and leads it to its own names below that root; the evidence finds it there again. -/
theorem Scope.takes_below_root {scope : Scope} (hroot : scope.root.isAbsolute) :
    (∀ relative : Path,
      (relative.Strays ↔ relative.isAbsolute ∨ .parent ∈ relative.components) ∧
      (relative.Strays → scope.Refuses relative) ∧
      (¬ relative.Strays → scope.Takes relative)) ∧
    ∀ (s : Scenario) (bench : Bench) (grace : Duration) (args : List String) {σ : Type}
      (host : Host σ) (st : σ), s.Watches bench scope grace args host st :=
  ⟨fun _ => ⟨or_congr_right Path.parent_mem_components.symm, refuses_of_strays,
      takes_of_not_strays hroot⟩,
    fun s bench grace args _ host st => s.watches bench grace args scope host st⟩

def watcher : Scenario :=
  (Scenario.supervised "Data" "directory" ⟨"daemon", .ofString "/bin"⟩ [] .zero .zero
    fun _ => pure (.ok [])).watching (.ofString "./data//regtest/.") |>.watching (.ofString "lock")

theorem Scope.takes_below_root_tmp :
    let scope : Scope := ⟨.ofString "/tmp/s", true⟩
    scope.root.isAbsolute ∧ scope.Refuses (.ofString "data/../..") ∧
    scope.Takes (.ofString "./data//regtest/.") ∧
    ∃ run o, ((watcher.supervise .standard (some scope) .zero []).run .shelf
        [["tmp", "s", "data", "regtest"].map Bytes.ofString]).1 = .ok (run, o) ∧
      ∀ e : Evidence, e.scope = some scope.root → e.observation = o →
        ∃ p, e.scopePath (.ofString "./data//regtest/.") = some p ∧ e.observation.saw p := by
  intro scope
  have hroot : scope.root.isAbsolute := by decide
  obtain ⟨hpaths, hwatches⟩ := takes_below_root hroot
  let directory := scope.root.join (.ofString "./data//regtest/.")
  have hrun : ((watcher.supervise .standard (some scope) .zero []).run .shelf
      [["tmp", "s", "data", "regtest"].map Bytes.ofString]).1 =
        .ok (Runner.resultOf (some (.exited 0)) .exited [] [] .zero, ⟨[directory], .zero, true⟩) := by
    decide +kernel
  have htakes := (hpaths (.ofString "./data//regtest/.")).2.2 (by decide)
  refine ⟨hroot, (hpaths _).2.1 (by decide), htakes, _, _, hrun, fun e hscope hobservation => ?_⟩
  have hwatch := hwatches watcher .standard .zero [] .shelf
    [["tmp", "s", "data", "regtest"].map Bytes.ofString]
  obtain ⟨p, hpath, hp, -⟩ := hwatch.told _ _ hrun e hscope hobservation
    (.ofString "./data//regtest/.") (by decide)
  have hsame : p = directory := Except.ok.inj (hpath.symm.trans htakes.path)
  refine ⟨p, hp, ?_⟩
  rw [hobservation, hsame]
  decide

end SmokeBench
