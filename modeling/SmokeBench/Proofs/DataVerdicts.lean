import Mathlib.Data.List.Forall2
import SmokeBench.Catalog.DataDirectory
import SmokeBench.Proofs.Journal

/-! The verdicts of the third suite. What a look at a path tells is weighed together with what the watch
has seen: a thing of the right kind was made there if it is there, or if nothing is there any more where
the watch has seen something. For an optional file the bench looks at one place after the other until a
look settles it. Such a verdict passes or informs and never fails, and what passes goes on to pass when
the watch has seen more. -/

namespace SmokeBench

open Dialogue

variable {σ : Type} {host : Host σ}

/-- Passes, or informs of something that may be missing. -/
def Verdict.Lenient (v : Verdict) : Prop := v.outcome = .pass ∨ v.outcome = .info

theorem Verdict.lenient_ite {c : Prop} [Decidable c] {m m' : String} :
    (if c then pass m else info m').Lenient := by
  split
  · exact .inl rfl
  · exact .inr rfl

theorem Verdict.passed_ite {c : Prop} [Decidable c] {m m' : String} :
    (if c then pass m else info m').passed ↔ c := by
  split
  · exact iff_of_true rfl ‹c›
  · exact iff_of_false nofun ‹¬c›

namespace Catalog

variable {o o' : Observation} {kind : PathKind} {p : Path} {reply : Except IoError Metadata}

/-- Whether a look at a path tells that something of this kind was made there. -/
def attests (o : Observation) (kind : PathKind) (p : Path) : Except IoError Metadata → Bool
  | .ok m => kind.accepts m.kind
  | .error _ => o.saw p

theorem attests_mono (hseen : o.seen ⊆ o'.seen) (h : attests o kind p reply) :
    attests o' kind p reply := by
  cases reply with
  | ok m => exact h
  | error e =>
    obtain ⟨q, hq, hsame⟩ := List.any_eq_true.mp h
    exact List.any_eq_true.mpr ⟨q, hseen hq, hsame⟩

def told (host : Host σ) (p : Path) (st : σ) : Except IoError Metadata := (host.answer (.metadata p) st).1

def past (host : Host σ) (p : Path) (st : σ) : σ := (host.answer (.metadata p) st).2

theorem told_yields (p : Path) (st : σ) :
    Yields host (ask (.metadata p)) st (told host p st) [⟨.metadata p, told host p st⟩] := .ask rfl

theorem appeared_yields (e : Evidence) (p : Path) (kind : PathKind) (st : σ) :
    Yields host (appeared e p kind) st (attests e.observation kind p (told host p st))
      [⟨.metadata p, told host p st⟩] := by
  refine (told_yields p st).bind_pure ?_
  cases told host p st <;> rfl

section Hunt

variable {rest paths : List Path} {st : σ}

/-- Looks for a file at these paths, one after the other until a look attests it. -/
def hunt (host : Host σ) (o : Observation) : List Path → σ → List Exchange
  | [], _ => []
  | p :: rest, st =>
    ⟨.metadata p, told host p st⟩ ::
      if attests o .file p (told host p st) then [] else hunt host o rest (past host p st)

def Found (host : Host σ) (o : Observation) (paths : List Path) (st : σ) : Prop :=
  ∃ p reply, ⟨.metadata p, reply⟩ ∈ hunt host o paths st ∧ attests o .file p reply

theorem not_found_nil : ¬Found host o [] st := fun ⟨_, _, hmem, _⟩ => nomatch hmem

theorem hunt_of_attests (h : attests o .file p (told host p st)) :
    hunt host o (p :: rest) st = [⟨.metadata p, told host p st⟩] := by
  rw [hunt, if_pos h]

theorem hunt_of_not_attests (h : ¬attests o .file p (told host p st)) :
    hunt host o (p :: rest) st =
      ⟨.metadata p, told host p st⟩ :: hunt host o rest (past host p st) := by
  rw [hunt, if_neg h]

theorem mem_of_hunt (h : ⟨.metadata p, reply⟩ ∈ hunt host o paths st) : p ∈ paths := by
  induction paths generalizing st with
  | nil => cases h
  | cons q rest ih =>
    by_cases hq : attests o .file q (told host q st)
    · rw [hunt_of_attests hq] at h
      cases List.mem_singleton.mp h
      exact List.mem_cons_self
    · rw [hunt_of_not_attests hq] at h
      rcases List.mem_cons.mp h with hhead | h
      · cases hhead
        exact List.mem_cons_self
      · exact List.mem_cons_of_mem _ (ih h)

theorem found_cons : Found host o (p :: rest) st ↔
    attests o .file p (told host p st) ∨ Found host o rest (past host p st) := by
  by_cases h : attests o .file p (told host p st)
  · refine iff_of_true ⟨p, _, ?_, h⟩ (.inl h)
    rw [hunt_of_attests h]
    exact List.mem_singleton_self _
  · unfold Found
    rw [hunt_of_not_attests h, or_iff_right h]
    constructor
    · rintro ⟨q, reply, hmem, hq⟩
      rcases List.mem_cons.mp hmem with hhead | hmem
      · cases hhead
        exact absurd hq h
      · exact ⟨q, reply, hmem, hq⟩
    · exact fun ⟨q, reply, hmem, hq⟩ => ⟨q, reply, List.mem_cons_of_mem _ hmem, hq⟩

theorem found_mono (hseen : o.seen ⊆ o'.seen) (h : Found host o paths st) :
    Found host o' paths st := by
  -- the second hunt may stop earlier than the first one, and then at a look that attests the file
  induction paths generalizing st with
  | nil => exact absurd h not_found_nil
  | cons p rest ih =>
    rw [found_cons] at h ⊢
    exact h.imp (attests_mono hseen) ih

end Hunt

section Seeking

variable {st : σ} {e : Evidence} {places : List Path} {relative : Path}

/-- Hunts for a file at these paths and gives one verdict, which passes if the file is found and informs
if it is not. -/
def Settles (host : Host σ) (o : Observation) (paths : List Path) (st : σ)
    (d : Dialogue (List Verdict)) : Prop :=
  ∃ v : Verdict, v.Lenient ∧ (v.passed ↔ Found host o paths st) ∧
    Yields host d st [v] (hunt host o paths st)

theorem settles_nowhere (m : String) (st : σ) : Settles host o [] st (pure [.info m]) :=
  ⟨.info m, .inr rfl, iff_of_false nofun not_found_nil, .pure _ st⟩

/-- Looks for an optional file at these places of the scope. -/
def Seeks (f : Evidence → Dialogue (List Verdict)) (places : List Path) : Prop :=
  ∀ {σ : Type} (host : Host σ) (st : σ) (e : Evidence),
    Settles host e.observation (places.filterMap e.scopePath) st (f e)

theorem createsPidFile_seeks : Seeks createsPidFile [pidFile] := by
  intro σ host st e
  cases hpath : e.scopePath pidFile with
  | none =>
    have hnone : createsPidFile e =
        pure [.info "PID file not found (may be normal for non-daemon mode)"] := by
      rw [createsPidFile, hpath]
      rfl
    rw [List.filterMap_cons_none hpath, hnone]
    exact settles_nowhere _ st
  | some p =>
    rw [List.filterMap_cons_some hpath]
    refine ⟨if attests e.observation .file p (told host p st) then .pass "PID file created"
      else .info "PID file not found (may be normal for non-daemon mode)", Verdict.lenient_ite,
      Verdict.passed_ite.trans ?_, ?_⟩
    · exact (or_iff_left not_found_nil).symm.trans found_cons.symm
    · rw [createsPidFile, hpath, hunt]
      dsimp only
      rw [List.filterMap_nil, hunt, ite_self]
      exact (appeared_yields e p .file st).bind_pure rfl

/-- The verdict on a log that counts as made. -/
def logVerdict (location : String) : Except IoError Metadata → Verdict
  | .ok m => .pass s!"debug.log created{location} ({m.size} bytes)"
  | .error _ => .pass s!"debug.log created{location} (removed at shutdown)"

theorem logVerdict_outcome (location : String) (reply : Except IoError Metadata) :
    (logVerdict location reply).outcome = .pass := by
  cases reply <;> rfl

theorem logAt_yields (hpath : e.scopePath relative = some p) (location : String) (st : σ) :
    Yields host (logAt e relative location) st
      (if attests e.observation .file p (told host p st) then some (logVerdict location (told host p st))
        else none) [⟨.metadata p, told host p st⟩] := by
  unfold logAt
  rw [hpath]
  refine (told_yields p st).bind_pure ?_
  cases told host p st with
  | ok m =>
    obtain ⟨kind, size⟩ := m
    cases kind <;> rfl
  | error e => rfl

/-- To look for the log at one place more, before all others. -/
theorem settles_logAt (relative : Path) (location : String) {rest : Dialogue (List Verdict)}
    (hrest : ∀ st, Settles host e.observation (places.filterMap e.scopePath) st rest) (st : σ) :
    Settles host e.observation ((relative :: places).filterMap e.scopePath) st (do
      match ← logAt e relative location with
      | some v => return [v]
      | none => rest) := by
  cases hpath : e.scopePath relative with
  | none =>
    have hnone : logAt e relative location = pure none := by
      rw [logAt, hpath]
    rw [List.filterMap_cons_none hpath, hnone, pure_bind]
    exact hrest st
  | some p =>
    have hlooked : Yields host (logAt e relative location) st _ _ := logAt_yields hpath location st
    rw [List.filterMap_cons_some hpath]
    by_cases hattests : attests e.observation .file p (told host p st)
    · rw [if_pos hattests] at hlooked
      have houtcome := logVerdict_outcome location (told host p st)
      refine ⟨_, .inl houtcome, iff_of_true (beq_iff_eq.mpr houtcome) ?_, ?_⟩
      · exact found_cons.mpr (.inl hattests)
      · rw [hunt_of_attests hattests]
        exact hlooked.bind_pure rfl
    · rw [if_neg hattests] at hlooked
      have hstate : ((logAt e relative location).run host st).2 = past host p st := hlooked.state
      obtain ⟨v, hlenient, hpassed, hyields⟩ := hrest (past host p st)
      refine ⟨v, hlenient, ?_, ?_⟩
      · rw [found_cons, or_iff_right hattests]
        exact hpassed
      · rw [hunt_of_not_attests hattests]
        exact hlooked.bind (hstate ▸ hyields)

theorem createsDebugLog_seeks : Seeks createsDebugLog [regtestLog, rootLog] :=
  fun _ st _ => settles_logAt regtestLog "" (settles_logAt rootLog " in root"
    (settles_nowhere "debug.log not found (may be normal for quick exit)")) st

end Seeking

section DataDirectory

variable {st : σ} {e : Evidence}

/-- The data directory of the scope is a directory now. -/
def DataStands (host : Host σ) (e : Evidence) (st : σ) : Prop :=
  ∃ root size, e.scope = some root ∧ told host (root.join dataDir) st = .ok ⟨.directory, size⟩

theorem pathExists_directory (p : Path) (st : σ) :
    ((Check.pathExists p .directory).run host st).1.passed ↔
      ∃ size, told host p st = .ok ⟨.directory, size⟩ := by
  unfold Check.pathExists told
  rw [run_bind, run_ask]
  cases (host.answer (.metadata p) st).1 with
  | error err => exact iff_of_false nofun nofun
  | ok m =>
    obtain ⟨kind, size⟩ := m
    cases kind with
    | directory => exact iff_of_true rfl ⟨size, rfl⟩
    | file | other => exact iff_of_false nofun nofun

/-- What is said of the directory below the data directory. -/
def belowVerdict (found : Bool) : Verdict :=
  if found then .pass "Regtest subdirectory created"
  else .info "Regtest subdirectory not found (may be normal for quick exit)"

theorem createsDataDir_run {root : Path} (hscope : e.scope = some root) :
    ((createsDataDir e).run host st).1 =
      if ((Check.pathExists (root.join dataDir) .directory).run host st).1.passed then
        [.pass s!"Data directory created at {(root.join dataDir).display}",
          belowVerdict (attests e.observation .directory (root.join regtestDir)
            (told host (root.join regtestDir) (past host (root.join dataDir) st)))]
      else [.fail "Data directory was not created"] := by
  have hpath (relative : Path) : e.scopePath relative = some (root.join relative) := by
    rw [Evidence.scopePath, hscope]
    rfl
  unfold createsDataDir
  rw [hpath, hpath]
  dsimp only
  rw [run_bind]
  split
  · have hbelow : ((appeared e (root.join regtestDir) .directory).run host
        (past host (root.join dataDir) st)).1 = _ := (appeared_yields e _ .directory _).result
    rw [run_bind]
    exact congrArg (fun found => [Verdict.pass _, belowVerdict found]) hbelow
  · rfl

theorem dataStands_iff {root : Path} (hscope : e.scope = some root) : DataStands host e st ↔
    ((Check.pathExists (root.join dataDir) .directory).run host st).1.passed := by
  rw [pathExists_directory]
  constructor
  · rintro ⟨root', size, hscope', htold⟩
    obtain rfl := Option.some.inj (hscope.symm.trans hscope')
    exact ⟨size, htold⟩
  · exact fun ⟨size, htold⟩ => ⟨root, size, hscope, htold⟩

theorem createsDataDir_fallen (h : ¬DataStands host e st) :
    ∃ m, ((createsDataDir e).run host st).1 = [.fail m] := by
  cases hscope : e.scope with
  | none =>
    have hnone (relative : Path) : e.scopePath relative = none := by
      rw [Evidence.scopePath, hscope]
      rfl
    unfold createsDataDir
    rw [hnone]
    exact ⟨_, rfl⟩
  | some root =>
    rw [createsDataDir_run hscope, if_neg (mt (dataStands_iff hscope).mpr h)]
    exact ⟨_, rfl⟩

/-- The directory for the regtest network counts as made when the bench looks at it, after the data
directory. -/
def RegtestCounts (host : Host σ) (e : Evidence) (st : σ) : Prop :=
  ∃ root, e.scope = some root ∧ attests e.observation .directory (root.join regtestDir)
    (told host (root.join regtestDir) (past host (root.join dataDir) st))

theorem createsDataDir_standing (h : DataStands host e st) :
    ∃ m found, ((createsDataDir e).run host st).1 = [.pass m, belowVerdict found] ∧
      (found ↔ RegtestCounts host e st) := by
  obtain ⟨root, -, hscope, -⟩ := id h
  rw [createsDataDir_run hscope, if_pos ((dataStands_iff hscope).mp h)]
  refine ⟨_, _, rfl, fun hfound => ⟨root, hscope, hfound⟩, ?_⟩
  rintro ⟨root', hscope', hfound⟩
  obtain rfl := Option.some.inj (hscope.symm.trans hscope')
  exact hfound

end DataDirectory

/-- What passes goes on to pass. -/
def Kept (vs ws : List Verdict) : Prop := List.Forall₂ (fun v w => v.passed → w.passed) vs ws

theorem Seeks.kept {f : Evidence → Dialogue (List Verdict)} {places : List Path} (h : Seeks f places)
    {e : Evidence} (hseen : e.observation.seen ⊆ o.seen) (st : σ) :
    Kept ((f e).run host st).1 ((f { e with observation := o }).run host st).1 := by
  obtain ⟨v, -, hv, hbefore⟩ := h host st e
  obtain ⟨w, -, hw, hafter⟩ := h host st { e with observation := o }
  rw [hbefore.result, hafter.result]
  exact .cons (fun hpassed => hw.mpr (found_mono hseen (hv.mp hpassed))) .nil

theorem createsDataDir_kept {e : Evidence} (hseen : e.observation.seen ⊆ o.seen) (st : σ) :
    Kept ((createsDataDir e).run host st).1
      ((createsDataDir { e with observation := o }).run host st).1 := by
  by_cases hstands : DataStands host e st
  · obtain ⟨m, found, hm, hfound⟩ := createsDataDir_standing hstands
    obtain ⟨m', found', hm', hfound'⟩ :=
      createsDataDir_standing (e := { e with observation := o }) hstands
    have hmore (h : found) : found' := by
      obtain ⟨root, hscope, hattests⟩ := hfound.mp h
      exact hfound'.mpr ⟨root, hscope, attests_mono hseen hattests⟩
    rw [hm, hm']
    exact .cons (fun _ => rfl)
      (.cons (fun h => Verdict.passed_ite.mpr (hmore (Verdict.passed_ite.mp h))) .nil)
  · obtain ⟨m, hm⟩ := createsDataDir_fallen hstands
    obtain ⟨m', hm'⟩ := createsDataDir_fallen (e := { e with observation := o }) hstands
    rw [hm, hm']
    exact .cons nofun .nil

/-- For the optional files there is one verdict, which passes if the file is found and never fails. The
data directory fails exactly if there is no scope or no such directory when it is judged, and otherwise it
passes with one verdict more that never fails. None of this depends on how the subject ended or on what it
wrote, and what passes still passes if the watch has seen more. -/
theorem data_verdicts (host : Host σ) (st : σ) (e : Evidence) :
    (∀ x ∈ [(createsDebugLog, [regtestLog, rootLog]), (createsPidFile, [pidFile])],
      ∃ v, ((x.1 e).run host st).1 = [v] ∧ v.Lenient ∧
        (v.passed ↔ Found host e.observation (x.2.filterMap e.scopePath) st)) ∧
    ((∃ v, ((createsDataDir e).run host st).1 = [v] ∧ v.outcome = .fail) ↔ ¬DataStands host e st) ∧
    (DataStands host e st → ∃ v w, ((createsDataDir e).run host st).1 = [v, w] ∧
      v.outcome = .pass ∧ w.Lenient ∧ (w.passed ↔ RegtestCounts host e st)) ∧
    ∀ f ∈ [createsDataDir, createsDebugLog, createsPidFile],
      (∀ run, f { e with run := run } = f e) ∧
      ∀ o : Observation, e.observation.seen ⊆ o.seen →
        Kept ((f e).run host st).1 ((f { e with observation := o }).run host st).1 := by
  refine ⟨?_, ⟨?_, fun h => ?_⟩, fun h => ?_, ?_⟩
  · rw [List.forall_mem_cons, List.forall_mem_singleton]
    obtain ⟨v, hv, hlogged, hlog⟩ := createsDebugLog_seeks host st e
    obtain ⟨w, hw, hpresent, hpid⟩ := createsPidFile_seeks host st e
    exact ⟨⟨v, hlog.result, hv, hlogged⟩, w, hpid.result, hw, hpresent⟩
  · rintro ⟨v, hv, -⟩ hstands
    obtain ⟨m, found, hm, -⟩ := createsDataDir_standing hstands
    cases hv.symm.trans hm
  · obtain ⟨m, hm⟩ := createsDataDir_fallen h
    exact ⟨_, hm, rfl⟩
  · obtain ⟨m, found, hm, hfound⟩ := createsDataDir_standing h
    exact ⟨_, _, hm, rfl, Verdict.lenient_ite, Verdict.passed_ite.trans hfound⟩
  · rw [List.forall_mem_cons, List.forall_mem_cons, List.forall_mem_singleton]
    exact ⟨⟨fun _ => rfl, fun o hseen => createsDataDir_kept hseen st⟩,
      ⟨fun _ => rfl, fun o hseen => createsDebugLog_seeks.kept hseen st⟩,
      fun _ => rfl, fun o hseen => createsPidFile_seeks.kept hseen st⟩

/-- A file that was removed counts for as long as the watch remembers it. -/
theorem data_verdicts_removed :
    let root : Path := .ofString "/tmp/s"
    let e : Evidence := ⟨"PID file (optional)", ⟨"litecoincashd", .ofString "/bin"⟩,
      ⟨some 0, none, "", "", .zero, false, false⟩, some root, ⟨[root.join pidFile], .zero, false⟩⟩
    let o : Observation := ⟨[root.join regtestLog, root.join pidFile], .zero, true⟩
    e.observation.seen ⊆ o.seen ∧ ¬DataStands Host.still e () ∧
      ∃ w, ((createsPidFile { e with observation := o }).run Host.still ()).1 = [w] ∧ w.passed := by
  intro root e o
  have hseen : e.observation.seen ⊆ o.seen := by decide
  have hverdicts := data_verdicts Host.still () e
  have hkept := (hverdicts.2.2.2 createsPidFile (by simp)).2 o hseen
  have hfirst : ((createsPidFile e).run Host.still ()).1 = [.pass "PID file created"] := by decide
  have hfallen : ((createsDataDir e).run Host.still ()).1 = [.fail "Data directory was not created"] :=
    by decide
  rw [hfirst] at hkept
  obtain ⟨w, rest, hpassed, hnil, hrun⟩ := List.forall₂_cons_left_iff.mp hkept
  obtain rfl := List.forall₂_nil_left_iff.mp hnil
  exact ⟨hseen, hverdicts.2.1.mp ⟨_, hfallen, rfl⟩, w, hrun, hpassed rfl⟩

end Catalog

end SmokeBench
