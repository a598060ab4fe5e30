import Mathlib.Data.List.Perm.Subperm
import SmokeBench.Proofs.Probing
import SmokeBench.Proofs.Sightings
import SmokeBench.Proofs.TimeBounds

/-! When a watch ends for what it has seen. The test for it compares two numbers, of the paths seen and
of the paths watched, and what is seen has no path twice. So the watch ends with the poll that completes
it exactly when the watched paths have none twice either, in whatever spelling. Nor does a watch end
because it has no polls left, as long as its sleeps take their time. -/

namespace SmokeBench

open Dialogue

variable {σ : Type} {host : Host σ}

def Request.sleeps : Request → Bool
  | sleep _ => true
  | _ => false

namespace Observation

/-- What was asked and answered in each poll, from one sleep to the next. -/
def polls (j : List Exchange) : List (List Exchange) := j.splitOnP (·.request.sleeps)

theorem polls_cons (x : Exchange) (j : List Exchange) : polls (x :: j) =
    if x.request.sleeps then [] :: polls j else (polls j).modifyHead (x :: ·) :=
  List.splitOnP_cons_eq_if_modifyHead x j

section

variable {first rest : List Exchange} (hfirst : ∀ x ∈ first, x.request.sleeps = false)

include hfirst

theorem polls_awake : polls first = [first] := List.splitOnP_eq_singleton hfirst

theorem polls_slept {slept : Exchange} (hslept : slept.request.sleeps = true) :
    polls (first ++ slept :: rest) = first :: polls rest :=
  List.splitOnP_append_cons_of_forall_mem hfirst slept hslept rest

end

def Missed (p : Path) (poll : List Exchange) : Prop :=
  ∃ e, (⟨.metadata p, .error e⟩ : Exchange) ∈ poll

theorem Missed.mono {p : Path} {i j : List Exchange} (h : Missed p i) (hij : i ⊆ j) : Missed p j :=
  h.imp fun _ he => hij he

/-- Whenever a watch goes on after a poll, there is a path that neither this poll nor an earlier one has
found. -/
def StopsComplete (paths : List Path) (j : List Exchange) : Prop :=
  ∀ i x k, j = i ++ x :: k → x.request.sleeps = true →
    ∃ p ∈ paths, ∀ poll ∈ polls i, Missed p poll

/-- No two of these paths are the same, in whatever spelling. -/
def AllDistinct (paths : List Path) : Prop := paths.Pairwise fun p q => ¬p.sameAs q

instance (paths : List Path) : Decidable (AllDistinct paths) :=
  inferInstanceAs (Decidable (paths.Pairwise _))

section Counting

variable {paths seen : List Path} {p : Path}

theorem allDistinct_iff : AllDistinct paths ↔ (paths.map Path.components).Nodup := by
  rw [List.Nodup, List.pairwise_map]
  exact List.Pairwise.iff fun p q => not_congr Path.sameAs_iff

theorem any_sameAs_iff : seen.any (·.sameAs p) ↔ p.components ∈ seen.map Path.components := by
  simp only [List.any_eq_true, Path.sameAs_iff, List.mem_map]

/-- What has been seen of these paths, none of it twice. -/
structure Collects (paths seen : List Path) : Prop where
  distinct : AllDistinct seen
  watched : seen ⊆ paths

theorem Collects.none : Collects paths [] := ⟨.nil, List.nil_subset _⟩

/-- As many paths are seen as are watched exactly when none is watched twice and all are seen. -/
theorem Collects.length_eq_iff (h : Collects paths seen) : seen.length = paths.length ↔
    AllDistinct paths ∧ ∀ p ∈ paths, seen.any (·.sameAs p) := by
  have hseen : (seen.map Path.components).Subperm (paths.map Path.components) :=
    (allDistinct_iff.mp h.distinct).subperm (List.map_subset _ h.watched)
  constructor
  · intro hlength
    have hperm : (seen.map Path.components).Perm (paths.map Path.components) :=
      hseen.perm_of_length_le (by rw [List.length_map, List.length_map]; exact Nat.le_of_eq hlength.symm)
    refine ⟨?_, fun p hp => ?_⟩
    · rw [allDistinct_iff, ← hperm.nodup_iff, ← allDistinct_iff]
      exact h.distinct
    · rw [any_sameAs_iff, hperm.mem_iff]
      exact List.mem_map_of_mem hp
  · rintro ⟨hdistinct, hall⟩
    have hpaths : (paths.map Path.components).Subperm (seen.map Path.components) := by
      refine (allDistinct_iff.mp hdistinct).subperm fun c hc => ?_
      obtain ⟨p, hp, rfl⟩ := List.mem_map.mp hc
      exact any_sameAs_iff.mp (hall p hp)
    have hle := hseen.length_le
    have hge := hpaths.length_le
    rw [List.length_map, List.length_map] at hle hge
    exact Nat.le_antisymm hle hge

theorem look_distinct (h : AllDistinct seen) (paths : List Path) (st : σ) :
    AllDistinct ((look seen paths).run host st).1 := by
  induction paths generalizing seen st with
  | nil => exact h
  | cons p rest ih =>
    unfold look
    split
    · exact ih h st
    · rename_i hunseen
      have hadded : AllDistinct (seen ++ [p]) := by
        refine List.pairwise_append.mpr ⟨h, List.pairwise_singleton _ _, fun q hq p' hp' hsame => ?_⟩
        obtain rfl := List.mem_singleton.mp hp'
        exact hunseen (List.any_eq_true.mpr ⟨q, hq, hsame⟩)
      rw [run_bind]
      split
      · exact ih hadded _
      · exact ih h _

theorem look_collects (h : Collects paths seen) (st : σ) :
    Collects paths ((look seen paths).run host st).1 := by
  refine ⟨look_distinct h.distinct paths st, fun p hp => ?_⟩
  exact ((look_recalls (List.Subset.refl paths) seen st).watched p hp).elim (h.watched ·) id

theorem look_keeps (h : seen.any (·.sameAs p)) (paths : List Path) (st : σ) :
    ((look seen paths).run host st).1.any (·.sameAs p) :=
  ((look_recalls (List.Subset.refl paths) seen st).saw p).mpr (.inl h)

theorem look_missed (hp : p ∈ paths) (st : σ)
    (hunseen : ¬((look seen paths).run host st).1.any (·.sameAs p)) :
    Missed p ((look seen paths).journal host st) := by
  have hself : p.sameAs p := Path.sameAs_iff.mpr rfl
  induction paths generalizing seen st with
  | nil => cases hp
  | cons q rest ih =>
    unfold look at hunseen ⊢
    split at hunseen
    · rename_i hseen
      rw [if_pos hseen]
      rcases List.mem_cons.mp hp with rfl | hp
      · exact absurd (look_keeps hseen rest st) hunseen
      · exact ih hp st hunseen
    · rename_i hseen
      rw [if_neg hseen, journal_bind, run_ask, journal_ask, List.singleton_append]
      rw [run_bind, run_ask] at hunseen
      cases hreply : (host.answer (.metadata q) st).1 with
      | ok m =>
        rw [hreply] at hunseen
        rcases List.mem_cons.mp hp with rfl | hp
        · refine absurd (look_keeps ?_ rest _) hunseen
          exact List.any_eq_true.mpr ⟨p, List.mem_append_right _ List.mem_cons_self, hself⟩
        · exact (ih hp _ hunseen).mono (List.subset_cons_self _ _)
      | error e =>
        rw [hreply] at hunseen
        rcases List.mem_cons.mp hp with rfl | hp
        · exact ⟨e, List.mem_cons_self⟩
        · exact (ih hp _ hunseen).mono (List.subset_cons_self _ _)

end Counting

section Polling

variable {paths seen later : List Path} {first rest j : List Exchange}

/-- Whenever a watch that has seen these paths goes on, there is one that it neither has seen nor has
found in any poll since. -/
def GoesOnFor (paths seen : List Path) (j : List Exchange) : Prop :=
  ∀ i x k, j = i ++ x :: k → x.request.sleeps = true →
    ∃ p ∈ paths, ¬seen.any (·.sameAs p) ∧ ∀ poll ∈ polls i, Missed p poll

theorem GoesOnFor.awake (h : ∀ x ∈ j, x.request.sleeps = false) : GoesOnFor paths seen j := by
  rintro i x k rfl hsleeps
  rw [h x (by simp)] at hsleeps
  cases hsleeps

theorem GoesOnFor.append_awake (h : GoesOnFor paths seen j)
    (hrest : ∀ x ∈ rest, x.request.sleeps = false) : GoesOnFor paths seen (j ++ rest) := by
  intro i x k hj hsleeps
  have hnot : x ∉ rest := by
    intro hx
    rw [hrest x hx] at hsleeps
    cases hsleeps
  rcases List.append_eq_append_iff.mp hj with ⟨a, -, ha⟩ | ⟨a, hi, ha⟩
  · exact absurd (by rw [ha]; simp) hnot
  · cases a with
    | nil => exact absurd (by rw [show rest = x :: k from ha.symm]; simp) hnot
    | cons y a =>
      obtain ⟨rfl, -⟩ := List.cons.inj ha
      exact h i x a hi hsleeps

theorem GoesOnFor.cons_awake (h : GoesOnFor paths seen j) {y : Exchange}
    (hy : y.request.sleeps = false) : GoesOnFor paths seen (y :: j) := by
  intro i x k hj hsleeps
  cases i with
  | nil =>
    obtain ⟨rfl, -⟩ := List.cons.inj hj
    rw [hy] at hsleeps
    cases hsleeps
  | cons z i =>
    obtain ⟨rfl, hi⟩ := List.cons.inj hj
    obtain ⟨p, hp, hunseen, hpolls⟩ := h i x k hi hsleeps
    refine ⟨p, hp, hunseen, ?_⟩
    rw [polls_cons, if_neg (Bool.eq_false_iff.mp hy)]
    cases hsplit : polls i with
    | nil => exact fun _ h => nomatch h
    | cons poll more =>
      rw [hsplit] at hpolls
      obtain ⟨hpoll, hmore⟩ := List.forall_mem_cons.mp hpolls
      exact List.forall_mem_cons.mpr ⟨hpoll.mono (List.subset_cons_self _ _), hmore⟩

theorem GoesOnFor.slept (hfirst : ∀ x ∈ first, x.request.sleeps = false)
    (hmissed : ∀ p ∈ paths, ¬later.any (·.sameAs p) → ¬seen.any (·.sameAs p) ∧ Missed p first)
    (hmissing : ∃ p ∈ paths, ¬later.any (·.sameAs p)) {slept : Exchange}
    (hslept : slept.request.sleeps = true) (hrest : GoesOnFor paths later rest) :
    GoesOnFor paths seen (first ++ slept :: rest) := by
  have hbegun : ∃ p ∈ paths, ¬seen.any (·.sameAs p) ∧ ∀ poll ∈ polls first, Missed p poll := by
    obtain ⟨p, hp, hunseen⟩ := hmissing
    obtain ⟨hbefore, hfirst'⟩ := hmissed p hp hunseen
    refine ⟨p, hp, hbefore, ?_⟩
    rw [polls_awake hfirst]
    exact List.forall_mem_singleton.mpr hfirst'
  intro i x k hj hsleeps
  rcases List.append_eq_append_iff.mp hj with ⟨a, rfl, ha⟩ | ⟨a, hi, ha⟩
  · cases a with
    | nil => rwa [List.append_nil]
    | cons y a =>
      obtain ⟨rfl, hlater⟩ := List.cons.inj ha
      obtain ⟨p, hp, hunseen, hpolls⟩ := hrest a x k hlater hsleeps
      obtain ⟨hbefore, hfirst'⟩ := hmissed p hp hunseen
      refine ⟨p, hp, hbefore, ?_⟩
      rw [polls_slept hfirst hslept]
      exact List.forall_mem_cons.mpr ⟨hfirst', hpolls⟩
  · cases a with
    | nil =>
      rw [List.append_nil] at hi
      exact hi ▸ hbegun
    | cons y a =>
      obtain ⟨rfl, -⟩ := List.cons.inj ha
      rw [hfirst x (by rw [hi]; simp)] at hsleeps
      cases hsleeps

variable {w : Watch} {pid : Pid}

theorem look_awake (host : Host σ) (seen paths : List Path) (st : σ) :
    ∀ x ∈ (look seen paths).journal host st, x.request.sleeps = false :=
  (look_asks (P := fun r => r.sleeps = false) (fun _ _ => rfl) seen).journal st

theorem isRunning_awake (host : Host σ) (pid : Pid) (st : σ) :
    ∀ x ∈ (isRunning pid).journal host st, x.request.sleeps = false :=
  (isRunning_asks (P := fun r => r.sleeps = false) rfl).journal st

/-- Why a poll is the last one. -/
inductive Ends (host : Host σ) (pid : Pid) (w : Watch) (started : Instant) (seen : List Path)
    (st : σ) : Prop
  | complete (h : ((look seen w.paths).run host st).1.length = w.paths.length)
  | gone (h : ((isRunning pid).run host ((look seen w.paths).run host st).2).1 = false)
  | closed (h : w.window ≤ (now.run host ((isRunning pid).run host
      ((look seen w.paths).run host st).2).2).1 - started)

theorem pollUntil_cases (host : Host σ) (pid : Pid) (hpaths : w.paths ≠ []) (started : Instant)
    (seen : List Path) (n : Nat) (st : σ) :
    (Ends host pid w started seen st ∧
      ∀ x ∈ (pollUntil pid w started seen (n + 1)).journal host st, x.request.sleeps = false) ∨
    ((look seen w.paths).run host st).1.length ≠ w.paths.length ∧
      ∃ i x st', (∀ y ∈ i, y.request.sleeps = false) ∧ x.request.sleeps = true ∧
        (pollUntil pid w started seen (n + 1)).journal host st =
          ((look seen w.paths).journal host st ++ i) ++ x ::
            (pollUntil pid w started ((look seen w.paths).run host st).1 n).journal host st' := by
  have hlook := look_awake host seen w.paths st
  have hempty : w.paths.isEmpty = false := List.isEmpty_eq_false_iff.mpr hpaths
  rw [pollUntil, journal_bind, hempty]
  split
  · rename_i hfull
    refine .inl ⟨.complete (by simpa using hfull), ?_⟩
    rw [journal_pure, List.append_nil]
    exact hlook
  rename_i hshort
  have hrunning := isRunning_awake host pid ((look seen w.paths).run host st).2
  rw [journal_bind]
  split
  · rename_i hgone
    refine .inl ⟨.gone (by simpa using hgone), ?_⟩
    rw [journal_pure, List.append_nil]
    exact List.forall_mem_append.mpr ⟨hlook, hrunning⟩
  have hi (st' : σ) : ∀ x ∈ (isRunning pid).journal host ((look seen w.paths).run host st).2 ++
      now.journal host st', x.request.sleeps = false :=
    List.forall_mem_append.mpr ⟨hrunning, List.forall_mem_singleton.mpr rfl⟩
  rw [journal_bind]
  dsimp only
  split
  · rename_i hclosed
    refine .inl ⟨.closed hclosed, ?_⟩
    rw [journal_pure, List.append_nil]
    exact List.forall_mem_append.mpr ⟨hlook, hi _⟩
  · have hassoc (a b c d : List Exchange) : a ++ (b ++ (c ++ d)) = a ++ (b ++ c) ++ d := by
      rw [List.append_assoc, List.append_assoc]
    exact .inr ⟨fun hlength => hshort (by rw [hlength]; simp), _, _, _, hi _, by rfl, hassoc _ _ _ _⟩

theorem pollUntil_goesOnFor (hdistinct : AllDistinct w.paths) (hpaths : w.paths ≠ [])
    (hseen : Collects w.paths seen) (started : Instant) (n : Nat) (st : σ) :
    GoesOnFor w.paths seen ((pollUntil pid w started seen n).journal host st) := by
  induction n generalizing seen st with
  | zero => exact .awake (by simp [pollUntil])
  | succ n ih =>
    rcases pollUntil_cases host pid hpaths started seen n st with
      ⟨-, hawake⟩ | ⟨hshort, i, x, st', hi, hx, hjournal⟩
    · exact .awake hawake
    have hcollects : Collects w.paths ((look seen w.paths).run host st).1 := look_collects hseen st
    rw [hjournal]
    refine .slept (List.forall_mem_append.mpr ⟨look_awake _ _ _ _, hi⟩) (fun p hp hunseen => ?_) ?_ hx
      (ih hcollects st')
    · exact ⟨fun h => hunseen (look_keeps h _ _),
        (look_missed hp st hunseen).mono (List.subset_append_left _ _)⟩
    · by_contra hall
      refine hshort (hcollects.length_eq_iff.mpr ⟨hdistinct, fun p hp => ?_⟩)
      by_contra hunseen
      exact hall ⟨p, hp, hunseen⟩

theorem observe_journal (host : Host σ) (pid : Pid) (w : Watch) (st : σ) : ∃ later : Instant,
    (observe pid w).journal host st = ⟨.clock, (host.answer .clock st).1⟩ ::
      ((pollUntil pid w (host.answer .clock st).1 [] w.polls).journal host (host.answer .clock st).2 ++
        [⟨.clock, later⟩]) := by
  unfold observe
  rw [journal_bind, journal_bind, journal_bind, journal_pure, List.append_nil]
  exact ⟨_, rfl⟩

theorem observe_stopsComplete (hdistinct : AllDistinct w.paths) (hpaths : w.paths ≠ []) (st : σ) :
    StopsComplete w.paths ((observe pid w).journal host st) := by
  obtain ⟨later, hjournal⟩ := observe_journal host pid w st
  have hgoes : GoesOnFor w.paths [] ((observe pid w).journal host st) := by
    rw [hjournal]
    refine (GoesOnFor.append_awake ?_ (List.forall_mem_singleton.mpr rfl)).cons_awake rfl
    exact pollUntil_goesOnFor hdistinct hpaths .none _ _ _
  intro i x k hj hsleeps
  obtain ⟨p, hp, -, hpolls⟩ := hgoes i x k hj hsleeps
  exact ⟨p, hp, hpolls⟩

end Polling

end Observation

/-- A clock that never goes back, and on which a sleep takes at least its span. -/
structure SteadyClock (host : Host σ) where
  time : σ → Instant
  read : ∀ s, (host.answer .clock s).1 = time s
  forward : ∀ r s, time s ≤ time (host.answer r s).2
  slept : ∀ span s, time s + span ≤ time (host.answer (.sleep span) s).2

namespace SteadyClock

variable (clock : SteadyClock host)

theorem forward_run {α : Type} (d : Dialogue α) (s : σ) : clock.time s ≤ clock.time (d.run host s).2 := by
  induction d generalizing s with
  | done a => exact Nat.le_refl _
  | ask r k ih => exact Nat.le_trans (clock.forward r s) (ih _ _)

end SteadyClock

def SteadyClock.stubborn : SteadyClock Host.stubborn where
  time := stubbornClock.time
  read := stubbornClock.read
  forward := stubbornClock.forward
  slept span now := Nat.le_refl (now + span).nanos

namespace Observation

/-- Whether one poll is followed by more of them or by fewer is the same if it is for those that begin
after a sleep in the open window. -/
theorem pollUntil_congr (clock : SteadyClock host) {pid : Pid} {w : Watch} {started : Instant}
    {m n : Nat} (seen : List Path) (st : σ)
    (hlater : ∀ (seen : List Path) (st' : σ) (t : Instant), clock.time st ≤ t →
      ¬w.window ≤ t - started → t + w.interval.min (w.window - (t - started)) ≤ clock.time st' →
      SameFrom host st' (pollUntil pid w started seen m) (pollUntil pid w started seen n)) :
    SameFrom host st (pollUntil pid w started seen (m + 1))
      (pollUntil pid w started seen (n + 1)) := by
  have hread (s : σ) : (now.run host s).1 = clock.time s := clock.read s
  rw [pollUntil, pollUntil]
  refine .bind (.ite (fun _ => .refl _) fun _ => .bind (.ite (fun _ => .refl _) fun _ => ?_))
  refine .bind (.ite (fun _ => .refl _) fun hopen => .bind (hlater _ _ _ ?_ hopen ?_))
  · rw [hread]
    exact Nat.le_trans (clock.forward_run _ _) (clock.forward_run _ _)
  · rw [hread]
    exact Nat.le_trans (Nat.add_le_add_right (clock.forward_run now _) _) (clock.slept _ _)

/-- As long as the polls that are left take the rest of the window, one more of them changes nothing. -/
theorem pollUntil_enough (clock : SteadyClock host) (pid : Pid) {w : Watch} {started : Instant}
    (seen : List Path) (n : Nat) (st : σ) (hstarted : started ≤ clock.time st)
    (henough : w.window.nanos ≤ (clock.time st - started).nanos + n * w.interval.nanos) :
    SameFrom host st (pollUntil pid w started seen (n + 2)) (pollUntil pid w started seen (n + 1)) := by
  induction n generalizing seen st with
  | zero =>
    refine pollUntil_congr clock seen st fun _ st' t ht hopen _ => absurd ?_ hopen
    rw [Duration.le_iff, Duration.nanos_sub]
    rw [Duration.le_iff] at ht
    rw [Duration.nanos_sub] at henough
    omega
  | succ n ih =>
    refine pollUntil_congr clock seen st fun seen st' t ht hopen hslept => ih seen st' ?_ ?_
    · simp only [Duration.le_iff, Duration.nanos_add] at *
      omega
    · rw [Nat.succ_mul] at henough
      simp only [Duration.le_iff, Duration.nanos_add, Duration.nanos_sub, Duration.nanos_min] at *
      omega

/-- So a watch is never ended by the number of its polls. -/
theorem pollUntil_polls (clock : SteadyClock host) (pid : Pid) {w : Watch}
    (hinterval : .zero < w.interval) {started : Instant} (seen : List Path) (st : σ)
    (hstarted : started ≤ clock.time st) (m : Nat) :
    SameFrom host st (pollUntil pid w started seen (w.polls + m))
      (pollUntil pid w started seen w.polls) := by
  induction m with
  | zero => exact .refl _
  | succ m ih =>
    have hmax : Nat.max w.interval.nanos 1 = w.interval.nanos := Nat.max_eq_left hinterval
    set n := w.window.nanos / w.interval.nanos + 1
    have hpolls : w.polls = n + 1 := by rw [Watch.polls, hmax]
    have hwindow : w.window.nanos < w.interval.nanos * n := Nat.lt_mul_div_succ _ hinterval
    have hmore : w.polls + (m + 1) = (n + m) + 2 := by omega
    have hfew : w.polls + m = (n + m) + 1 := by omega
    refine .trans ?_ ih
    rw [hmore, hfew]
    refine pollUntil_enough clock pid seen (n + m) st hstarted ?_
    rw [Nat.mul_comm] at hwindow
    rw [Nat.add_mul]
    omega

end Observation

/-- A host where every path leads to something and no process ends. -/
def Host.settled : Host Unit where
  answer r s := match r with
    | .metadata _ => (.ok ⟨.directory, 0⟩, s)
    | .pollExit _ => (.ok none, s)
    | r => Host.still.answer r s

namespace Observation

theorem settled_finds {α : Type} {d : Dialogue α} (p : Path) :
    ¬Missed p (d.journal Host.settled ()) := by
  rintro ⟨e, he⟩
  obtain ⟨_, hreply⟩ := reply_of_mem he
  cases hreply

/-- Where everything is there from the beginning, a watch with a path twice goes on all the same. -/
theorem settled_goes_on {w : Watch} (hpaths : w.paths ≠ []) (hwindow : .zero < w.window)
    (htwice : ¬AllDistinct w.paths) (pid : Pid) :
    ¬StopsComplete w.paths ((observe pid w).journal Host.settled ()) := by
  have hshort : ((look [] w.paths).run Host.settled ()).1.length ≠ w.paths.length :=
    fun hlength => htwice ((look_collects .none ()).length_eq_iff.mp hlength).1
  obtain ⟨n, hn⟩ : ∃ n, w.polls = n + 1 := ⟨_, rfl⟩
  intro hstops
  rcases pollUntil_cases Host.settled pid hpaths .zero [] n () with
    ⟨hends, -⟩ | ⟨-, i, x, st', hi, hx, hpoll⟩
  · cases hends with
    | complete h => exact hshort h
    | gone h => cases h
    | closed h => exact Nat.not_le_of_lt hwindow h
  · obtain ⟨later, hobserve⟩ := observe_journal Host.settled pid w ()
    have hjournal : (observe pid w).journal Host.settled () = ⟨.clock, Duration.zero⟩ ::
        ((pollUntil pid w .zero [] w.polls).journal Host.settled () ++ [⟨.clock, later⟩]) := hobserve
    rw [hn, hpoll, List.append_assoc, ← List.cons_append] at hjournal
    set first : List Exchange := ⟨.clock, Duration.zero⟩ ::
      ((look [] w.paths).journal Host.settled () ++ i)
    have hawake : ∀ y ∈ first, y.request.sleeps = false :=
      List.forall_mem_cons.mpr ⟨rfl, List.forall_mem_append.mpr ⟨look_awake _ _ _ _, hi⟩⟩
    obtain ⟨p, -, hmissed⟩ := hstops first x _ hjournal hx
    rw [polls_awake hawake, List.forall_mem_singleton] at hmissed
    refine settled_finds p (hmissed.mono (j := (observe pid w).journal Host.settled ()) ?_)
    rw [hjournal]
    exact List.subset_append_left _ _

/-- A watch ends with the poll that completes it, on every host, exactly when no path is watched
twice. -/
theorem observe_stops_iff {paths : List Path} (hpaths : paths ≠ []) :
    AllDistinct paths ↔ ∀ (σ : Type) (host : Host σ) (st : σ) (pid : Pid) (window interval : Duration),
      StopsComplete paths ((observe pid ⟨paths, window, interval⟩).journal host st) := by
  constructor
  · intro hdistinct σ host st pid window interval
    exact observe_stopsComplete (w := ⟨paths, window, interval⟩) hdistinct hpaths st
  · intro hstops
    by_contra htwice
    have hwindow : Duration.zero < Duration.ofSecs 1 := by decide
    exact settled_goes_on (w := ⟨paths, .ofSecs 1, .ofMillis 10⟩) hpaths hwindow htwice 7
      (hstops _ _ _ _ _ _)

/-- The watch of two paths goes on only as long as one of them is missing. -/
theorem observe_stops_iff_pair :
    StopsComplete [.ofString "root/data", .ofString "root/pid"]
      ((observe 7 ⟨[.ofString "root/data", .ofString "root/pid"], .ofMillis 600, .ofMillis 10⟩).journal
        Host.settled ()) :=
  (observe_stops_iff (by decide)).mp (by decide) Unit Host.settled () 7 (.ofMillis 600) (.ofMillis 10)

/-- One path in two spellings is there from the beginning, and the watch goes on. -/
theorem goes_on_for_respelled :
    ¬StopsComplete [.ofString "root/data", .ofString "root/./data"]
      ((observe 7 ⟨[.ofString "root/data", .ofString "root/./data"], .ofMillis 600,
        .ofMillis 10⟩).journal Host.settled ()) :=
  settled_goes_on (w := ⟨[.ofString "root/data", .ofString "root/./data"], .ofMillis 600, .ofMillis 10⟩)
    (by decide) (by decide) (by decide) 7

end Observation

end SmokeBench
