import SmokeBench.Proofs.LeaderLife
import SmokeBench.Proofs.WatchCourse

/-! What the flag of a watch tells of its subject. A poll asks for the subject only if there is a path left
to be seen, and the watch asks for the time only if the subject is still there. So the flag misses the end
of a subject whose last file the same poll has found, and it counts an end that came after the window had
closed and before the last poll. Otherwise it is right, for every way in which a watch can end. -/

namespace SmokeBench

open Dialogue

variable {σ : Type} {host : Host σ}

def LookFails (host : Host σ) (pid : Pid) (s : σ) : Prop :=
  ∃ e, (host.answer (.pollExit pid) s).1 = .error e

/-- A leader with the moment at which it has left, on a clock that never goes back. -/
structure Departure (host : Host σ) (pid : Pid) extends Leader host pid where
  left : σ → Option Instant
  known : ∀ s, (left s).isSome = (ended s).isSome
  forward : ∀ r s, time s ≤ time (host.answer r s).2
  past : ∀ s t, left s = some t → t ≤ time s
  keeps : ∀ r s t, left s = some t → left (host.answer r s).2 = some t
  since : ∀ r s t, left s = none → left (host.answer r s).2 = some t → time s ≤ t

namespace Departure

variable {pid : Pid} (d : Departure host pid)

/-- The subject has left, and it did so before this moment. -/
def LeftBefore (limit : Instant) (s : σ) : Prop := ∃ t, d.left s = some t ∧ t < limit

/-- A look at the subject does not find it running. -/
def Absent (s : σ) : Prop := (d.left s).isSome ∨ LookFails host pid s

theorem keeps_after {s : σ} {t : Instant} (h : d.left s = some t) (j : List Exchange) :
    d.left (after host s j) = some t := by
  induction j generalizing s with
  | nil => exact h
  | cons x j ih => exact ih (d.keeps x.request s t h)

theorem since_after {s : σ} {t : Instant} (hthere : d.left s = none) {j : List Exchange}
    (hleft : d.left (after host s j) = some t) : d.time s ≤ t := by
  induction j generalizing s with
  | nil => cases hthere.symm.trans hleft
  | cons x j ih =>
    cases hnext : d.left (host.answer x.request s).2 with
    | none => exact Nat.le_trans (d.forward x.request s) (ih hnext hleft)
    | some t' =>
      obtain rfl := Option.some.inj ((d.keeps_after hnext j).symm.trans hleft)
      exact d.since x.request s t' hthere hnext

theorem isRunning_false_iff (s : σ) :
    ((Observation.isRunning pid).run host s).1 = false ↔ d.Absent s := by
  unfold Absent LookFails Observation.isRunning
  rw [run_bind, run_ask, d.known]
  cases hreply : (host.answer (.pollExit pid) s).1 with
  | error e => exact iff_of_true rfl (.inr ⟨e, rfl⟩)
  | ok known =>
    have hended : known = d.ended s := d.polled s known hreply
    rw [← hended]
    cases known <;> simp

theorem there_of_isRunning {s : σ} (h : ((Observation.isRunning pid).run host s).1 = true) :
    d.left s = none := by
  rw [← Option.not_isSome_iff_eq_none]
  intro hleft
  have hfalse := (d.isRunning_false_iff s).mpr (.inl hleft)
  cases h.symm.trans hfalse

theorem LeftBefore.absent {d : Departure host pid} {limit : Instant} {s : σ}
    (h : d.LeftBefore limit s) : d.Absent s := by
  obtain ⟨t, ht, -⟩ := h
  exact .inl (by rw [ht]; rfl)

end Departure

namespace Observation

variable {pid : Pid} {w : Watch} {started : Instant}

def Complete (o : Observation) (w : Watch) : Prop := w.paths ≠ [] ∧ o.seen.length = w.paths.length

namespace Poll

/-- A poll ends its watch for the subject if there is something left to be seen and a look does not find
the subject running. -/
theorem close_gone_iff (p : Poll σ) : p.close host pid w started = some .gone ↔
    ¬(w.paths ≠ [] ∧ (p.found host w).length = w.paths.length) ∧
      ((isRunning pid).run host (p.looked host w)).1 = false := by
  have hfull : (!w.paths.isEmpty && (p.found host w).length == w.paths.length) = true ↔
      w.paths ≠ [] ∧ (p.found host w).length = w.paths.length := by simp
  unfold close
  split
  · rename_i h
    exact iff_of_false nofun fun hgone => hgone.1 (hfull.mp h)
  rename_i hshort
  rw [hfull] at hshort
  split
  · rename_i h
    exact iff_of_true rfl ⟨hshort, by simpa using h⟩
  · rename_i h
    refine iff_of_false ?_ fun hgone => h (by rw [hgone.2]; rfl)
    split <;> nofun

theorem isRunning_of_close_none {p : Poll σ} (h : p.close host pid w started = none) :
    ((isRunning pid).run host (p.looked host w)).1 = true := by
  unfold close at h
  split at h
  · cases h
  · split at h
    · cases h
    · rename_i hthere
      simpa using hthere

variable (host pid w started) in
/-- The last poll of a watch tells what was seen and whether the subject ended it, also if the watch ends
because it has no polls left. -/
theorem pollUntil_getLast (n : Nat) (p : Poll σ) :
    ∃ last, (p.course host pid w started (n + 1)).getLast? = some last ∧
      ((pollUntil pid w started p.seen (n + 1)).run host p.start).1 =
        (last.found host w, last.close host pid w started == some .gone) := by
  induction n generalizing p with
  | zero =>
    cases hclose : p.close host pid w started with
    | some c =>
      rw [course_last hclose, (pollUntil_last hclose 0).result]
      exact ⟨p, rfl, by rw [hclose]; rfl⟩
    | none =>
      rw [course_again hclose, (pollUntil_again hclose (.self _ _)).result]
      exact ⟨p, rfl, by rw [hclose]; rfl⟩
  | succ n ih =>
    cases hclose : p.close host pid w started with
    | some c =>
      rw [course_last hclose, (pollUntil_last hclose (n + 1)).result]
      exact ⟨p, rfl, by rw [hclose]; rfl⟩
    | none =>
      obtain ⟨last, hlast, hresult⟩ := ih (p.next host pid w started)
      rw [course_again hclose, (pollUntil_again hclose (.self _ _)).result]
      exact ⟨last, by rw [List.getLast?_cons, hlast]; rfl, hresult⟩

variable (host pid w started) in
theorem course_head (n : Nat) (p : Poll σ) :
    (p.course host pid w started (n + 1)).head? = some p := by
  cases hclose : p.close host pid w started with
  | some c => rw [course_last hclose, List.head?_cons]
  | none => rw [course_again hclose, List.head?_cons]

theorem course_next (n : Nat) (p : Poll σ) {before later : List (Poll σ)} {q q' : Poll σ}
    (h : p.course host pid w started n = before ++ q :: q' :: later) :
    q.close host pid w started = none ∧ q' = q.next host pid w started := by
  induction n generalizing p before with
  | zero => simp [course] at h
  | succ n ih =>
    cases hclose : p.close host pid w started with
    | some c =>
      rw [course_last hclose] at h
      have hlength := congrArg List.length h
      simp only [List.length_append, List.length_cons, List.length_nil] at hlength
      omega
    | none =>
      rw [course_again hclose] at h
      cases before with
      | nil =>
        obtain ⟨rfl, hrest⟩ := List.cons.inj h
        refine ⟨hclose, ?_⟩
        cases n with
        | zero => cases hrest
        | succ n =>
          have hhead := course_head host pid w started n (p.next host pid w started)
          rw [hrest] at hhead
          exact Option.some.inj hhead
      | cons p' before =>
        obtain ⟨rfl, hrest⟩ := List.cons.inj h
        exact ih _ hrest

variable (host pid w started) in
theorem looked_next (q : Poll σ) : ∃ j, (q.next host pid w started).looked host w =
    after host (q.looked host w) j := by
  let rest : Dialogue (List Path) := isRunning pid >>= fun _ => now >>= fun _ =>
    ask (.sleep (q.pause host pid w started)) >>= fun _ => look (q.found host w) w.paths
  refine ⟨rest.journal host (q.looked host w), ?_⟩
  rw [after_journal, run_bind, run_bind, run_bind, run_ask]
  rfl

end Poll

/-- What the flag of a watch tells. The window closes at `limit`, and the last poll has come to the subject
in the state `there`. -/
structure Flags (d : Departure host pid) (w : Watch) (limit : Instant) (o : Observation) (there : σ) :
    Prop where
  set_iff : o.exitedEarly = true ↔ ¬o.Complete w ∧ d.Absent there
  right_iff : (o.exitedEarly = true ↔ d.LeftBefore limit there) ↔
    (o.Complete w → ¬d.LeftBefore limit there) ∧
      (¬o.Complete w → d.Absent there → d.LeftBefore limit there)
  late : o.exitedEarly = true → ¬LookFails host pid there → ¬d.LeftBefore limit there →
    limit ≤ d.time there

theorem Flags.of_set_iff {d : Departure host pid} {limit : Instant} {o : Observation} {there : σ}
    (h : o.exitedEarly = true ↔ ¬o.Complete w ∧ d.Absent there) : Flags d w limit o there where
  set_iff := h
  right_iff := by
    have habsent : d.LeftBefore limit there → d.Absent there := (·.absent)
    rw [h]
    by_cases hcomplete : o.Complete w
    · simp only [hcomplete, not_true, false_and, false_iff, true_imp_iff, false_imp_iff, and_true]
    · simp only [hcomplete, not_false_eq_true, true_and, true_imp_iff, false_imp_iff]
      exact ⟨fun hiff => hiff.mp, fun himp => ⟨himp, habsent⟩⟩
  late hset hlooked hlate := by
    obtain ⟨t, ht⟩ := Option.isSome_iff_exists.mp ((h.mp hset).2.resolve_right hlooked)
    have hlimit : limit ≤ t := Nat.le_of_not_lt fun hlt => hlate ⟨t, ht, hlt⟩
    exact Nat.le_trans hlimit (d.past there t ht)

/-- The flag is set exactly if something was left to be seen and the last poll has not found the subject
running. So it tells whether the subject had left by then and before the window closed, unless the watch
was complete and the subject had, or it was not and the subject is gone for another reason: it has left
too late, and then the last poll was late as well, or it could not be looked at. An end that the last poll
finds came after the poll before it. -/
theorem observe_flags_exit (d : Departure host pid) (w : Watch) (st : σ) :
    ∃ last, (watchPolls host pid w st).getLast? = some last ∧
      Flags d w (d.time st + w.window) ((observe pid w).run host st).1 (last.looked host w) ∧
      ∀ before previous, watchPolls host pid w st = before ++ [previous, last] →
        ∀ t, d.left (last.looked host w) = some t → d.time (previous.looked host w) ≤ t := by
  obtain ⟨last, hlast, hresult⟩ := Poll.pollUntil_getLast host pid w (host.answer .clock st).1
    (w.polls - 1) ⟨[], (host.answer .clock st).2⟩
  obtain ⟨later, hyields⟩ := observe_yields (j := _) rfl ⟨hresult, rfl⟩
  refine ⟨last, hlast, .of_set_iff ?_, fun before previous hpolls t ht => ?_⟩
  · rw [hyields.result, ← d.isRunning_false_iff]
    exact beq_iff_eq.trans (Poll.close_gone_iff last)
  · obtain ⟨hclose, rfl⟩ := Poll.course_next _ _ hpolls
    obtain ⟨j, hj⟩ := Poll.looked_next host pid w (host.answer .clock st).1 previous
    rw [hj] at ht
    exact d.since_after (d.there_of_isRunning (Poll.isRunning_of_close_none hclose)) ht

end Observation

/-- A host where something appears at every path at one moment and every subject leaves at another. -/
def Host.leaving (appears leaves : Instant) : Host Instant where
  answer r now := match r with
    | .clock => (now, now)
    | .sleep span => ((), now + span)
    | .metadata _ => (if appears ≤ now then .ok ⟨.file, 0⟩ else .error .notFound, now)
    | .pollExit _ => (.ok (if leaves ≤ now then some (.exited 0) else none), now)
    | .awaitExit _ deadline =>
      (.ok (if leaves ≤ now.max deadline then some (.exited 0) else none), now.max deadline)
    | r => Host.still.answer r now

theorem Host.leaving_forward {appears leaves : Instant} (r : Request) (now : Instant) :
    now ≤ ((leaving appears leaves).answer r now).2 := by
  cases r with
  | sleep span => exact Nat.le_add_right _ _
  | awaitExit pid deadline => exact Duration.le_max_left now deadline
  | _ => exact Nat.le_refl _

def Departure.leaving (appears leaves : Instant) (pid : Pid) :
    Departure (Host.leaving appears leaves) pid where
  time := id
  ended now := if leaves ≤ now then some (.exited 0) else none
  left now := if leaves ≤ now then some leaves else none
  read _ := rfl
  stays r now h := by
    have hleft : leaves ≤ now := Option.isSome_ite.mp h
    have hlater : leaves ≤ ((Host.leaving appears leaves).answer r now).2 :=
      Nat.le_trans hleft (Host.leaving_forward r now)
    rw [if_pos hleft, if_pos hlater]
  polled now known h := (Except.ok.inj h).symm
  awaited deadline now known h := (Except.ok.inj h).symm
  patient deadline now h := Duration.le_max_right now deadline
  known now := by split <;> rfl
  forward := Host.leaving_forward
  past now t h := by
    obtain ⟨hleft, ⟨⟩⟩ := Option.ite_none_right_eq_some.mp h
    exact hleft
  keeps r now t h := by
    obtain ⟨hleft, ⟨⟩⟩ := Option.ite_none_right_eq_some.mp h
    exact if_pos (Nat.le_trans hleft (Host.leaving_forward r now))
  since r now t h hleft := by
    obtain ⟨-, ⟨⟩⟩ := Option.ite_none_right_eq_some.mp hleft
    rw [ite_eq_right_iff] at h
    exact Nat.le_of_not_le fun hearly => nomatch h hearly

theorem Departure.leaving_leftBefore {appears leaves : Instant} {pid : Pid} {limit : Instant}
    {s : Instant} :
    (Departure.leaving appears leaves pid).LeftBefore limit s ↔ leaves ≤ s ∧ leaves < limit := by
  constructor
  · rintro ⟨t, ht, hlimit⟩
    obtain ⟨hleft, ⟨⟩⟩ := Option.ite_none_right_eq_some.mp ht
    exact ⟨hleft, hlimit⟩
  · rintro ⟨hleft, hlimit⟩
    exact ⟨leaves, if_pos hleft, hlimit⟩

namespace Observation

/-- The file is there and the subject has left before the watch begins, and the flag is not set. -/
theorem complete_watch_hides_exit :
    let host := Host.leaving .zero .zero
    let w : Watch := ⟨[.ofString "made.pid"], .ofSecs 5, .ofMillis 10⟩
    ∃ last, (watchPolls host 7 w .zero).getLast? = some last ∧
      ¬(((observe 7 w).run host .zero).1.exitedEarly = true ↔
        (Departure.leaving .zero .zero 7).LeftBefore (.ofSecs 5) (last.looked host w)) := by
  intro host w
  refine ⟨_, rfl, fun h => ?_⟩
  have hset := h.mpr (Departure.leaving_leftBefore.mpr ⟨by decide, by decide⟩)
  cases hset

/-- The subject leaves when the window closes, and the last poll is made then: the flag tells of an end
that came too late. -/
theorem exit_at_limit_flagged :
    let d := Departure.leaving (.ofSecs 1) (.ofMillis 20) 7
    let w : Watch := ⟨[.ofString "made.pid"], .ofMillis 20, .ofMillis 10⟩
    let o := ((observe 7 w).run (Host.leaving (.ofSecs 1) (.ofMillis 20)) .zero).1
    ∃ there, Flags d w (.ofMillis 20) o there ∧ o.exitedEarly = true ∧
      ¬d.LeftBefore (.ofMillis 20) there ∧ .ofMillis 20 ≤ d.time there := by
  intro d w o
  have hset : o.exitedEarly = true := by decide +kernel
  have hlimit : d.time .zero + w.window = .ofMillis 20 := by decide
  obtain ⟨last, -, hflags, -⟩ := observe_flags_exit d w .zero
  rw [hlimit] at hflags
  have hlate (there : Instant) : ¬d.LeftBefore (.ofMillis 20) there := fun h =>
    absurd (Departure.leaving_leftBefore.mp h).2 (by decide)
  refine ⟨_, hflags, hset, hlate _, hflags.late hset ?_ (hlate _)⟩
  rintro ⟨e, herror⟩
  cases herror

end Observation

end SmokeBench
