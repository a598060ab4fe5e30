import Mathlib.Algebra.Order.Floor.Div
import SmokeBench.Proofs.WatchLooks

/-! How long a watch takes where nothing but its sleeps takes time. Each pause brings it an interval closer
to the end of the window, or to the end itself. So it ends by a test of its own after as many polls as the
window has intervals, and one more: the polls that the loop allows are never used up. A watch that ends
with its window has looked once more when the window was over, and with exact sleeps it is not a moment
longer. -/

namespace SmokeBench

open Dialogue

variable {σ : Type} {host : Host σ}

/-- A clock on which nothing takes time but sleeps, as far as a watch can tell. -/
structure SleepClock (host : Host σ) extends SteadyClock host where
  still : ∀ r s, r.watches → r.sleeps = false → time (host.answer r s).2 = time s

namespace SleepClock

variable (clock : SleepClock host)

def Exact : Prop := ∀ span s, clock.time (host.answer (.sleep span) s).2 = clock.time s + span

/-- Every sleep that was asked for from this state on is to be over by then. -/
def SleepsBy (limit : Instant) : σ → List Exchange → Prop
  | _, [] => True
  | s, x :: j => (∀ span, x.request = .sleep span → clock.time s + span ≤ limit) ∧
      SleepsBy limit (host.answer x.request s).2 j

/-- The last poll of these is made at that moment or later, and it asks for every path that was not found
before. -/
def LooksLate (limit : Instant) (paths : List Path) (s : σ) (j : List Exchange) : Prop :=
  ∃ earlier poll, j = earlier ++ poll ∧ (Observation.polls j).getLast? = some poll ∧
    limit ≤ clock.time (after host s earlier) ∧
    ∀ p ∈ paths, Sighted earlier p ∨ Observation.AskedFor paths poll p

/-- What takes no time in a watch. -/
def Quick (r : Request) : Prop := r.watches ∧ r.sleeps = false

variable {clock} {limit : Instant}

theorem time_run {α : Type} {d : Dialogue α} (h : d.Only Quick) (s : σ) :
    clock.time (d.run host s).2 = clock.time s :=
  h.invariant (I := fun s' => clock.time s' = clock.time s)
    (fun r s' hr hs' => (clock.still r s' hr.1 hr.2).trans hs') rfl

theorem time_after {j : List Exchange} (h : ∀ x ∈ j, Quick x.request) (s : σ) :
    clock.time (after host s j) = clock.time s := by
  induction j generalizing s with
  | nil => rfl
  | cons x j ih =>
    obtain ⟨hx, hj⟩ := List.forall_mem_cons.mp h
    exact (ih hj _).trans (clock.still _ s hx.1 hx.2)

theorem sleepsBy_append {s : σ} {i j : List Exchange} :
    clock.SleepsBy limit s (i ++ j) ↔
      clock.SleepsBy limit s i ∧ clock.SleepsBy limit (after host s i) j := by
  induction i generalizing s with
  | nil => exact (iff_of_eq (true_and _)).symm
  | cons x i ih => exact (and_congr_right fun _ => ih).trans and_assoc.symm

theorem sleepsBy_quick {j : List Exchange} (h : ∀ x ∈ j, Quick x.request) (s : σ) :
    clock.SleepsBy limit s j := by
  induction j generalizing s with
  | nil => trivial
  | cons x j ih =>
    obtain ⟨hx, hj⟩ := List.forall_mem_cons.mp h
    refine ⟨fun span hspan => ?_, ih hj _⟩
    rw [hspan] at hx
    cases hx.2

def stubborn : SleepClock Host.stubborn where
  toSteadyClock := .stubborn
  still r now hwatches hsleeps := by
    cases r with
    | sleep span => cases hsleeps
    | metadata p | clock | pollExit pid => rfl
    | _ => cases hwatches

end SleepClock

namespace Observation

open SleepClock

variable {clock : SleepClock host} {pid : Pid} {w : Watch} {started limit : Instant} {p : Poll σ}

theorem look_quick (seen paths : List Path) : (look seen paths).Only Quick :=
  look_asks (fun _ _ => ⟨rfl, rfl⟩) seen

theorem isRunning_quick (pid : Pid) : (isRunning pid).Only Quick := isRunning_asks ⟨rfl, rfl⟩

namespace Poll

theorem talk_quick (c : Close) : ∀ x ∈ p.talk host pid w c, Quick x.request :=
  talk_asks (fun _ _ => ⟨rfl, rfl⟩) ⟨rfl, rfl⟩ ⟨rfl, rfl⟩ c

theorem time_turn (place : Nat) : clock.time (p.turn host w place) = clock.time p.start :=
  time_run (look_quick _ _) _

variable (clock) in
theorem elapsed_eq : p.elapsed host pid w started = clock.time p.start - started := by
  have hasked : clock.time (p.asked host pid w) = clock.time p.start :=
    (time_run (isRunning_quick pid) _).trans (time_run (look_quick _ _) _)
  have hread : (now.run host (p.asked host pid w)).1 = clock.time (p.asked host pid w) := clock.read _
  rw [elapsed, hread, hasked]

theorem time_before_pause :
    clock.time (now.run host (p.asked host pid w)).2 = clock.time p.start := by
  rw [← after_talk_closed]
  exact time_after (talk_quick .closed) _

theorem time_next_le :
    clock.time p.start + p.pause host pid w started ≤ clock.time (p.next host pid w started).start := by
  have hslept := clock.slept (p.pause host pid w started) (now.run host (p.asked host pid w)).2
  rwa [time_before_pause] at hslept

theorem time_next (hexact : clock.Exact) : clock.time (p.next host pid w started).start =
    clock.time p.start + p.pause host pid w started := by
  have hslept := hexact (p.pause host pid w started) (now.run host (p.asked host pid w)).2
  rwa [time_before_pause] at hslept

/-- With this many intervals left the watch ends by itself, with one poll more than that at most. -/
theorem course_closes (clock : SleepClock host) (n : Nat) {m : Nat} {p : Poll σ}
    (hstarted : started ≤ clock.time p.start) (hmn : m < n)
    (hroom : w.window.nanos ≤ (clock.time p.start - started).nanos + m * w.interval.nanos) :
    (p.course host pid w started n).length ≤ m + 1 ∧
      ∃ last c, Closes host pid w started (p.course host pid w started n) last c := by
  -- on the polls left: a pause uses up one interval of the room, or brings the clock to the limit
  induction n generalizing m p with
  | zero => cases hmn
  | succ n ih =>
    cases hclose : p.close host pid w started with
    | some c =>
      rw [course_last hclose]
      exact ⟨Nat.le_add_left 1 m, p, c, rfl, hclose⟩
    | none =>
      have hopen := elapsed_of_close_none hclose
      have hnext : clock.time p.start + p.pause host pid w started ≤
          clock.time (p.next host pid w started).start := time_next_le
      rw [course_again hclose]
      cases m with
      | zero =>
        rw [elapsed_eq clock, Duration.le_iff] at hopen
        omega
      | succ m =>
        have hlater : started ≤ clock.time (p.next host pid w started).start :=
          Nat.le_trans hstarted (Nat.le_trans (Nat.le_add_right _ _) hnext)
        have hless : w.window.nanos ≤
            (clock.time (p.next host pid w started).start - started).nanos + m * w.interval.nanos := by
          rw [pause, elapsed_eq clock] at hnext
          rw [Nat.succ_mul] at hroom
          simp only [Duration.le_iff, Duration.nanos_add, Duration.nanos_sub, Duration.nanos_min] at *
          omega
        obtain ⟨hlength, last, c, hlast⟩ := ih hlater (Nat.lt_of_succ_lt_succ hmn) hless
        exact ⟨Nat.succ_le_succ hlength, last, c, hlast.cons p⟩

theorem pause_le_limit (h : clock.time p.start ≤ started + w.window) :
    clock.time p.start + p.pause host pid w started ≤ started + w.window := by
  rw [pause, elapsed_eq clock]
  simp only [Duration.le_iff, Duration.nanos_add, Duration.nanos_sub, Duration.nanos_min] at h ⊢
  omega

theorem pollUntil_sleepsBy (hexact : clock.Exact) (n : Nat) {p : Poll σ}
    (h : clock.time p.start ≤ started + w.window) :
    clock.SleepsBy (started + w.window) p.start
      ((pollUntil pid w started p.seen n).journal host p.start) := by
  induction n generalizing p with
  | zero => trivial
  | succ n ih =>
    cases hclose : p.close host pid w started with
    | some c =>
      rw [(pollUntil_last hclose n).journal]
      exact sleepsBy_quick (talk_quick c) _
    | none =>
      rw [(pollUntil_again hclose (.self _ _)).journal, sleepsBy_append, after_talk_closed]
      have hnext : clock.time (p.next host pid w started).start ≤ started + w.window := by
        rw [time_next hexact]
        exact pause_le_limit h
      refine ⟨sleepsBy_quick (talk_quick .closed) _, fun span hspan => ?_, ih hnext⟩
      obtain rfl := Request.sleep.inj hspan
      rw [time_before_pause]
      exact pause_le_limit h

end Poll

theorem room_lt_polls {w : Watch} (hinterval : .zero < w.interval) :
    w.window.nanos ⌈/⌉ w.interval.nanos < w.polls := by
  have hmax : Nat.max w.interval.nanos 1 = w.interval.nanos := Nat.max_eq_left hinterval
  have hwindow : w.window.nanos < w.interval.nanos * (w.window.nanos / w.interval.nanos + 1) :=
    Nat.lt_mul_div_succ _ hinterval
  have hroom : w.window.nanos ⌈/⌉ w.interval.nanos ≤ w.window.nanos / w.interval.nanos + 1 :=
    (ceilDiv_le_iff_le_mul hinterval).mpr (Nat.le_of_lt hwindow)
  rw [Watch.polls, hmax]
  exact Nat.lt_succ_of_le hroom

section Window

variable (clock) (pid : Pid) (w : Watch) (st : σ)

theorem watchPolls_all {I : Poll σ → Prop}
    (hfirst : ∀ p : Poll σ, clock.time p.start = clock.time st → I p)
    (hnext : ∀ q : Poll σ, I q → I (q.next host pid w (clock.time st))) :
    ∀ q ∈ watchPolls host pid w st, I q := by
  rw [← clock.read st] at hnext
  exact Poll.course_all (hfirst _ (clock.still .clock st rfl rfl)) (fun q hq _ => hnext q hq) w.polls

theorem watchPolls_since : ∀ q ∈ watchPolls host pid w st, clock.time st ≤ clock.time q.start := by
  refine watchPolls_all clock pid w st (fun p hp => hp ▸ Nat.le_refl _) fun q hq => ?_
  exact Nat.le_trans hq (Nat.le_trans (Nat.le_add_right _ _) Poll.time_next_le)

theorem watchPolls_within (hexact : clock.Exact) :
    ∀ q ∈ watchPolls host pid w st, clock.time q.start ≤ clock.time st + w.window := by
  refine watchPolls_all clock pid w st (fun p hp => hp ▸ Nat.le_add_right _ _) fun q hq => ?_
  rw [Poll.time_next hexact]
  exact Poll.pause_le_limit hq

theorem watchPolls_closes (hinterval : .zero < w.interval) :
    (watchPolls host pid w st).length ≤ w.window.nanos ⌈/⌉ w.interval.nanos + 1 ∧
      ∃ last c, Poll.Closes host pid w (clock.time st) (watchPolls host pid w st) last c := by
  have hstart : clock.time (host.answer .clock st).2 = clock.time st := clock.still .clock st rfl rfl
  have hroom : w.window.nanos ≤ w.window.nanos ⌈/⌉ w.interval.nanos * w.interval.nanos := by
    rw [Nat.mul_comm]
    exact (ceilDiv_le_iff_le_mul hinterval).mp (Nat.le_refl _)
  rw [watchPolls, clock.read st]
  refine Poll.course_closes clock w.polls ?_ (room_lt_polls hinterval) ?_
  · exact hstart ▸ Nat.le_refl _
  · exact Nat.le_trans hroom (Nat.le_add_left _ _)

theorem observe_sleepsBy (hexact : clock.Exact) :
    clock.SleepsBy (clock.time st + w.window) st ((observe pid w).journal host st) := by
  have hstart : clock.time (host.answer .clock st).2 = clock.time st := clock.still .clock st rfl rfl
  obtain ⟨later, hyields⟩ := observe_yields (clock.read st) (.self (pollUntil pid w _ [] w.polls) _)
  rw [hyields.journal]
  refine ⟨nofun, sleepsBy_append.mpr ⟨?_, sleepsBy_quick ?_ _⟩⟩
  · exact Poll.pollUntil_sleepsBy (p := ⟨[], (host.answer .clock st).2⟩) hexact _
      (hstart ▸ Nat.le_add_right _ _)
  · exact List.forall_mem_singleton.mpr ⟨rfl, rfl⟩

variable {pid w st} {last : Poll σ} {c : Close}

theorem time_observe (hlast : Poll.Closes host pid w (clock.time st) (watchPolls host pid w st) last c) :
    clock.time ((observe pid w).run host st).2 = clock.time last.start := by
  obtain ⟨before, later, -, hreach, hyields⟩ := observe_closes (clock.read st) hlast
  rw [hyields.state]
  show clock.time (after host (host.answer .clock st).2 ((_ ++ _) ++ _)) = _
  rw [after_append, time_after (List.forall_mem_singleton.mpr ⟨rfl, rfl⟩), after_append, hreach,
    time_after (Poll.talk_quick c)]

theorem limit_le_turn
    (hlast : Poll.Closes host pid w (clock.time st) (watchPolls host pid w st) last .closed)
    (place : Nat) : clock.time st + w.window ≤ clock.time (last.turn host w place) := by
  have hlate := Poll.elapsed_of_closed hlast.2
  have hsince := watchPolls_since clock pid w st last (List.mem_of_getLast? hlast.1)
  rw [Poll.elapsed_eq clock] at hlate
  rw [Poll.time_turn]
  simp only [Duration.le_iff, Duration.nanos_add, Duration.nanos_sub] at hlate hsince ⊢
  omega

end Window

variable (clock pid) in
theorem observe_looksLate {w : Watch} {st : σ} {last : Poll σ}
    (hlast : Poll.Closes host pid w (clock.time st) (watchPolls host pid w st) last .closed) :
    clock.LooksLate (clock.time st + w.window) w.paths st ((observe pid w).journal host st) := by
  obtain ⟨before, earlier, poll, hpolls, hjournal, hwithin, hawake⟩ :=
    polls_last ((observe pid w).journal host st)
  have hquick : ∀ x ∈ poll, Quick x.request := fun x hx =>
    ⟨(observe_only pid w).journal st x (hjournal ▸ List.mem_append_right earlier hx), hawake x hx⟩
  have htime : clock.time (after host st earlier) = clock.time last.start := by
    rw [← time_observe clock hlast, ← after_journal, hjournal, after_append, time_after hquick]
  have hlate : clock.time st + w.window ≤ clock.time last.start := by
    have hturn : clock.time (last.turn host w 0) = clock.time last.start := Poll.time_turn 0
    exact hturn ▸ limit_le_turn clock hlast 0
  refine ⟨earlier, poll, hjournal, ?_, htime ▸ hlate, fun p hp => ?_⟩
  · rw [hpolls, List.getLast?_concat]
  · rw [← clock.read st] at hlast
    refine (observe_asksForUnfound hlast before poll [] hpolls p hp).imp_left ?_
    exact fun ⟨b, hb, hsighted⟩ => hsighted.mono (hwithin b hb)

/-- With a positive interval a watch ends by a test of its own, and so would the loop without any bound,
after as many polls as the window has intervals, rounded up, and one more. Each poll asks for all that
was not found before. If the watch ends because the window is over, it was over when the last poll
asked. With exact sleeps neither the watch nor any sleep it asks for reaches past the window. -/
theorem observe_ends (clock : SleepClock host) (pid : Pid) {w : Watch}
    (hinterval : .zero < w.interval) (st : σ) :
    let d := observe pid w
    let ps := watchPolls host pid w st
    let limit := clock.time st + w.window
    ps.length ≤ w.window.nanos ⌈/⌉ w.interval.nanos + 1 ∧
      (polls (d.journal host st)).length = ps.length ∧
      AsksForUnfound w.paths (polls (d.journal host st)) ∧
      (∃ last c, Poll.Closes host pid w (clock.time st) ps last c ∧
        (d.run host st).1.exitedEarly = (c == .gone) ∧
        (c = .closed → clock.LooksLate limit w.paths st (d.journal host st) ∧
          ∀ place, limit ≤ clock.time (last.turn host w place))) ∧
      (clock.Exact → clock.time (d.run host st).2 ≤ limit ∧
        clock.SleepsBy limit st (d.journal host st)) := by
  intro d ps limit
  obtain ⟨hlength, last, c, hlast⟩ := watchPolls_closes clock pid w st hinterval
  obtain ⟨before, later, -, -, hyields⟩ := observe_closes (clock.read st) hlast
  have hearly : (d.run host st).1.exitedEarly = (c == .gone) :=
    congrArg Observation.exitedEarly hyields.result
  have hasks : AsksForUnfound w.paths (polls (d.journal host st)) :=
    observe_asksForUnfound (by rw [clock.read st]; exact hlast)
  refine ⟨hlength, length_polls_observe (clock.read st) hlast, hasks, ⟨last, c, hlast, hearly, ?_⟩, ?_⟩
  · rintro rfl
    exact ⟨observe_looksLate clock pid hlast, limit_le_turn clock hlast⟩
  · intro hexact
    have hend : clock.time (d.run host st).2 = clock.time last.start := time_observe clock hlast
    rw [hend]
    exact ⟨watchPolls_within clock pid w st hexact last (List.mem_of_getLast? hlast.1),
      observe_sleepsBy clock pid w st hexact⟩

/-- Four polls, the last after a pause that is cut short. -/
theorem observe_ends_uneven :
    let w : Watch := ⟨[.ofString "root/pid"], .ofMillis 250, .ofMillis 100⟩
    .zero < w.interval ∧ (watchPolls Host.stubborn 7 w .zero).length ≤ 4 ∧
      SleepClock.stubborn.LooksLate (.ofMillis 250) w.paths .zero
        ((observe 7 w).journal Host.stubborn .zero) ∧
      SleepClock.stubborn.Exact ∧
      ((observe 7 w).run Host.stubborn .zero).2 ≤ .ofMillis 250 ∧
      SleepClock.stubborn.SleepsBy (.ofMillis 250) .zero ((observe 7 w).journal Host.stubborn .zero) := by
  intro w
  have hinterval : .zero < w.interval := by decide
  have hexact : SleepClock.stubborn.Exact := fun _ _ => rfl
  have hintervals : w.window.nanos ⌈/⌉ w.interval.nanos = 3 := by
    rw [Nat.ceilDiv_eq_add_pred_div]
    decide
  have hlimit : SleepClock.stubborn.time .zero + w.window = .ofMillis 250 := by decide
  have hclosed : (watchPolls Host.stubborn 7 w .zero).getLast?.bind
      (·.close Host.stubborn 7 w (SleepClock.stubborn.time .zero)) = some .closed := by
    decide +kernel
  obtain ⟨hlength, -, -, ⟨last, c, hlast, -, hlate⟩, hwithin⟩ :=
    observe_ends .stubborn 7 hinterval .zero
  rw [hintervals] at hlength
  rw [hlimit] at hwithin hlate
  rw [hlast.1, Option.bind_some, hlast.2] at hclosed
  exact ⟨hinterval, hlength, (hlate (Option.some.inj hclosed)).1, hexact, hwithin hexact⟩

end Observation

end SmokeBench
