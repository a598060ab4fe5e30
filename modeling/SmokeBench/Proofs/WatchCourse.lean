import SmokeBench.Proofs.WatchPolls

/-! The course of a watch. A poll either ends the watch, for one of three reasons, or it is followed by a
pause and by the next poll. So a watch is the list of its polls, and what it has seen, how long it took
and how often it looked is read off that list. -/

namespace SmokeBench

open Dialogue

variable {σ : Type} {host : Host σ}

namespace Observation

/-- A poll, by what was seen before it and by the state of the host in which it begins. -/
structure Poll (σ : Type) where
  seen : List Path
  start : σ

/-- Why a watch ends: it has seen all, the subject is gone or the window has passed. -/
inductive Close
  | complete
  | gone
  | closed
  deriving DecidableEq

namespace Poll

section Parts

variable (host : Host σ) (pid : Pid) (w : Watch) (started : Instant) (p : Poll σ)

/-- The state in which a poll comes to the path in this place. -/
def turn (place : Nat) : σ := ((look p.seen (w.paths.take place)).run host p.start).2

/-- What has been seen when a poll has looked at every path. -/
def found : List Path := ((look p.seen w.paths).run host p.start).1

def looked : σ := ((look p.seen w.paths).run host p.start).2

def asked : σ := ((isRunning pid).run host (p.looked host w)).2

def elapsed : Duration := (now.run host (p.asked host pid w)).1 - started

/-- Why a poll is the last one, if it is. -/
def close : Option Close :=
  if !w.paths.isEmpty && (p.found host w).length == w.paths.length then some .complete
  else if !((isRunning pid).run host (p.looked host w)).1 then some .gone
  else if w.window ≤ p.elapsed host pid w started then some .closed
  else none

/-- What is exchanged in a poll up to the test that ends the watch. A poll that does not end it passes
all three. -/
def talk : Close → List Exchange
  | .complete => (look p.seen w.paths).journal host p.start
  | .gone => (look p.seen w.paths).journal host p.start ++
      (isRunning pid).journal host (p.looked host w)
  | .closed => (look p.seen w.paths).journal host p.start ++
      ((isRunning pid).journal host (p.looked host w) ++ now.journal host (p.asked host pid w))

def pause : Duration := w.interval.min (w.window - p.elapsed host pid w started)

def next : Poll σ where
  seen := p.found host w
  start := (host.answer (.sleep (p.pause host pid w started))
    (now.run host (p.asked host pid w)).2).2

end Parts

variable {pid : Pid} {w : Watch} {started : Instant} {p : Poll σ}

theorem talk_asks {P : Request → Prop} (hlook : ∀ q ∈ w.paths, P (.metadata q))
    (hpoll : P (.pollExit pid)) (hclock : P .clock) (c : Close) :
    ∀ x ∈ p.talk host pid w c, P x.request := by
  have hlooked : ∀ x ∈ (look p.seen w.paths).journal host p.start, P x.request :=
    (look_asks hlook p.seen).journal _
  have hrunning : ∀ x ∈ (isRunning pid).journal host (p.looked host w), P x.request :=
    (isRunning_asks hpoll).journal _
  have hnow : ∀ x ∈ now.journal host (p.asked host pid w), P x.request :=
    List.forall_mem_singleton.mpr hclock
  cases c with
  | complete => exact hlooked
  | gone => exact List.forall_mem_append.mpr ⟨hlooked, hrunning⟩
  | closed =>
    exact List.forall_mem_append.mpr ⟨hlooked, List.forall_mem_append.mpr ⟨hrunning, hnow⟩⟩

theorem after_talk_closed :
    after host p.start (p.talk host pid w .closed) = (now.run host (p.asked host pid w)).2 := by
  unfold talk
  rw [after_append, after_journal, after_append]
  exact (congrArg (after host · _) (after_journal _ _)).trans (after_journal _ _)

theorem next_start : (p.next host pid w started).start =
    after host p.start (p.talk host pid w .closed ++ [⟨.sleep (p.pause host pid w started), ()⟩]) := by
  rw [after_append, after_talk_closed]
  rfl

theorem elapsed_of_close_none (h : p.close host pid w started = none) :
    ¬w.window ≤ p.elapsed host pid w started := by
  unfold close at h
  split at h
  · cases h
  · split at h
    · cases h
    · split at h
      · cases h
      · assumption

theorem elapsed_of_closed (h : p.close host pid w started = some .closed) :
    w.window ≤ p.elapsed host pid w started := by
  unfold close at h
  split at h
  · cases h
  · split at h
    · cases h
    · split at h
      · assumption
      · cases h

section Tests

variable (host pid w started p)

theorem look_yields : Yields host (look p.seen w.paths) p.start (p.found host w)
    ((look p.seen w.paths).journal host p.start) := .self _ _

theorem isRunning_yields : Yields host (isRunning pid) (p.looked host w)
    ((isRunning pid).run host (p.looked host w)).1
    ((isRunning pid).journal host (p.looked host w)) := .self _ _

theorem now_yields : Yields host now (p.asked host pid w) (now.run host (p.asked host pid w)).1
    (now.journal host (p.asked host pid w)) := .self _ _

end Tests

theorem pollUntil_last {c : Close} (h : p.close host pid w started = some c) (n : Nat) :
    Yields host (pollUntil pid w started p.seen (n + 1)) p.start (p.found host w, c == .gone)
      (p.talk host pid w c) := by
  unfold close at h
  unfold pollUntil
  split at h
  · rename_i hfull
    cases h
    exact (look_yields host w p).bind_pure (if_pos hfull)
  rename_i hshort
  split at h
  · rename_i hgone
    cases h
    refine (look_yields host w p).bind ?_
    rw [if_neg hshort]
    exact (isRunning_yields host pid w p).bind_pure (if_pos hgone)
  rename_i hthere
  split at h
  · rename_i hclosed
    cases h
    refine (look_yields host w p).bind ?_
    rw [if_neg hshort]
    refine (isRunning_yields host pid w p).bind ?_
    rw [if_neg hthere]
    exact (now_yields host pid w p).bind_pure (if_pos hclosed)
  · cases h

theorem pollUntil_again (h : p.close host pid w started = none) {n : Nat} {a : List Path × Bool}
    {j : List Exchange}
    (hrest : Yields host (pollUntil pid w started (p.next host pid w started).seen n)
      (p.next host pid w started).start a j) :
    Yields host (pollUntil pid w started p.seen (n + 1)) p.start a
      (p.talk host pid w .closed ++ ⟨.sleep (p.pause host pid w started), ()⟩ :: j) := by
  unfold close at h
  split at h
  · cases h
  rename_i hshort
  split at h
  · cases h
  rename_i hthere
  split at h
  · cases h
  rename_i hopen
  have hslept : Yields host (ask (.sleep (p.pause host pid w started)))
      (now.run host (p.asked host pid w)).2 () [⟨.sleep (p.pause host pid w started), ()⟩] := .ask rfl
  unfold pollUntil talk
  rw [List.append_assoc, List.append_assoc]
  refine (look_yields host w p).bind ?_
  rw [if_neg hshort]
  refine (isRunning_yields host pid w p).bind ?_
  rw [if_neg hthere]
  refine (now_yields host pid w p).bind ?_
  dsimp only
  split
  · rename_i hclosed
    exact absurd hclosed hopen
  · exact hslept.bind hrest

section Course

variable (host pid w started)

/-- The polls of a watch that begins with this one and has this many left. -/
def course : Nat → Poll σ → List (Poll σ)
  | 0, _ => []
  | n + 1, p =>
    match p.close host pid w started with
    | some _ => [p]
    | none => p :: course n (p.next host pid w started)

/-- What is exchanged in a poll and in the pause after it. -/
def leg (p : Poll σ) : List Exchange :=
  p.talk host pid w .closed ++ [⟨.sleep (p.pause host pid w started), ()⟩]

variable {host pid w started}

theorem course_last {c : Close} (h : p.close host pid w started = some c) (n : Nat) :
    course host pid w started (n + 1) p = [p] := by
  simp only [course, h]

theorem course_again (h : p.close host pid w started = none) (n : Nat) :
    course host pid w started (n + 1) p =
      p :: course host pid w started n (p.next host pid w started) := by
  simp only [course, h]

theorem course_all {I : Poll σ → Prop} (hp : I p)
    (hnext : ∀ q : Poll σ, I q → q.close host pid w started = none → I (q.next host pid w started))
    (n : Nat) : ∀ q ∈ course host pid w started n p, I q := by
  induction n generalizing p with
  | zero => exact fun _ h => nomatch h
  | succ n ih =>
    cases hclose : p.close host pid w started with
    | some c =>
      rw [course_last hclose]
      exact List.forall_mem_singleton.mpr hp
    | none =>
      rw [course_again hclose]
      exact List.forall_mem_cons.mpr ⟨hp, ih (hnext p hp hclose)⟩

/-- The last of these polls ends the watch by one of its tests. -/
def Closes (host : Host σ) (pid : Pid) (w : Watch) (started : Instant) (polls : List (Poll σ))
    (last : Poll σ) (c : Close) : Prop :=
  polls.getLast? = some last ∧ last.close host pid w started = some c

theorem Closes.cons {polls : List (Poll σ)} {last : Poll σ} {c : Close}
    (h : Closes host pid w started polls last c) (p : Poll σ) :
    Closes host pid w started (p :: polls) last c := by
  refine ⟨?_, h.2⟩
  rw [List.getLast?_cons, h.1]
  rfl

theorem Closes.of_again {n : Nat} {last : Poll σ} {c : Close}
    (hclose : p.close host pid w started = none)
    (h : Closes host pid w started (course host pid w started (n + 1) p) last c) :
    Closes host pid w started (course host pid w started n (p.next host pid w started)) last c := by
  obtain ⟨hlast, hreason⟩ := h
  rw [course_again hclose] at hlast
  refine ⟨?_, hreason⟩
  cases hrest : course host pid w started n (p.next host pid w started) with
  | nil =>
    rw [hrest] at hlast
    obtain rfl : p = last := Option.some.inj hlast
    rw [hclose] at hreason
    cases hreason
  | cons q qs =>
    rw [hrest] at hlast
    exact hlast

/-- A watch that ends by a test of its own comes to its last poll over the others, each with a pause, and
its result is that of the last one. -/
theorem pollUntil_closes {n : Nat} {last : Poll σ} {c : Close}
    (h : Closes host pid w started (course host pid w started n p) last c) :
    ∃ before, course host pid w started n p = before ++ [last] ∧
      after host p.start (before.flatMap (leg host pid w started)) = last.start ∧
      Yields host (pollUntil pid w started p.seen n) p.start (last.found host w, c == .gone)
        (before.flatMap (leg host pid w started) ++ last.talk host pid w c) := by
  induction n generalizing p with
  | zero => cases h.1
  | succ n ih =>
    cases hclose : p.close host pid w started with
    | some c' =>
      obtain ⟨hlast, hreason⟩ := h
      rw [course_last hclose] at hlast ⊢
      obtain rfl : p = last := Option.some.inj hlast
      obtain rfl : c' = c := Option.some.inj (hclose.symm.trans hreason)
      exact ⟨[], rfl, rfl, pollUntil_last hclose n⟩
    | none =>
      obtain ⟨before, hcourse, hstart, hyields⟩ := ih (h.of_again hclose)
      refine ⟨p :: before, ?_, ?_, ?_⟩
      · rw [course_again hclose, hcourse]
        rfl
      · rw [List.flatMap_cons, after_append, leg, ← next_start]
        exact hstart
      · have hagain := pollUntil_again hclose hyields
        rw [List.flatMap_cons, leg, List.append_assoc, List.append_assoc]
        exact hagain

theorem countP_talk (c : Close) : (p.talk host pid w c).countP (·.request.sleeps) = 0 :=
  List.countP_eq_zero.mpr fun x hx =>
    Bool.eq_false_iff.mp (talk_asks (P := (·.sleeps = false)) (fun _ _ => rfl) rfl rfl c x hx)

theorem countP_legs (before : List (Poll σ)) :
    (before.flatMap (leg host pid w started)).countP (·.request.sleeps) = before.length := by
  induction before with
  | nil => rfl
  | cons p before ih =>
    rw [List.flatMap_cons, List.countP_append, ih, leg, List.countP_append, countP_talk, List.length_cons]
    exact Nat.add_comm _ _

end Course

end Poll

theorem length_polls (j : List Exchange) :
    (polls j).length = j.countP (·.request.sleeps) + 1 := by
  induction j with
  | nil => rfl
  | cons x j ih =>
    rw [polls_cons, List.countP_cons]
    split
    · rw [List.length_cons, ih]
    · rw [List.length_modifyHead, ih]

theorem observe_yields {pid : Pid} {w : Watch} {st : σ} {started : Instant} {seen : List Path}
    {early : Bool} {j : List Exchange} (hclock : (host.answer .clock st).1 = started)
    (h : Yields host (pollUntil pid w started [] w.polls) (host.answer .clock st).2 (seen, early) j) :
    ∃ later : Instant, Yields host (observe pid w) st ⟨seen, later - started, early⟩
      (⟨.clock, started⟩ :: (j ++ [⟨.clock, later⟩])) :=
  ⟨_, (Yields.ask hclock).bind (h.bind ((Yields.self now _).bind_pure rfl))⟩

def watchPolls (host : Host σ) (pid : Pid) (w : Watch) (st : σ) : List (Poll σ) :=
  Poll.course host pid w (host.answer .clock st).1 w.polls ⟨[], (host.answer .clock st).2⟩

theorem observe_closes {pid : Pid} {w : Watch} {st : σ} {started : Instant} {last : Poll σ} {c : Close}
    (hclock : (host.answer .clock st).1 = started)
    (h : Poll.Closes host pid w started (watchPolls host pid w st) last c) :
    ∃ (before : List (Poll σ)) (later : Instant), watchPolls host pid w st = before ++ [last] ∧
      after host (host.answer .clock st).2 (before.flatMap (Poll.leg host pid w started)) = last.start ∧
      Yields host (observe pid w) st ⟨last.found host w, later - started, c == .gone⟩
        (⟨.clock, started⟩ :: ((before.flatMap (Poll.leg host pid w started) ++ last.talk host pid w c) ++
          [⟨.clock, later⟩])) := by
  subst hclock
  obtain ⟨before, hbefore, hreach, hpolls⟩ := Poll.pollUntil_closes h
  obtain ⟨later, hyields⟩ := observe_yields rfl hpolls
  exact ⟨before, later, hbefore, hreach, hyields⟩

theorem length_polls_observe {pid : Pid} {w : Watch} {st : σ} {started : Instant} {last : Poll σ}
    {c : Close} (hclock : (host.answer .clock st).1 = started)
    (h : Poll.Closes host pid w started (watchPolls host pid w st) last c) :
    (polls ((observe pid w).journal host st)).length = (watchPolls host pid w st).length := by
  obtain ⟨before, later, hbefore, -, hyields⟩ := observe_closes hclock h
  simp only [hyields.journal, hbefore, length_polls, List.length_append, List.countP_cons,
    List.countP_append, Poll.countP_legs, Poll.countP_talk]
  rfl

end Observation

end SmokeBench
