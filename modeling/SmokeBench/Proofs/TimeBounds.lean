import Mathlib.Tactic.Set
import SmokeBench.Proofs.Requests

/-! How long a subject can hold up the bench. On a virtual clock a wait goes on until its deadline
at most and nothing else takes time, whatever the subject does: it may ignore every signal, never
end and never close a pipe. The waits of a run follow each other, so their spans add up; the two
pipes share one deadline and count once. -/

namespace SmokeBench

open Dialogue

namespace Duration

variable {a b : Duration}

theorem le_iff : a ≤ b ↔ a.nanos ≤ b.nanos := Iff.rfl

@[simp] theorem nanos_add : (a + b).nanos = a.nanos + b.nanos := rfl

@[simp] theorem nanos_sub : (a - b).nanos = a.nanos - b.nanos := rfl

theorem nanos_max : (a.max b).nanos = Nat.max a.nanos b.nanos := by
  unfold max
  split
  · rename_i h
    exact (Nat.max_eq_right h).symm
  · rename_i h
    exact (Nat.max_eq_left (Nat.le_of_not_le h)).symm

theorem nanos_min : (a.min b).nanos = Min.min a.nanos b.nanos := by
  unfold min
  split
  · rename_i h
    exact (Nat.min_eq_left h).symm
  · rename_i h
    exact (Nat.min_eq_right (Nat.le_of_not_le h)).symm

theorem le_max_left (a b : Duration) : a ≤ a.max b := by
  rw [le_iff, nanos_max]
  exact Nat.le_max_left _ _

theorem le_max_right (a b : Duration) : b ≤ a.max b := by
  rw [le_iff, nanos_max]
  exact Nat.le_max_right _ _

end Duration

namespace Request

/-- The latest moment at which a request that is put now is answered. -/
def latest (now : Instant) : Request → Instant
  | awaitExit _ deadline | drain _ _ deadline => now.max deadline
  | sleep span => now + span
  | _ => now

def prompt : Request → Bool
  | awaitExit _ _ | drain _ _ _ | sleep _ => false
  | _ => true

def drains : Request → Bool
  | drain _ _ _ => true
  | _ => false

theorem latest_of_prompt {r : Request} (h : r.prompt) (now : Instant) : r.latest now = now := by
  cases r <;> first | rfl | cases h

end Request

variable {σ α β : Type} {host : Host σ}

/-- The time of a host. A timer never fires late, and what needs no timer takes no time. -/
structure VirtualClock (host : Host σ) where
  time : σ → Instant
  read : ∀ s, (host.answer .clock s).1 = time s
  forward : ∀ r s, time s ≤ time (host.answer r s).2
  punctual : ∀ r s, time (host.answer r s).2 ≤ r.latest (time s)

namespace VirtualClock

variable (clock : VirtualClock host)

theorem time_prompt {r : Request} (h : r.prompt) (s : σ) :
    clock.time (host.answer r s).2 = clock.time s := by
  have hlate := clock.punctual r s
  rw [Request.latest_of_prompt h] at hlate
  have hforward := clock.forward r s
  exact congrArg Duration.mk (Nat.le_antisymm hlate hforward)

theorem time_le_after (s : σ) (j : List Exchange) : clock.time s ≤ clock.time (after host s j) := by
  induction j generalizing s with
  | nil => exact Nat.le_refl _
  | cons x j ih => exact Nat.le_trans (clock.forward x.request s) (ih _)

theorem time_prefix_le {i j : List Exchange} (h : i <+: j) (s : σ) :
    clock.time (after host s i) ≤ clock.time (after host s j) := by
  obtain ⟨k, rfl⟩ := h
  rw [after_append]
  exact clock.time_le_after _ k

/-- Wherever it begins, a dialogue takes at most a span. -/
def Takes (d : Dialogue α) (span : Duration) : Prop :=
  ∀ s, clock.time (d.run host s).2 ≤ clock.time s + span

/-- From where the first pipe begins to be drained to the end it takes at most a span. -/
def DrainsWithin (d : Dialogue α) (span : Duration) : Prop :=
  ∀ s i x j, d.journal host s = i ++ x :: j → x.request.drains →
    clock.time (d.run host s).2 ≤ clock.time (after host s i) + span

variable {clock}

namespace Takes

theorem of_prompt {d : Dialogue α} (h : d.Only (Request.prompt ·)) : clock.Takes d .zero := by
  intro s
  have hsame : clock.time (d.run host s).2 = clock.time s :=
    h.invariant (I := fun s' => clock.time s' = clock.time s)
      (fun r s' hr hs' => (clock.time_prompt hr s').trans hs') rfl
  rw [hsame]
  exact Nat.le_refl _

theorem bind {d : Dialogue α} {f : α → Dialogue β} {m n : Duration} (hd : clock.Takes d m)
    (hf : ∀ a, clock.Takes (f a) n) : clock.Takes (d >>= f) (m + n) := by
  intro s
  have hfirst := hd s
  have hrest := hf (d.run host s).1 (d.run host s).2
  rw [run_bind]
  simp only [Duration.le_iff, Duration.nanos_add] at hfirst hrest ⊢
  omega

theorem mono {d : Dialogue α} {m n : Duration} (h : clock.Takes d m) (hmn : m ≤ n) :
    clock.Takes d n := by
  intro s
  have hs := h s
  simp only [Duration.le_iff, Duration.nanos_add] at hs hmn ⊢
  omega

theorem prompt_bind {d : Dialogue α} {f : α → Dialogue β} {n : Duration}
    (hd : d.Only (Request.prompt ·)) (hf : ∀ a, clock.Takes (f a) n) :
    clock.Takes (d >>= f) n := by
  refine (bind (of_prompt hd) hf).mono ?_
  simp only [Duration.le_iff, Duration.nanos_add, Duration.zero]
  omega

theorem bind_prompt {d : Dialogue α} {f : α → Dialogue β} {n : Duration} (hd : clock.Takes d n)
    (hf : ∀ a, (f a).Only (Request.prompt ·)) : clock.Takes (d >>= f) n := by
  refine (bind hd fun a => of_prompt (hf a)).mono ?_
  simp only [Duration.le_iff, Duration.nanos_add, Duration.zero]
  omega

theorem map {d : Dialogue α} {n : Duration} (f : α → β) (h : clock.Takes d n) :
    clock.Takes (f <$> d) n := by
  intro s
  rw [run_map]
  exact h s

end Takes

namespace DrainsWithin

theorem of_takes {d : Dialogue α} {span : Duration} (h : clock.Takes d span) :
    clock.DrainsWithin d span := by
  intro s i x j _ _
  have hend := h s
  have hbegin := clock.time_le_after s i
  simp only [Duration.le_iff, Duration.nanos_add] at hend hbegin ⊢
  omega

theorem of_none {d : Dialogue α} {span : Duration} (h : d.Only (·.drains = false)) :
    clock.DrainsWithin d span := by
  intro s i x j hj hx
  have hmem : x ∈ d.journal host s := by
    rw [hj]
    exact List.mem_append_right _ List.mem_cons_self
  rw [h.journal s x hmem] at hx
  cases hx

theorem bind {d : Dialogue α} {f : α → Dialogue β} {span : Duration}
    (hd : d.Only (·.drains = false)) (hf : ∀ a, clock.DrainsWithin (f a) span) :
    clock.DrainsWithin (d >>= f) span := by
  intro s i x j hj hx
  have hfirst : x ∉ d.journal host s := fun hmem => by
    rw [hd.journal s x hmem] at hx
    cases hx
  have hrest (k : List Exchange) := hf (d.run host s).1 (d.run host s).2 k x j
  rw [journal_bind, List.append_eq_append_iff] at hj
  rw [run_bind]
  rcases hj with ⟨k, rfl, hk⟩ | ⟨k, hk, hx'⟩
  · rw [after_append, after_journal]
    exact hrest k hk hx
  · cases k with
    | nil =>
      rw [List.append_nil] at hk
      rw [← hk, after_journal]
      exact hrest [] hx'.symm hx
    | cons y k =>
      obtain ⟨rfl, -⟩ := List.cons.inj hx'
      refine absurd ?_ hfirst
      rw [hk]
      exact List.mem_append_right _ List.mem_cons_self

theorem map {d : Dialogue α} {span : Duration} (f : α → β) (h : clock.DrainsWithin d span) :
    clock.DrainsWithin (f <$> d) span := by
  intro s i x j hj hx
  rw [journal_map] at hj
  rw [run_map]
  exact h s i x j hj hx

end DrainsWithin

/-- A wait that begins in time and whose deadline lies in time ends in time. -/
theorem time_answer_le {req : Request} {s : σ} {deadline b : Instant}
    (hreq : req.latest (clock.time s) = (clock.time s).max deadline) (hs : clock.time s ≤ b)
    (hdeadline : deadline ≤ b) : clock.time (host.answer req s).2 ≤ b := by
  have hlate := clock.punctual req s
  rw [hreq] at hlate
  simp only [Duration.le_iff, Duration.nanos_max] at hlate hs hdeadline ⊢
  exact Nat.le_trans hlate (Nat.max_le.mpr ⟨hs, hdeadline⟩)

end VirtualClock

namespace Runner

variable {clock : VirtualClock host} (r : Runner) (s : Subject)

theorem awaitFor_takes (span : Duration) : clock.Takes (awaitFor s span) span := by
  intro st
  have hclock : clock.time (now.run host st).2 = clock.time st := clock.time_prompt rfl st
  have hnow : (now.run host st).1 = clock.time st := clock.read st
  have hrun : (awaitFor s span).run host st =
      host.answer (.awaitExit s.pid ((now.run host st).1 + span)) (now.run host st).2 := rfl
  rw [hrun, hnow]
  refine clock.time_answer_le (show Request.latest _ (.awaitExit s.pid _) = _ from rfl) ?_ ?_
  · simp only [hclock, Duration.le_iff, Duration.nanos_add]
    omega
  · exact Nat.le_refl _

theorem killAndReap_takes : clock.Takes (r.killAndReap s) r.reapTimeout := by
  unfold killAndReap
  refine .prompt_bind (sendSignal_only (by rfl)) fun reply => ?_
  split
  · refine .prompt_bind (only_ask (by rfl)).discard fun _ => ?_
    refine (awaitFor_takes s r.reapTimeout).bind_prompt fun waited => ?_
    split <;> exact only_pure _
  · refine (awaitFor_takes s r.reapTimeout).bind_prompt fun waited => ?_
    split <;> exact only_pure _

/-- The pipes are drained one after the other, but against one deadline. -/
theorem drain_takes (status : Option ExitStatus) (c : Completion) (elapsed : Duration) :
    clock.Takes (do
      let deadline := (← now) + r.drainGrace
      let out : Bytes ← ask (.drain s.pid .out deadline)
      let err : Bytes ← ask (.drain s.pid .err deadline)
      ask (.release s.pid)
      return resultOf status c out err elapsed : Dialogue RunResult) r.drainGrace := by
  intro st
  have hclock : clock.time (now.run host st).2 = clock.time st := clock.time_prompt rfl st
  have hnow : (now.run host st).1 = clock.time st := clock.read st
  set s₁ := (now.run host st).2
  rw [run_bind, hnow]
  set deadline : Instant := clock.time st + r.drainGrace
  have hbegin : clock.time s₁ ≤ deadline := by
    simp only [hclock, deadline, Duration.le_iff, Duration.nanos_add]
    omega
  have hout : clock.time (host.answer (.drain s.pid .out deadline) s₁).2 ≤ deadline :=
    VirtualClock.time_answer_le rfl hbegin (Nat.le_refl _)
  set s₂ := (host.answer (.drain s.pid .out deadline) s₁).2
  have herr : clock.time (host.answer (.drain s.pid .err deadline) s₂).2 ≤ deadline :=
    VirtualClock.time_answer_le rfl hout (Nat.le_refl _)
  set s₃ := (host.answer (.drain s.pid .err deadline) s₂).2
  have hrelease : clock.time (host.answer (.release s.pid) s₃).2 = clock.time s₃ :=
    clock.time_prompt rfl s₃
  exact hrelease ▸ herr

theorem finish_takes (status : Option ExitStatus) (c : Completion) :
    clock.Takes (r.finish s status c) r.drainGrace :=
  .prompt_bind (only_ask (by rfl)) fun _ => .prompt_bind (sendSignal_only (by rfl)).discard fun _ =>
    r.drain_takes s status c _

theorem finish_drains (status : Option ExitStatus) (c : Completion) :
    clock.DrainsWithin (r.finish s status c) r.drainGrace :=
  .bind (only_ask (by rfl)) fun _ => .bind (sendSignal_only (by rfl)).discard fun _ =>
    .of_takes (r.drain_takes s status c _)

variable (clock) in
theorem finish_elapsed (status : Option ExitStatus) (c : Completion) (st : σ) :
    ((r.finish s status c).run host st).1.elapsed = clock.time st - s.started := by
  rw [← clock.read st]
  rfl

theorem giveUp_takes (e : IoError) (span : Duration) :
    clock.Takes (giveUp s e : Dialogue (Except RunError RunResult)) span := by
  have hprompt : (giveUp s e : Dialogue (Except RunError RunResult)).Only (Request.prompt ·) :=
    (only_ask (by rfl)).bind fun _ => only_pure _
  exact (VirtualClock.Takes.of_prompt hprompt).mono (Nat.zero_le _)

theorem exited_takes (status : Option ExitStatus) (c : Completion) :
    clock.Takes (.ok <$> r.finish s status c : Dialogue (Except RunError RunResult))
      (r.reapTimeout + r.drainGrace) :=
  ((r.finish_takes s status c).map _).mono (Nat.le_add_left _ _)

theorem killed_takes (c : Completion) :
    clock.Takes (do
      let status ← r.killAndReap s
      .ok <$> r.finish s status c : Dialogue (Except RunError RunResult))
      (r.reapTimeout + r.drainGrace) :=
  (r.killAndReap_takes s).bind fun _ => (r.finish_takes s _ c).map _

theorem conclude_takes (timeout : Duration) :
    clock.Takes (r.conclude s timeout) (timeout + (r.reapTimeout + r.drainGrace)) := by
  refine (awaitFor_takes s timeout).bind fun reply => ?_
  split
  · exact giveUp_takes s _ _
  · exact r.exited_takes s _ _
  · exact r.killed_takes s _

theorem stop_takes (grace : Duration) :
    clock.Takes (r.stop s grace) (grace + (r.reapTimeout + r.drainGrace)) := by
  have hmore {d : Dialogue (Except RunError RunResult)}
      (h : clock.Takes d (r.reapTimeout + r.drainGrace)) :
      clock.Takes d (grace + (r.reapTimeout + r.drainGrace)) := h.mono (Nat.le_add_left _ _)
  refine .prompt_bind (only_ask (by rfl)) fun polled => ?_
  split
  · exact giveUp_takes s _ _
  · exact hmore (r.exited_takes s _ _)
  · refine .prompt_bind (sendSignal_only (by rfl)) fun asked => ?_
    split
    · exact hmore (r.killed_takes s _)
    · refine (awaitFor_takes s grace).bind fun reply => ?_
      split
      · exact giveUp_takes s _ _
      · exact r.exited_takes s _ _
      · exact r.killed_takes s _

theorem awaitFor_undrained (span : Duration) : (awaitFor s span).Only (·.drains = false) :=
  (only_ask (by rfl)).bind fun _ => only_ask (by rfl)

theorem killAndReap_undrained : (r.killAndReap s).Only (·.drains = false) := by
  unfold killAndReap
  refine (sendSignal_only (by rfl)).bind fun reply => ?_
  split
  · refine Only.bind (only_ask (by rfl)).discard fun _ => ?_
    refine (awaitFor_undrained s _).bind fun waited => ?_
    split <;> exact only_pure _
  · refine (awaitFor_undrained s _).bind fun waited => ?_
    split <;> exact only_pure _

theorem giveUp_drains (e : IoError) :
    clock.DrainsWithin (giveUp s e : Dialogue (Except RunError RunResult)) r.drainGrace :=
  .of_none ((only_ask (by rfl)).bind fun _ => only_pure _)

theorem killed_drains (c : Completion) :
    clock.DrainsWithin (do
      let status ← r.killAndReap s
      .ok <$> r.finish s status c : Dialogue (Except RunError RunResult)) r.drainGrace :=
  .bind (r.killAndReap_undrained s) fun _ => (r.finish_drains s _ c).map _

theorem conclude_drains (timeout : Duration) :
    clock.DrainsWithin (r.conclude s timeout) r.drainGrace := by
  refine .bind (awaitFor_undrained s timeout) fun reply => ?_
  split
  · exact r.giveUp_drains s _
  · exact (r.finish_drains s _ _).map _
  · exact r.killed_drains s _

theorem stop_drains (grace : Duration) : clock.DrainsWithin (r.stop s grace) r.drainGrace := by
  refine .bind (only_ask (by rfl)) fun polled => ?_
  split
  · exact r.giveUp_drains s _
  · exact (r.finish_drains s _ _).map _
  · refine .bind (sendSignal_only (by rfl)) fun asked => ?_
    split
    · exact r.killed_drains s _
    · refine .bind (awaitFor_undrained s grace) fun reply => ?_
      split
      · exact r.giveUp_drains s _
      · exact (r.finish_drains s _ _).map _
      · exact r.killed_drains s _

variable (clock) in
theorem conclude_elapsed (timeout : Duration) (st : σ) {result : RunResult}
    (h : ((r.conclude s timeout).run host st).1 = .ok result) :
    result.elapsed ≤ clock.time st + (timeout + r.reapTimeout) - s.started := by
  have hwait : clock.time ((awaitFor s timeout).run host st).2 ≤ clock.time st + timeout :=
    awaitFor_takes s timeout st
  unfold conclude at h
  rw [run_bind] at h
  set st₁ := ((awaitFor s timeout).run host st).2
  split at h
  · cases h
  · rw [run_map] at h
    cases h
    rw [r.finish_elapsed clock]
    simp only [Duration.le_iff, Duration.nanos_add, Duration.nanos_sub] at hwait ⊢
    omega
  · have hreap : clock.time ((r.killAndReap s).run host st₁).2 ≤ clock.time st₁ + r.reapTimeout :=
      r.killAndReap_takes s st₁
    rw [run_bind, run_map] at h
    cases h
    rw [r.finish_elapsed clock]
    simp only [Duration.le_iff, Duration.nanos_add, Duration.nanos_sub] at hwait hreap ⊢
    omega

theorem spawn_prompt (path : Path) (args : List String) :
    (spawn path args).Only (Request.prompt ·) := by
  refine (only_ask (by rfl)).bind fun started => (only_ask (by rfl)).bind fun reply => ?_
  split <;> exact only_pure _

theorem runBounded_takes (path : Path) (args : List String) (timeout : Duration) :
    clock.Takes (r.runBounded path args timeout) (timeout + (r.reapTimeout + r.drainGrace)) := by
  rw [runBounded_eq]
  refine .prompt_bind (spawn_prompt path args) fun spawned => ?_
  split
  · exact (VirtualClock.Takes.of_prompt (only_pure _)).mono (Nat.zero_le _)
  · exact r.conclude_takes _ timeout

theorem runBounded_drains (path : Path) (args : List String) (timeout : Duration) :
    clock.DrainsWithin (r.runBounded path args timeout) r.drainGrace := by
  have hspawn : (spawn path args).Only (·.drains = false) := by
    refine (only_ask (by rfl)).bind fun started => (only_ask (by rfl)).bind fun reply => ?_
    split <;> exact only_pure _
  rw [runBounded_eq]
  refine .bind hspawn fun spawned => ?_
  split
  · exact .of_none (only_pure _)
  · exact r.conclude_drains _ timeout

variable (clock) in
theorem spawn_started {path : Path} {args : List String} {st : σ} {s : Subject}
    (h : ((spawn path args).run host st).1 = .ok s) : s.started = clock.time st := by
  unfold spawn at h
  rw [run_bind, run_bind] at h
  split at h
  · cases h
    exact clock.read st
  · cases h

theorem runBounded_elapsed (clock : VirtualClock host) {path : Path} {args : List String}
    {timeout : Duration} {st : σ} {result : RunResult}
    (h : ((r.runBounded path args timeout).run host st).1 = .ok result) :
    result.elapsed ≤ timeout + r.reapTimeout := by
  have hspawn : clock.time ((spawn path args).run host st).2 ≤ clock.time st + .zero :=
    VirtualClock.Takes.of_prompt (spawn_prompt path args) st
  rw [runBounded_eq, run_bind] at h
  split at h
  · cases h
  · rename_i s hs
    have helapsed := r.conclude_elapsed clock s timeout _ h
    have hstarted := spawn_started clock hs
    simp only [Duration.le_iff, Duration.nanos_add, Duration.nanos_sub, Duration.zero, hstarted]
      at hspawn helapsed ⊢
    omega

end Runner

theorem VirtualClock.Takes.along {clock : VirtualClock host} {d : Dialogue α} {span : Duration}
    (h : clock.Takes d span) {st : σ} {j : List Exchange} (hj : j <+: d.journal host st) :
    clock.time (after host st j) ≤ clock.time st + span := by
  have hprefix := clock.time_prefix_le hj st
  rw [after_journal] at hprefix
  exact Nat.le_trans hprefix (h st)

/-- Whatever a subject does, a bounded run of it is over when its timeout, the time to reap it and
one drain grace have passed, and to stop it takes as long with the grace for its timeout. -/
theorem Runner.keeps_within_time (clock : VirtualClock host) (r : Runner) (st : σ) :
    (∀ path args timeout,
      let d := r.runBounded path args timeout
      (∀ j, j <+: d.journal host st →
        clock.time (after host st j) ≤ clock.time st + timeout + r.reapTimeout + r.drainGrace) ∧
      (∀ result, (d.run host st).1 = .ok result → result.elapsed ≤ timeout + r.reapTimeout) ∧
      clock.DrainsWithin d r.drainGrace) ∧
    ∀ s grace,
      let d := r.stop s grace
      (∀ j, j <+: d.journal host st →
        clock.time (after host st j) ≤ clock.time st + grace + r.reapTimeout + r.drainGrace) ∧
      clock.DrainsWithin d r.drainGrace := by
  have hsum {span b : Duration} (h : b ≤ clock.time st + (span + (r.reapTimeout + r.drainGrace))) :
      b ≤ clock.time st + span + r.reapTimeout + r.drainGrace := by
    simp only [Duration.le_iff, Duration.nanos_add] at h ⊢
    omega
  refine ⟨fun path args timeout => ⟨fun j hj => ?_, fun result h => ?_, ?_⟩,
    fun s grace => ⟨fun j hj => ?_, ?_⟩⟩
  · exact hsum ((r.runBounded_takes path args timeout).along hj)
  · exact r.runBounded_elapsed clock h
  · exact r.runBounded_drains path args timeout
  · exact hsum ((r.stop_takes s grace).along hj)
  · exact r.stop_drains s grace

/-- A host whose subject never ends and never closes a pipe. -/
def Host.stubborn : Host Instant where
  answer r now := match r with
    | .clock => (now, now)
    | .sleep span => ((), now + span)
    | .awaitExit _ deadline => (.ok none, now.max deadline)
    | .drain _ _ deadline => ([], now.max deadline)
    | .pollExit _ => (.ok none, now)
    | .signalGroup _ _ => (.ok (), now)
    | r => Host.still.answer r now

def stubbornClock : VirtualClock Host.stubborn where
  time now := now
  read _ := rfl
  forward r now := by
    cases r with
    | sleep span => exact Nat.le_add_right _ _
    | awaitExit pid deadline => exact Duration.le_max_left now deadline
    | drain pid pipe deadline => exact Duration.le_max_left now deadline
    | _ => exact Nat.le_refl _
  punctual r now := by cases r <;> exact Nat.le_refl _

theorem stubborn_takes_all_time :
    let d := Runner.standard.runBounded (.ofString "/bin/p") [] (.ofSecs 10)
    (d.run .stubborn .zero).2 = .ofMillis 12500 ∧
    ∀ j, j <+: d.journal .stubborn .zero →
      stubbornClock.time (after .stubborn .zero j) ≤ .ofMillis 12500 :=
  ⟨rfl, (Runner.keeps_within_time stubbornClock .standard .zero).1 (.ofString "/bin/p") []
    (.ofSecs 10) |>.1⟩

end SmokeBench
