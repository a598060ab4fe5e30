import Mathlib.Tactic.Set
import SmokeBench.Proofs.LeaderLife

/-! Which signals a subject is sent, and when. A stop asks the group to end once, unless the leader has
ended already, and a bounded run never asks. Neither kills a leader that has not been reaped before it
was given all of its time, and a stop says of itself that it had to escalate exactly when it has killed
such a leader. This holds whenever the leader ends, also between two requests, and whatever it heeds. -/

namespace SmokeBench

open Dialogue

variable {σ : Type} {host : Host σ}

/-- What can kill a leader: a kill to its group, a kill to itself, and giving up its handle. -/
def Request.Kills (pid : Pid) (r : Request) : Prop :=
  r = .signalGroup pid .kill ∨ r = .killLeader pid ∨ r = .release pid

def Reaped (pid : Pid) (j : List Exchange) : Prop := ∃ status, ∃ x ∈ j, TellsEnd pid status x

/-- A leader that has not been reaped is killed. -/
def Forces (pid : Pid) (j : List Exchange) : Prop :=
  ∃ i x k, j = i ++ x :: k ∧ x.request.Kills pid ∧ ¬Reaped pid i

def Undelivered (pid : Pid) (j : List Exchange) : Prop :=
  ∃ reply e, (⟨.signalGroup pid .term, reply⟩ : Exchange) ∈ j ∧ Runner.signalled reply = .error e

/-- A look at the leader, or a wait for it, failed. Nothing was killed until then, and at once the
handle is given up. -/
def Unheard (pid : Pid) (e : IoError) (j : List Exchange) : Prop :=
  ∃ i x, j = i ++ [x, ⟨.release pid, ()⟩] ∧ (∀ y ∈ i, ¬y.request.Kills pid) ∧
    (x = ⟨.pollExit pid, .error e⟩ ∨ ∃ deadline, x = ⟨.awaitExit pid deadline, .error e⟩)

/-- From the reply to this request on a span has passed, and when it was over the leader had not
ended. -/
def Leader.Outlasts {pid : Pid} (life : Leader host pid) (st : σ) (q : Request) (span : Duration)
    (j : List Exchange) : Prop :=
  ∃ a reply b c, j = (a ++ ⟨q, reply⟩ :: b) ++ c ∧
    life.time (after host st (a ++ [⟨q, reply⟩])) + span ≤
      life.time (after host st (a ++ ⟨q, reply⟩ :: b)) ∧
    life.ended (after host st (a ++ ⟨q, reply⟩ :: b)) = none

/-- A leader that has not been reaped is killed only after it has outlasted its time. -/
def Leader.KilledLate {pid : Pid} (life : Leader host pid) (st : σ) (q : Request) (span : Duration)
    (j : List Exchange) : Prop :=
  ∀ i x k, j = i ++ x :: k → x.request.Kills pid → ¬Reaped pid i → life.Outlasts st q span i

/-- A stop that came to a result: its request to end, its kills and what it says of them. -/
structure Gradual {pid : Pid} (life : Leader host pid) (st : σ) (grace : Duration)
    (j : List Exchange) (result : RunResult) : Prop where
  once : life.ended st = none → (j.map (·.request)).count (.signalGroup pid .term) = 1
  first : life.ended st = none → ∀ i x k, j = i ++ x :: k → x.request.Kills pid →
    Request.signalGroup pid .term ∈ i.map (·.request)
  last : ∀ i x k, j = i ++ x :: k → x.request.Kills pid → ¬Reaped pid i →
    life.Outlasts st (.signalGroup pid .term) grace i ∨ Undelivered pid i
  escalated : result.escalated = true ↔ Forces pid j

section

variable {pid : Pid} {i j k l : List Exchange}

theorem holds_before_kills {Q : List Exchange → Prop} (hstays : ∀ a b, Q a → Q (a ++ b))
    (hnone : ∀ x ∈ i, ¬x.request.Kills pid) (hi : Q i) {x : Exchange}
    (hj : i ++ j = k ++ x :: l) (hkills : x.request.Kills pid) : Q k := by
  rcases List.append_eq_append_iff.mp hj with ⟨a, rfl, -⟩ | ⟨a, rfl, hx⟩
  · exact hstays i a hi
  · cases a with
    | nil => rwa [List.append_nil] at hi
    | cons y a =>
      obtain ⟨rfl, -⟩ := List.cons.inj hx
      exact absurd hkills (hnone x (by simp))

theorem Reaped.append (h : Reaped pid i) (k : List Exchange) : Reaped pid (i ++ k) := by
  obtain ⟨status, x, hx, htells⟩ := h
  exact ⟨status, x, List.mem_append_left k hx, htells⟩

theorem Reaped.prepend (h : Reaped pid i) (k : List Exchange) : Reaped pid (k ++ i) := by
  obtain ⟨status, x, hx, htells⟩ := h
  exact ⟨status, x, List.mem_append_right k hx, htells⟩

theorem Undelivered.append (h : Undelivered pid i) (k : List Exchange) : Undelivered pid (i ++ k) := by
  obtain ⟨reply, e, hmem, he⟩ := h
  exact ⟨reply, e, List.mem_append_left k hmem, he⟩

theorem Leader.Outlasts.append {life : Leader host pid} {st : σ} {q : Request} {span : Duration}
    (h : life.Outlasts st q span i) (k : List Exchange) : life.Outlasts st q span (i ++ k) := by
  obtain ⟨a, reply, b, c, rfl, hlater⟩ := h
  exact ⟨a, reply, b, c ++ k, List.append_assoc _ _ _, hlater⟩

theorem not_forces (hnone : ∀ x ∈ i, ¬x.request.Kills pid) (h : Reaped pid i) :
    ¬Forces pid (i ++ j) := by
  rintro ⟨a, x, b, hj, hkills, hunreaped⟩
  exact hunreaped (holds_before_kills (fun _ b h => h.append b) hnone h hj hkills)

/-- A wait that came back empty-handed has let all of its time pass. -/
theorem Leader.outlasts_wait (life : Leader host pid) {st : σ} {q : Request} {reply : q.Reply}
    {now : Instant} {span : Duration}
    (h : Genuine host st (i ++ ⟨q, reply⟩ ::
      ⟨.clock, now⟩ :: ⟨.awaitExit pid (now + span), .ok none⟩ :: k)) :
    life.Outlasts st q span
      (i ++ [⟨q, reply⟩, ⟨.clock, now⟩, ⟨.awaitExit pid (now + span), .ok none⟩]) := by
  obtain ⟨-, -, hnow, hwaited, -⟩ := genuine_append.mp h
  dsimp only at hnow hwaited
  set st₁ := (host.answer q (after host st i)).2
  set st₂ := (host.answer .clock st₁).2
  have hlate : now + span ≤ life.time (host.answer (.awaitExit pid (now + span)) st₂).2 :=
    life.patient _ _ hwaited.symm
  have hended : none = life.ended (host.answer (.awaitExit pid (now + span)) st₂).2 :=
    life.awaited _ _ _ hwaited.symm
  refine ⟨i, reply, _, [], (List.append_nil _).symm, ?_, ?_⟩
  · rw [after_append, after_append]
    rw [life.read] at hnow
    exact hnow ▸ hlate
  · rw [after_append]
    exact hended.symm

end

namespace Runner

variable {r : Runner} {s : Subject} {status : Option ExitStatus} {c : Completion}
  {grace timeout : Duration} {i j k : List Exchange} {asked : Except IoError Unit}
  {result : RunResult} {outcome : Except RunError RunResult} {st : σ}

theorem Finishes.unasked (h : Finishes r s status c j result) (pid : Pid) :
    Request.signalGroup pid .term ∉ j.map (·.request) := by
  cases h
  simp

theorem Slays.unasked (h : Slays r s i status) (pid : Pid) :
    Request.signalGroup pid .term ∉ i.map (·.request) := by
  cases h <;> simp

theorem Finishes.escalated_iff (h : Finishes r s status c j result) :
    result.escalated = true ↔ c = .escalated := by
  cases h
  simp [resultOf]

/-- A kill begins with the group, and if the leader was not reaped before, it is forced. -/
theorem Slays.forces (h : Slays r s i status) (hk : ¬Reaped s.pid k) :
    Forces s.pid (k ++ (i ++ j)) := by
  cases h with
  | reached => exact ⟨k, _, _, rfl, .inl rfl, hk⟩
  | refused => exact ⟨k, _, _, rfl, .inl rfl, hk⟩

/-- A stop finds that the leader has not ended and asks it to. -/
def asking (s : Subject) (asked : Except IoError Unit) : List Exchange :=
  [⟨.pollExit s.pid, .ok none⟩, ⟨.signalGroup s.pid .term, asked⟩]

theorem asking_none_kills : ∀ x ∈ asking s asked, ¬x.request.Kills s.pid := by
  simp [asking, Request.Kills]

theorem asking_once (h : Request.signalGroup s.pid .term ∉ j.map (·.request)) :
    ((asking s asked ++ j).map (·.request)).count (.signalGroup s.pid .term) = 1 := by
  rw [List.map_append, List.count_append, List.count_eq_zero_of_not_mem h]
  simp [asking]

theorem asking_first {x : Exchange} (hj : asking s asked ++ j = i ++ x :: k)
    (hkills : x.request.Kills s.pid) : Request.signalGroup s.pid .term ∈ i.map (·.request) := by
  refine holds_before_kills (Q := fun a => Request.signalGroup s.pid .term ∈ a.map (·.request))
    (fun a b h => ?_) asking_none_kills (by simp [asking]) hj hkills
  rw [List.map_append]
  exact List.mem_append_left _ h

theorem not_reaped_asking (h : ¬Reaped s.pid k) : ¬Reaped s.pid (asking s asked ++ k) := by
  rintro ⟨status, x, hx, htells⟩
  rcases List.mem_append.mp hx with hx | hx
  · simp only [asking, List.mem_cons, List.not_mem_nil, or_false] at hx
    rcases hx with rfl | rfl <;> cases htells
  · exact h ⟨status, x, hx, htells⟩

theorem Finishes.gradual (life : Leader host s.pid) (h : Finishes r s status .exited j result)
    (hk : ∀ x ∈ k, ¬x.request.Kills s.pid)
    (hunasked : Request.signalGroup s.pid .term ∉ k.map (·.request)) (hreaped : Reaped s.pid k) :
    Gradual life st grace (asking s asked ++ (k ++ j)) result := by
  have hnone : ∀ x ∈ asking s asked ++ k, ¬x.request.Kills s.pid :=
    List.forall_mem_append.mpr ⟨asking_none_kills, hk⟩
  have hreaped' : Reaped s.pid (asking s asked ++ k) := hreaped.prepend _
  refine ⟨fun _ => asking_once ?_, fun _ a x b => asking_first, fun a x b hj hkills h => ?_, ?_⟩
  · rw [List.map_append, List.mem_append, not_or]
    exact ⟨hunasked, h.unasked _⟩
  · rw [← List.append_assoc] at hj
    exact absurd (holds_before_kills (fun _ b h => h.append b) hnone hreaped' hj hkills) h
  · rw [h.escalated_iff, ← List.append_assoc]
    exact iff_of_false nofun (not_forces hnone hreaped')

theorem Slays.gradual (life : Leader host s.pid) (hslays : Slays r s i status)
    (hfinishes : Finishes r s status .escalated j result)
    (hk : ∀ x ∈ k, ¬x.request.Kills s.pid)
    (hunasked : Request.signalGroup s.pid .term ∉ k.map (·.request))
    (hunreaped : ¬Reaped s.pid k)
    (hlast : life.Outlasts st (.signalGroup s.pid .term) grace (asking s asked ++ k) ∨
      Undelivered s.pid (asking s asked ++ k)) :
    Gradual life st grace (asking s asked ++ (k ++ (i ++ j))) result := by
  have hnone : ∀ x ∈ asking s asked ++ k, ¬x.request.Kills s.pid :=
    List.forall_mem_append.mpr ⟨asking_none_kills, hk⟩
  have hforces : Forces s.pid ((asking s asked ++ k) ++ (i ++ j)) :=
    hslays.forces (not_reaped_asking hunreaped)
  refine ⟨fun _ => asking_once ?_, fun _ a x b => asking_first, fun a x b hj hkills _ => ?_, ?_⟩
  · simp only [List.map_append, List.mem_append, not_or]
    exact ⟨hunasked, hslays.unasked _, hfinishes.unasked _⟩
  · rw [← List.append_assoc] at hj
    have hstays (a b : List Exchange)
        (h : life.Outlasts st (.signalGroup s.pid .term) grace a ∨ Undelivered s.pid a) :
        life.Outlasts st (.signalGroup s.pid .term) grace (a ++ b) ∨ Undelivered s.pid (a ++ b) :=
      h.imp (·.append b) (·.append b)
    exact holds_before_kills hstays hnone hlast hj hkills
  · rw [hfinishes.escalated_iff, ← List.append_assoc]
    exact iff_of_true rfl hforces

theorem Stops.gradual (life : Leader host s.pid) (hgenuine : Genuine host st j)
    (h : Stops r s grace j (.ok result)) : Gradual life st grace j result := by
  cases h with
  | @gone status j _ hfinishes =>
    have hended : some status = life.ended st := life.polled st _ hgenuine.1.symm
    have hreaped : Reaped s.pid [⟨.pollExit s.pid, .ok (some status)⟩] :=
      ⟨status, _, List.mem_cons_self, .polled⟩
    have hnone : ∀ x ∈ ([⟨.pollExit s.pid, .ok (some status)⟩] : List Exchange),
        ¬x.request.Kills s.pid := by simp [Request.Kills]
    refine ⟨fun h => ?_, fun h => ?_, fun a x b hj hkills hunreaped => ?_, ?_⟩
    · rw [h] at hended
      cases hended
    · rw [h] at hended
      cases hended
    · exact absurd (holds_before_kills (fun _ b h => h.append b) hnone hreaped hj hkills) hunreaped
    · rw [hfinishes.escalated_iff]
      exact iff_of_false nofun (not_forces hnone hreaped)
  | undelivered hasked hslays hfinishes =>
    refine hslays.gradual life (k := []) hfinishes (by simp) (by simp) ?_ (.inr ?_)
    · rintro ⟨_, _, ⟨⟩, _⟩
    · exact ⟨_, _, List.mem_cons_of_mem _ List.mem_cons_self, hasked⟩
  | @heeded asked hasked now status _ _ hfinishes =>
    refine hfinishes.gradual life (k := [_, _]) (by simp [Request.Kills]) (by simp) ?_
    exact ⟨status, _, List.mem_cons_of_mem _ List.mem_cons_self, .awaited _⟩
  | ignored hasked now hslays hfinishes =>
    refine hslays.gradual life (k := [_, _]) hfinishes (by simp [Request.Kills]) (by simp) ?_
      (.inl (life.outlasts_wait (i := [_]) hgenuine))
    rintro ⟨status, x, hx, htells⟩
    simp only [List.mem_cons, List.not_mem_nil, or_false] at hx
    rcases hx with rfl | rfl <;> cases htells

/-- A leader that had ended when the stop was called is asked nothing. -/
theorem Stops.spares (life : Leader host s.pid) (hgenuine : Genuine host st j)
    (h : Stops r s grace j outcome) (hended : (life.ended st).isSome) (pid : Pid) :
    Request.signalGroup pid .term ∉ j.map (·.request) := by
  have hpolled {k : List Exchange} (hk : Genuine host st (⟨.pollExit s.pid, .ok none⟩ :: k)) : False := by
    rw [← life.polled st none hk.1.symm] at hended
    cases hended
  cases h with
  | unheard => simp
  | gone hfinishes =>
    rw [List.map_cons, List.mem_cons, not_or]
    exact ⟨nofun, hfinishes.unasked pid⟩
  | undelivered | lost | heeded | ignored => exact (hpolled hgenuine).elim

theorem Stops.unheard_or_ok (h : Stops r s grace j outcome) :
    (∃ e, outcome = .error (.wait s.path e) ∧ Unheard s.pid e j) ∨ ∃ result, outcome = .ok result := by
  cases h with
  | unheard e => exact .inl ⟨e, rfl, [], _, rfl, by simp, .inl rfl⟩
  | lost hasked now e =>
    exact .inl ⟨e, rfl, [_, _, _], _, rfl, by simp [Request.Kills], .inr ⟨_, rfl⟩⟩
  | gone | undelivered | heeded | ignored => exact .inr ⟨_, rfl⟩

theorem RunsBounded.unasked {path : Path} {args : List String}
    (h : RunsBounded r path args timeout j outcome) (pid : Pid) :
    Request.signalGroup pid .term ∉ j.map (·.request) := by
  cases h with
  | unstarted => simp
  | started now own hconcludes =>
    cases hconcludes with
    | lost => simp
    | ended now hfinishes => simpa using hfinishes.unasked pid
    | overdue now hslays hfinishes =>
      have hkilled := hslays.unasked pid
      have hended := hfinishes.unasked pid
      simp only [List.map_cons, List.map_append, List.mem_cons, List.mem_append, not_or]
      exact ⟨nofun, nofun, nofun, nofun, hkilled, hended⟩

theorem RunsBounded.kills {path : Path} {args : List String} (hgenuine : Genuine host st j)
    (h : RunsBounded r path args timeout j outcome) :
    (∃ e, outcome = .error (.spawn path args e)) ∨
      ∃ pid, (⟨.spawn path args, .ok pid⟩ : Exchange) ∈ j ∧
        ((∃ e, outcome = .error (.wait path e) ∧ Unheard pid e j) ∨
          (∃ result, outcome = .ok result) ∧
            ∀ life : Leader host pid, life.KilledLate st (.spawn path args) timeout j) := by
  cases h with
  | unstarted now e => exact .inl ⟨e, rfl⟩
  | started began pid hconcludes =>
    refine .inr ⟨pid, List.mem_cons_of_mem _ List.mem_cons_self, ?_⟩
    cases hconcludes with
    | lost now e =>
      exact .inl ⟨e, rfl, [_, _, _], _, rfl, by simp [Request.Kills], .inr ⟨_, rfl⟩⟩
    | @ended now status _ _ hfinishes =>
      have hreaped : Reaped pid [⟨.clock, began⟩, ⟨.spawn path args, .ok pid⟩, ⟨.clock, now⟩,
          ⟨.awaitExit pid (now + timeout), .ok (some status)⟩] :=
        ⟨status, _, by simp, .awaited (now + timeout)⟩
      refine .inr ⟨⟨_, rfl⟩, fun life a x b hj hkills hunreaped => absurd ?_ hunreaped⟩
      exact holds_before_kills (fun _ b h => h.append b) (by simp [Request.Kills]) hreaped hj hkills
    | overdue now hslays hfinishes =>
      refine .inr ⟨⟨_, rfl⟩, fun life a x b hj hkills _ => ?_⟩
      exact holds_before_kills (fun _ b h => h.append b) (by simp [Request.Kills])
        (life.outlasts_wait (i := [_]) hgenuine) hj hkills

/-- A stop asks the group of a leader that has ended for nothing, and the group of any other one to end,
once and before it kills. It kills a leader that has not been reaped only when the whole grace has
passed without its end or when it could not be asked, and says so. A bounded run asks for nothing, and
kills such a leader only when the whole timeout has passed. -/
theorem kills_late (r : Runner) (host : Host σ) (st : σ) :
    (∀ (s : Subject) (grace : Duration) (life : Leader host s.pid),
      ((life.ended st).isSome → ∀ pid, Request.signalGroup pid .term ∉
        ((r.stop s grace).journal host st).map (·.request)) ∧
      ((∃ e, ((r.stop s grace).run host st).1 = .error (.wait s.path e) ∧
          Unheard s.pid e ((r.stop s grace).journal host st)) ∨
        ∃ result, ((r.stop s grace).run host st).1 = .ok result ∧
          Gradual life st grace ((r.stop s grace).journal host st) result)) ∧
    ∀ (path : Path) (args : List String) (timeout : Duration),
      (∀ pid, Request.signalGroup pid .term ∉
        ((r.runBounded path args timeout).journal host st).map (·.request)) ∧
      ((∃ e, ((r.runBounded path args timeout).run host st).1 = .error (.spawn path args e)) ∨
        ∃ pid, (⟨.spawn path args, .ok pid⟩ : Exchange) ∈
            (r.runBounded path args timeout).journal host st ∧
          ((∃ e, ((r.runBounded path args timeout).run host st).1 = .error (.wait path e) ∧
              Unheard pid e ((r.runBounded path args timeout).journal host st)) ∨
            (∃ result, ((r.runBounded path args timeout).run host st).1 = .ok result) ∧
              ∀ life : Leader host pid, life.KilledLate st (.spawn path args) timeout
                ((r.runBounded path args timeout).journal host st))) := by
  refine ⟨fun s grace life => ?_, fun path args timeout => ?_⟩
  · have hstops := r.stop_stops s host st grace
    have hgenuine : Genuine host st ((r.stop s grace).journal host st) := genuine_journal _ st
    refine ⟨hstops.spares life hgenuine, hstops.unheard_or_ok.imp id ?_⟩
    rintro ⟨result, hresult⟩
    exact ⟨result, hresult, (hresult ▸ hstops).gradual life hgenuine⟩
  · have hruns := r.runBounded_runsBounded host st path args timeout
    exact ⟨hruns.unasked, hruns.kills (genuine_journal _ st)⟩

/-- A leader that has ended is asked nothing, and one that heeds nothing is asked once and killed after
its grace. At a deadline it is killed without being asked. -/
theorem kills_late_defiant :
    (∀ pid, Request.signalGroup pid .term ∉
      ((standard.stop ⟨.ofString "/bin/p", 7, .zero⟩ (.ofSecs 1)).journal Host.defiant
        (.zero, some (.exited 0))).map (·.request)) ∧
    (∃ result, ((standard.stop ⟨.ofString "/bin/p", 7, .zero⟩ (.ofSecs 1)).run Host.defiant
        (.zero, none)).1 = .ok result ∧
      Gradual (Leader.defiant 7) (.zero, none) (.ofSecs 1)
        ((standard.stop ⟨.ofString "/bin/p", 7, .zero⟩ (.ofSecs 1)).journal Host.defiant (.zero, none))
        result ∧ result.escalated = true) ∧
    ∃ pid, (Leader.defiant pid).KilledLate (.zero, none) (.spawn (.ofString "/bin/p") []) (.ofSecs 1)
      ((standard.runBounded (.ofString "/bin/p") [] (.ofSecs 1)).journal Host.defiant (.zero, none)) := by
  refine ⟨?_, ?_, ?_⟩
  · obtain ⟨hspared, -⟩ := (kills_late standard Host.defiant (.zero, some (.exited 0))).1
      ⟨.ofString "/bin/p", 7, .zero⟩ (.ofSecs 1) (Leader.defiant 7)
    exact hspared rfl
  · obtain ⟨-, ⟨e, he, -⟩ | ⟨result, hresult, hgradual⟩⟩ :=
      (kills_late standard Host.defiant (.zero, none)).1 ⟨.ofString "/bin/p", 7, .zero⟩ (.ofSecs 1)
        (Leader.defiant 7)
    · cases he
    · refine ⟨result, hresult, hgradual, ?_⟩
      rw [← Except.ok.inj hresult]
      rfl
  · obtain ⟨-, ⟨e, he⟩ | ⟨pid, -, ⟨e, he, -⟩ | ⟨-, hlate⟩⟩⟩ :=
      (kills_late standard Host.defiant (.zero, none)).2 (.ofString "/bin/p") [] (.ofSecs 1)
    · cases he
    · cases he
    · exact ⟨pid, hlate (Leader.defiant pid)⟩

end Runner

end SmokeBench
