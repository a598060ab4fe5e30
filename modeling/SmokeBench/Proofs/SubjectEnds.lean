import SmokeBench.Proofs.Requests

/-! How the bench comes to the end of a subject. Whatever it is told, a bounded run takes one of three
courses once its subject was started, and a stop one of six. A course is the whole of what is asked and
answered, with the result it gives, so what is said of the signals, of the flags of a result and of its
output is read off the courses. -/

namespace SmokeBench

open Dialogue

namespace Runner

variable (r : Runner) (s : Subject)

/-- What a wait after a kill tells of the leader. One that fails tells as little as one that ends at
its deadline. -/
def noticed : Except IoError (Option ExitStatus) → Option ExitStatus
  | .ok status => status
  | .error _ => none

theorem noticed_ok {waited : Except IoError (Option ExitStatus)} {status : Option ExitStatus}
    (h : waited = .ok status) : noticed waited = status := h ▸ rfl

theorem noticed_error {waited : Except IoError (Option ExitStatus)} {e : IoError}
    (h : waited = .error e) : noticed waited = none := h ▸ rfl

/-- The last exchanges about a subject, and the result they give. -/
inductive Finishes (status : Option ExitStatus) (c : Completion) :
    List Exchange → RunResult → Prop
  | intro (began : Instant) (killed : Except IoError Unit) (later : Instant) (out err : Bytes) :
    Finishes status c
      [⟨.clock, began⟩, ⟨.signalGroup s.pid .kill, killed⟩, ⟨.clock, later⟩,
        ⟨.drain s.pid .out (later + r.drainGrace), out⟩,
        ⟨.drain s.pid .err (later + r.drainGrace), err⟩, ⟨.release s.pid, ()⟩]
      (resultOf status c out err (began - s.started))

/-- A kill, with what is noticed of the leader after it. -/
inductive Slays : List Exchange → Option ExitStatus → Prop
  | reached {killed : Except IoError Unit} (hkilled : signalled killed = .ok ())
      (struck : Except IoError Unit) (now : Instant)
      (waited : Except IoError (Option ExitStatus)) :
    Slays [⟨.signalGroup s.pid .kill, killed⟩, ⟨.killLeader s.pid, struck⟩, ⟨.clock, now⟩,
      ⟨.awaitExit s.pid (now + r.reapTimeout), waited⟩] (noticed waited)
  | refused {killed : Except IoError Unit} {e : IoError} (hkilled : signalled killed = .error e)
      (now : Instant) (waited : Except IoError (Option ExitStatus)) :
    Slays [⟨.signalGroup s.pid .kill, killed⟩, ⟨.clock, now⟩,
      ⟨.awaitExit s.pid (now + r.reapTimeout), waited⟩] (noticed waited)

/-- The courses of a bounded run whose subject was started. -/
inductive Concludes (timeout : Duration) : List Exchange → Except RunError RunResult → Prop
  | lost (now : Instant) (e : IoError) :
    Concludes timeout
      [⟨.clock, now⟩, ⟨.awaitExit s.pid (now + timeout), .error e⟩, ⟨.release s.pid, ()⟩]
      (.error (.wait s.path e))
  | ended (now : Instant) {status : ExitStatus} {j : List Exchange} {result : RunResult}
      (hfinishes : Finishes r s (some status) .exited j result) :
    Concludes timeout
      (⟨.clock, now⟩ :: ⟨.awaitExit s.pid (now + timeout), .ok (some status)⟩ :: j) (.ok result)
  | overdue (now : Instant) {status : Option ExitStatus} {i j : List Exchange} {result : RunResult}
      (hslays : Slays r s i status) (hfinishes : Finishes r s status .timedOut j result) :
    Concludes timeout
      (⟨.clock, now⟩ :: ⟨.awaitExit s.pid (now + timeout), .ok none⟩ :: (i ++ j)) (.ok result)

/-- The courses of a bounded run. -/
inductive RunsBounded (path : Path) (args : List String) (timeout : Duration) :
    List Exchange → Except RunError RunResult → Prop
  | unstarted (now : Instant) (e : IoError) :
    RunsBounded path args timeout [⟨.clock, now⟩, ⟨.spawn path args, .error e⟩]
      (.error (.spawn path args e))
  | started (now : Instant) (pid : Pid) {j : List Exchange} {outcome : Except RunError RunResult}
      (hconcludes : Concludes r ⟨path, pid, now⟩ timeout j outcome) :
    RunsBounded path args timeout (⟨.clock, now⟩ :: ⟨.spawn path args, .ok pid⟩ :: j) outcome

/-- The courses of a stop. -/
inductive Stops (grace : Duration) : List Exchange → Except RunError RunResult → Prop
  | unheard (e : IoError) :
    Stops grace [⟨.pollExit s.pid, .error e⟩, ⟨.release s.pid, ()⟩] (.error (.wait s.path e))
  | gone {status : ExitStatus} {j : List Exchange} {result : RunResult}
      (hfinishes : Finishes r s (some status) .exited j result) :
    Stops grace (⟨.pollExit s.pid, .ok (some status)⟩ :: j) (.ok result)
  | undelivered {asked : Except IoError Unit} {e : IoError} (hasked : signalled asked = .error e)
      {status : Option ExitStatus} {i j : List Exchange} {result : RunResult}
      (hslays : Slays r s i status) (hfinishes : Finishes r s status .escalated j result) :
    Stops grace
      (⟨.pollExit s.pid, .ok none⟩ :: ⟨.signalGroup s.pid .term, asked⟩ :: (i ++ j)) (.ok result)
  | lost {asked : Except IoError Unit} (hasked : signalled asked = .ok ()) (now : Instant)
      (e : IoError) :
    Stops grace
      [⟨.pollExit s.pid, .ok none⟩, ⟨.signalGroup s.pid .term, asked⟩, ⟨.clock, now⟩,
        ⟨.awaitExit s.pid (now + grace), .error e⟩, ⟨.release s.pid, ()⟩] (.error (.wait s.path e))
  | heeded {asked : Except IoError Unit} (hasked : signalled asked = .ok ()) (now : Instant)
      {status : ExitStatus} {j : List Exchange} {result : RunResult}
      (hfinishes : Finishes r s (some status) .exited j result) :
    Stops grace
      (⟨.pollExit s.pid, .ok none⟩ :: ⟨.signalGroup s.pid .term, asked⟩ :: ⟨.clock, now⟩ ::
        ⟨.awaitExit s.pid (now + grace), .ok (some status)⟩ :: j) (.ok result)
  | ignored {asked : Except IoError Unit} (hasked : signalled asked = .ok ()) (now : Instant)
      {status : Option ExitStatus} {i j : List Exchange} {result : RunResult}
      (hslays : Slays r s i status) (hfinishes : Finishes r s status .escalated j result) :
    Stops grace
      (⟨.pollExit s.pid, .ok none⟩ :: ⟨.signalGroup s.pid .term, asked⟩ :: ⟨.clock, now⟩ ::
        ⟨.awaitExit s.pid (now + grace), .ok none⟩ :: (i ++ j)) (.ok result)

variable {σ : Type} (host : Host σ) (st : σ)

theorem finish_finishes (status : Option ExitStatus) (c : Completion) :
    Finishes r s status c ((r.finish s status c).journal host st)
      ((r.finish s status c).run host st).1 := .intro _ _ _ _ _

theorem killAndReap_slays :
    Slays r s ((r.killAndReap s).journal host st) ((r.killAndReap s).run host st).1 := by
  unfold killAndReap
  rw [run_bind, journal_bind]
  split
  · rename_i hkilled
    have hreached := Slays.reached (r := r) (s := s) hkilled
    rw [run_bind, journal_bind, run_bind, journal_bind]
    split
    · rename_i hwaited
      exact noticed_ok hwaited ▸ hreached _ _ _
    · rename_i hwaited
      exact noticed_error hwaited ▸ hreached _ _ _
  · rename_i hkilled
    have hrefused := Slays.refused (r := r) (s := s) hkilled
    rw [run_bind, journal_bind]
    split
    · rename_i hwaited
      exact noticed_ok hwaited ▸ hrefused _ _
    · rename_i hwaited
      exact noticed_error hwaited ▸ hrefused _ _

theorem awaitFor_journal (span : Duration) :
    ∃ now : Instant, (awaitFor s span).journal host st =
      [⟨.clock, now⟩, ⟨.awaitExit s.pid (now + span), ((awaitFor s span).run host st).1⟩] :=
  ⟨_, rfl⟩

theorem conclude_concludes (timeout : Duration) :
    Concludes r s timeout ((r.conclude s timeout).journal host st)
      ((r.conclude s timeout).run host st).1 := by
  obtain ⟨now, hnow⟩ := awaitFor_journal s host st timeout
  unfold conclude
  rw [run_bind, journal_bind, hnow, List.cons_append, List.singleton_append]
  split
  · rename_i hwaited
    rw [hwaited]
    exact .lost _ _
  · rename_i hwaited
    rw [hwaited, run_map, journal_map]
    exact .ended _ (r.finish_finishes s host _ _ _)
  · rename_i hwaited
    rw [hwaited, run_bind, journal_bind, run_map, journal_map]
    exact .overdue _ (r.killAndReap_slays s host _) (r.finish_finishes s host _ _ _)

theorem spawn_cases (path : Path) (args : List String) :
    ∃ now : Instant,
      (∃ e, ((spawn path args).run host st).1 = .error (.spawn path args e) ∧
        (spawn path args).journal host st = [⟨.clock, now⟩, ⟨.spawn path args, .error e⟩]) ∨
      ∃ pid, ((spawn path args).run host st).1 = .ok ⟨path, pid, now⟩ ∧
        (spawn path args).journal host st = [⟨.clock, now⟩, ⟨.spawn path args, .ok pid⟩] := by
  refine ⟨(host.answer .clock st).1, ?_⟩
  unfold spawn
  rw [run_bind, journal_bind, run_bind, journal_bind, run_ask, journal_ask]
  split
  · rename_i pid hspawned
    exact .inr ⟨pid, rfl, by rw [hspawned]; rfl⟩
  · rename_i e hspawned
    exact .inl ⟨e, rfl, by rw [hspawned]; rfl⟩

theorem runBounded_runsBounded (path : Path) (args : List String) (timeout : Duration) :
    RunsBounded r path args timeout ((r.runBounded path args timeout).journal host st)
      ((r.runBounded path args timeout).run host st).1 := by
  rw [runBounded_eq, run_bind, journal_bind]
  obtain ⟨now, ⟨e, hresult, hjournal⟩ | ⟨pid, hresult, hjournal⟩⟩ := spawn_cases host st path args
  · rw [hresult, hjournal]
    exact .unstarted now e
  · rw [hresult, hjournal]
    exact .started now pid (r.conclude_concludes ⟨path, pid, now⟩ host _ timeout)

theorem stop_stops (grace : Duration) :
    Stops r s grace ((r.stop s grace).journal host st) ((r.stop s grace).run host st).1 := by
  unfold stop
  rw [run_bind, journal_bind, run_ask, journal_ask, List.singleton_append]
  split
  · rename_i hpolled
    rw [hpolled]
    exact .unheard _
  · rename_i hpolled
    rw [hpolled, run_map, journal_map]
    exact .gone (r.finish_finishes s host _ _ _)
  · rename_i hpolled
    have hasked (st : σ) : (sendSignal s .term).journal host st =
      [⟨.signalGroup s.pid .term, (host.answer (.signalGroup s.pid .term) st).1⟩] := rfl
    rw [hpolled, run_bind, journal_bind, hasked, List.singleton_append]
    split
    · rename_i hsignalled
      unfold escalate
      rw [run_bind, journal_bind, run_map, journal_map]
      exact .undelivered hsignalled (r.killAndReap_slays s host _) (r.finish_finishes s host _ _ _)
    · rename_i hsignalled
      obtain ⟨now, hnow⟩ := awaitFor_journal s host ((sendSignal s .term).run host
        (host.answer (.pollExit s.pid) st).2).2 grace
      rw [run_bind, journal_bind, hnow, List.cons_append, List.singleton_append]
      split
      · rename_i hwaited
        rw [hwaited]
        exact .lost hsignalled _ _
      · rename_i hwaited
        rw [hwaited, run_map, journal_map]
        exact .heeded hsignalled _ (r.finish_finishes s host _ _ _)
      · rename_i hwaited
        unfold escalate
        rw [hwaited, run_bind, journal_bind, run_map, journal_map]
        exact .ignored hsignalled _ (r.killAndReap_slays s host _) (r.finish_finishes s host _ _ _)

end Runner

/-- A look at the leader, or a wait for it, told that it has ended and how. -/
inductive TellsEnd (pid : Pid) (status : ExitStatus) : Exchange → Prop
  | polled : TellsEnd pid status ⟨.pollExit pid, .ok (some status)⟩
  | awaited (deadline : Instant) : TellsEnd pid status ⟨.awaitExit pid deadline, .ok (some status)⟩

/-- A result that is put together from what was told of the leader and from what was read of its
output. -/
inductive Reports (pid : Pid) (c : Completion) (j : List Exchange) : RunResult → Prop
  | intro {status : Option ExitStatus} (deadline : Instant) {out : Bytes} (err : Bytes)
      (elapsed : Duration) (htold : ∀ told ∈ status, ∃ x ∈ j, TellsEnd pid told x)
      (hout : ⟨.drain pid .out deadline, out⟩ ∈ j) :
    Reports pid c j (Runner.resultOf status c out err elapsed)

theorem Reports.append_left {pid : Pid} {c : Completion} {j : List Exchange} {result : RunResult}
    (h : Reports pid c j result) (i : List Exchange) : Reports pid c (i ++ j) result := by
  obtain ⟨deadline, err, elapsed, htold, hout⟩ := h
  refine .intro deadline err elapsed (fun told htold' => ?_) (List.mem_append_right i hout)
  obtain ⟨x, hx, htells⟩ := htold told htold'
  exact ⟨x, List.mem_append_right i hx, htells⟩

namespace Runner

variable {r : Runner} {s : Subject} {status : Option ExitStatus} {c : Completion}
  {i j : List Exchange} {result : RunResult}

theorem Finishes.reports (h : Finishes r s status c j result)
    (htold : ∀ told ∈ status, ∃ x ∈ i, TellsEnd s.pid told x) : Reports s.pid c (i ++ j) result := by
  obtain ⟨began, killed, later, out, err⟩ := h
  refine .intro (later + r.drainGrace) err _ (fun told htold' => ?_) (by simp)
  obtain ⟨x, hx, htells⟩ := htold told htold'
  exact ⟨x, List.mem_append_left _ hx, htells⟩

theorem Slays.told (h : Slays r s i status) : ∀ told ∈ status, ∃ x ∈ i, TellsEnd s.pid told x := by
  have hlast {waited : Except IoError (Option ExitStatus)} {deadline : Instant} {told : ExitStatus}
      (htold : noticed waited = some told) :
      TellsEnd s.pid told ⟨.awaitExit s.pid deadline, waited⟩ := by
    cases waited with
    | error e => cases htold
    | ok status =>
      obtain rfl : status = some told := htold
      exact .awaited deadline
  intro told htold
  cases h with
  | reached hkilled struck now waited =>
    exact ⟨⟨.awaitExit s.pid (now + r.reapTimeout), waited⟩, by simp, hlast htold⟩
  | refused hkilled now waited =>
    exact ⟨⟨.awaitExit s.pid (now + r.reapTimeout), waited⟩, by simp, hlast htold⟩

/-- A bounded run never says that it had to escalate. -/
theorem Concludes.reports {timeout : Duration} (h : Concludes r s timeout j (.ok result)) :
    ∃ c ≠ .escalated, Reports s.pid c j result := by
  cases h with
  | ended now hfinishes =>
    refine ⟨.exited, nofun, hfinishes.reports (i := [_, _]) ?_⟩
    rintro told ⟨⟩
    exact ⟨_, List.mem_cons_of_mem _ List.mem_cons_self, .awaited _⟩
  | overdue now hslays hfinishes =>
    exact ⟨.timedOut, nofun, (hfinishes.reports hslays.told).append_left [_, _]⟩

theorem RunsBounded.reports {path : Path} {args : List String} {timeout : Duration}
    (h : RunsBounded r path args timeout j (.ok result)) :
    ∃ pid, (⟨.spawn path args, .ok pid⟩ : Exchange) ∈ j ∧
      ∃ c ≠ .escalated, Reports pid c j result := by
  cases h with
  | started now pid hconcludes =>
    obtain ⟨c, hc, hreports⟩ := hconcludes.reports
    exact ⟨pid, by simp, c, hc, hreports.append_left [_, _]⟩

/-- And a stop never says that a deadline has passed. -/
theorem Stops.reports {grace : Duration} (h : Stops r s grace j (.ok result)) :
    ∃ c ≠ .timedOut, Reports s.pid c j result := by
  cases h with
  | gone hfinishes =>
    refine ⟨.exited, nofun, hfinishes.reports (i := [_]) ?_⟩
    rintro told ⟨⟩
    exact ⟨_, List.mem_cons_self, .polled⟩
  | undelivered hasked hslays hfinishes =>
    exact ⟨.escalated, nofun, (hfinishes.reports hslays.told).append_left [_, _]⟩
  | heeded hasked now hfinishes =>
    refine ⟨.exited, nofun, hfinishes.reports (i := [_, _, _, _]) ?_⟩
    rintro told ⟨⟩
    exact ⟨_, by simp, .awaited (now + grace)⟩
  | ignored hasked now hslays hfinishes =>
    exact ⟨.escalated, nofun, (hfinishes.reports hslays.told).append_left [_, _, _, _]⟩

end Runner

end SmokeBench
