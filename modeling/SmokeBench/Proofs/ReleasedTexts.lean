import SmokeBench.Proofs.OutputCapture

/-! The texts that the bench releases. While a dialogue goes on the readers work at a pace of their
own, and no request but that for a pipe takes anything from them. Both pipes are drained against one
deadline, and waiting for the first costs the second nothing, so each text is what its pipe
delivered by then. -/

namespace SmokeBench

open Dialogue

def OutputPipe.stream : OutputPipe → Stream
  | out => .stdout
  | err => .stderr

/-- What the text of a pipe is when the readers began with a trace and heard this much of it. -/
structure Gathered (trace heard : List Happening) (pipe : OutputPipe) (text : String) : Prop where
  decoded : text = Text.Utf8.lossy (delivered (readings pipe heard))
  beginning : delivered (readings pipe heard) <+: delivered (readings pipe trace)
  whole : ended (readings pipe heard) →
    delivered (readings pipe heard) = delivered (readings pipe trace)
  /-- However the stream was cut into reads. -/
  cut : ∀ (chunks : List Chunk) (rest : List Reading),
    (∀ chunk ∈ chunks, chunk.bytes ≠ []) → (∀ last ∈ rest.head?, last.isLast) →
    readings pipe heard = chunks.map .got ++ rest → text = Text.Utf8.lossy (chunks.flatMap (·.bytes))
  /-- Also where a read ended within a character. -/
  undamaged : ∀ t rest, delivered (readings pipe heard) = Bytes.ofString t ++ rest →
    text = t ++ Text.Utf8.lossy rest

theorem Gathered.intro {trace heard : List Happening} {pipe : OutputPipe} (h : heard <+: trace) :
    Gathered trace heard pipe (Text.Utf8.lossy (delivered (readings pipe heard))) where
  decoded := rfl
  beginning := delivered_begins (h.filterMap _)
  whole := delivered_whole (h.filterMap _)
  cut chunks rest hchunks hlast hsplit := by
    have hrest : delivered rest = [] := by
      cases rest with
      | nil => rfl
      | cons last rest => exact delivered_cons_of_last (hlast last rfl)
    rw [hsplit, delivered_chunks hchunks, hrest, List.append_nil]
  undamaged t rest hsplit := by rw [hsplit, Text.Utf8.lossy_append]

/-- A request about a subject that leaves its output alone. -/
def Request.Spares (pid : Pid) (r : Request) : Prop := r.Attends pid ∧ r.drains = false

variable {σ : Type} {world : Host σ} {pace : Request → Attended σ → Nat} {s : Attended σ}
  {pid : Pid} {started : Instant} {trace : List Happening}

namespace Attended

/-- The readers of a subject began at an instant, with a trace to come, and have read what has
happened of it. -/
def Follows (started : Instant) (trace : List Happening) (s : Attended σ) : Prop :=
  ∃ past, trace = past ++ s.coming ∧ s.capture = (Capture.attach started).steps past

theorem Follows.goOn (h : s.Follows started trace) (n : Nat) :
    (s.goOn n).Follows started trace := by
  obtain ⟨past, htrace, hcapture⟩ := h
  refine ⟨past ++ s.coming.take n, ?_, ?_⟩
  · rw [htrace, List.append_assoc]
    exact congrArg (past ++ ·) (List.take_append_drop n _).symm
  · rw [Attended.goOn, hcapture]
    exact List.foldl_append.symm

theorem Follows.answer (h : s.Follows started trace) (request : Request)
    (hspares : request.Spares pid) :
    ((world.attended pace).answer request s).2.Follows started trace := by
  obtain ⟨hattends, hdrains⟩ := hspares
  cases request with
  | drain pid pipe deadline => cases hdrains
  | spawn path args => cases hattends
  | _ => exact h.goOn _

theorem Follows.run {α : Type} {d : Dialogue α} (h : s.Follows started trace)
    (hd : d.Only (Request.Spares pid)) :
    (d.run (world.attended pace) s).2.Follows started trace :=
  hd.invariant (fun request _ hrequest ht => ht.answer request hrequest) h

end Attended

/-- The pipes of a subject are drained, both against one deadline; heard is what of the trace has
happened when it comes. -/
def Drained (host : Host (Attended σ)) (pid : Pid) (grace : Duration) (s : Attended σ)
    (trace : List Happening) (j : List Exchange) (heard : List Happening) : Prop :=
  ∃ i k past out err,
    let reached := after host s i
    let deadline := reached.capture.now + grace
    j = i ++ ⟨.drain pid .out deadline, out⟩ :: ⟨.drain pid .err deadline, err⟩ :: k ∧
    trace = past ++ reached.coming ∧
    heard = past ++ inTime deadline reached.capture.now reached.coming

theorem Drained.append_left {host : Host (Attended σ)} {grace : Duration} {i j : List Exchange}
    {heard : List Happening} (h : Drained host pid grace (after host s i) trace j heard) :
    Drained host pid grace s trace (i ++ j) heard := by
  obtain ⟨i', k, past, out, err, hj, htrace, hheard⟩ := h
  rw [← after_append] at hj htrace hheard
  exact ⟨i ++ i', k, past, out, err, by rw [hj, List.append_assoc], htrace, hheard⟩

/-- A result tells what both pipes delivered until they were drained. -/
def Runner.Releases (r : Runner) (host : Host (Attended σ)) (pid : Pid) (s : Attended σ)
    (trace : List Happening) (j : List Exchange) (result : RunResult) : Prop :=
  ∃ heard, Drained host pid r.drainGrace s trace j heard ∧
    ∀ pipe : OutputPipe, Gathered trace heard pipe (result.text pipe.stream)

theorem Runner.Releases.append_left {r : Runner} {host : Host (Attended σ)} {i j : List Exchange}
    {result : RunResult} (h : r.Releases host pid (after host s i) trace j result) :
    r.Releases host pid s trace (i ++ j) result := by
  obtain ⟨heard, hdrained, htexts⟩ := h
  exact ⟨heard, hdrained.append_left, htexts⟩

/-- Whatever result a dialogue comes to, of a subject with these readers, tells that. -/
def Runner.Told {α : Type} (r : Runner) (host : Host (Attended σ)) (pid : Pid)
    (result? : α → Option RunResult) (d : Dialogue α) : Prop :=
  ∀ s started trace, s.Follows started trace → ∀ result, result? (d.run host s).1 = some result →
    r.Releases host pid s trace (d.journal host s) result

namespace Runner

variable {r : Runner} {subject : Subject}

section Told

variable {α β : Type}

theorem Told.bind {d : Dialogue α} {f : α → Dialogue β} {result? : β → Option RunResult}
    (hd : d.Only (Request.Spares pid)) (hf : ∀ a, r.Told (world.attended pace) pid result? (f a)) :
    r.Told (world.attended pace) pid result? (d >>= f) := by
  intro s started trace h result hresult
  rw [run_bind] at hresult
  have hreleases := hf _ _ started trace (h.run hd) result hresult
  rw [← after_journal] at hreleases
  rw [journal_bind, ← after_journal]
  exact hreleases.append_left

theorem Told.map {d : Dialogue α} {f : α → β} {result? : β → Option RunResult}
    {host : Host (Attended σ)} (h : r.Told host pid (result? ∘ f) d) :
    r.Told host pid result? (f <$> d) := by
  intro s started trace hfollows result hresult
  rw [run_map] at hresult
  rw [journal_map]
  exact h s started trace hfollows result hresult

theorem giveUp_told {host : Host (Attended σ)} (e : IoError) :
    r.Told host pid Except.toOption
      (giveUp subject e : Dialogue (Except RunError RunResult)) := by
  intro s started trace h result hresult
  cases hresult

end Told

theorem drain_told (status : Option ExitStatus) (c : Completion) (elapsed : Duration) :
    r.Told (world.attended pace) subject.pid some (do
      let deadline := (← now) + r.drainGrace
      let out : Bytes ← ask (.drain subject.pid .out deadline)
      let err : Bytes ← ask (.drain subject.pid .err deadline)
      ask (.release subject.pid)
      return resultOf status c out err elapsed : Dialogue RunResult) := by
  intro s started trace h result hresult
  set t := ((world.attended pace).answer .clock s).2
  obtain ⟨past, htrace, hcapture⟩ : t.Follows started trace :=
    h.answer .clock (show Request.Spares subject.pid .clock from ⟨trivial, rfl⟩)
  set deadline := t.capture.now + r.drainGrace
  set heard := past ++ inTime deadline t.capture.now t.coming
  have hheard : heard <+: trace := by
    rw [htrace]
    exact (List.prefix_append_right_inj past).mpr (inTime_begins _ _ _)
  set out := t.capture.collect .out deadline t.coming
  set err := out.2.1.collect .err deadline out.2.2
  obtain ⟨hout, herr⟩ : out.1 = delivered (readings .out heard) ∧
      err.1 = delivered (readings .err heard) := Capture.collect_both _ _ hcapture _
  obtain rfl : resultOf status c out.1 err.1 elapsed = result := Option.some.inj hresult
  refine ⟨heard, ⟨[⟨.clock, t.capture.now⟩], [⟨.release subject.pid, ()⟩], past, out.1, err.1, rfl,
    htrace, rfl⟩, fun pipe => ?_⟩
  cases pipe with
  | out => exact hout ▸ .intro hheard
  | err => exact herr ▸ .intro hheard

section Courses

variable (r subject)

theorem awaitFor_sparing (span : Duration) :
    (awaitFor subject span).Only (Request.Spares subject.pid) :=
  (awaitFor_only subject span).and (awaitFor_undrained subject span)

theorem killAndReap_sparing : (r.killAndReap subject).Only (Request.Spares subject.pid) :=
  (r.killAndReap_only subject).and (r.killAndReap_undrained subject)

theorem finish_told (status : Option ExitStatus) (c : Completion) :
    r.Told (world.attended pace) subject.pid some (r.finish subject status c) :=
  .bind (only_ask ⟨trivial, rfl⟩) fun _ => .bind (sendSignal_only ⟨rfl, rfl⟩).discard fun _ =>
    drain_told status c _

theorem exited_told (status : Option ExitStatus) (c : Completion) :
    r.Told (world.attended pace) subject.pid Except.toOption
      (.ok <$> r.finish subject status c : Dialogue (Except RunError RunResult)) :=
  .map (r.finish_told subject status c)

theorem killed_told (c : Completion) :
    r.Told (world.attended pace) subject.pid Except.toOption (do
      let status ← r.killAndReap subject
      .ok <$> r.finish subject status c : Dialogue (Except RunError RunResult)) :=
  .bind (r.killAndReap_sparing subject) fun _ => r.exited_told subject _ c

theorem conclude_told (timeout : Duration) :
    r.Told (world.attended pace) subject.pid Except.toOption (r.conclude subject timeout) := by
  refine .bind (awaitFor_sparing subject timeout) fun waited => ?_
  split
  · exact giveUp_told _
  · exact r.exited_told subject _ _
  · exact r.killed_told subject _

theorem stop_told (grace : Duration) :
    r.Told (world.attended pace) subject.pid Except.toOption (r.stop subject grace) := by
  refine .bind (only_ask ⟨rfl, rfl⟩) fun polled => ?_
  split
  · exact giveUp_told _
  · exact r.exited_told subject _ _
  · refine .bind (sendSignal_only ⟨rfl, rfl⟩) fun asked => ?_
    split
    · exact r.killed_told subject _
    · refine .bind (awaitFor_sparing subject grace) fun waited => ?_
      split
      · exact giveUp_told _
      · exact r.exited_told subject _ _
      · exact r.killed_told subject _

end Courses

end Runner

/-- A subject that was started has readers of its own, which begin with what comes after. -/
theorem Attended.follows_spawn {path : Path} {args : List String}
    (h : ((world.attended pace).answer (.spawn path args) s).1 = .ok pid) :
    let born := ((world.attended pace).answer (.spawn path args) s).2
    born.Follows born.capture.now born.coming := by
  dsimp only [Host.attended] at h ⊢
  split at h
  · exact ⟨[], rfl, rfl⟩
  · cases h

/-- Whatever the pipes of a subject deliver, in whatever reads and in whatever order, the texts of a
result are what each of them delivered until the deadline of the drain, decoded as a whole. -/
theorem Runner.releases_what_was_delivered (world : Host σ) (pace : Request → Attended σ → Nat)
    (r : Runner) (s : Attended σ) :
    let host := world.attended pace
    (∀ path args timeout result,
      let d := r.runBounded path args timeout
      (d.run host s).1 = .ok result →
      ∃ now pid,
        let begun : List Exchange := [⟨.clock, now⟩, ⟨.spawn path args, .ok pid⟩]
        begun <+: d.journal host s ∧
        r.Releases host pid s (after host s begun).coming (d.journal host s) result) ∧
    ∀ subject grace started trace result,
      let d := r.stop subject grace
      s.Follows started trace → (d.run host s).1 = .ok result →
      r.Releases host subject.pid s trace (d.journal host s) result := by
  refine ⟨fun path args timeout result hresult => ?_,
    fun subject grace started trace result h hresult => ?_⟩
  · rw [runBounded_eq, run_bind] at hresult
    rw [runBounded_eq, journal_bind]
    obtain ⟨now, ⟨e, hspawned, -⟩ | ⟨pid, hspawned, hjournal⟩⟩ :=
      spawn_cases (world.attended pace) s path args
    · rw [hspawned] at hresult
      cases hresult
    · rw [hspawned] at hresult ⊢
      refine ⟨now, pid, hjournal ▸ List.prefix_append _ _, ?_⟩
      rw [← after_journal, hjournal] at hresult ⊢
      -- The readers begin at the spawn, so what follows it is a run with readers of its own.
      have hgenuine := hjournal ▸ genuine_journal (spawn path args) s
      have hfollows := Attended.follows_spawn hgenuine.2.1.symm
      exact (r.conclude_told ⟨path, pid, now⟩ timeout _ _ _ hfollows result
        (congrArg Except.toOption hresult)).append_left
  · exact r.stop_told subject grace s started trace h result
      (congrArg Except.toOption hresult)

/-- One byte of the letter comes while the subject runs, the other when it is over; then its pipe is
closed. The second pipe is held open, and what comes late on it is lost. -/
def halfLetters : List Happening :=
  [.read .out (.got ⟨[0xC3], by decide⟩), .read .err (.got ⟨[0x6E], by decide⟩),
    .read .out (.got ⟨[0xA9], by decide⟩), .read .out (.got ⟨[], by decide⟩),
    .tick (.ofMillis 600), .read .err (.got ⟨[0x6F], by decide⟩)]

/-- Two turns happen in a wait for the end. -/
def slowly (request : Request) (_ : Attended Unit) : Nat :=
  match request with
  | .awaitExit _ _ => 2
  | _ => 0

theorem releases_half_letters :
    let host := Host.still.attended slowly
    let s : Attended Unit := ⟨(), .attach .zero, halfLetters⟩
    let run := Runner.standard.runBounded (.ofString "/bin/p") [] (.ofSecs 10)
    let stop := Runner.standard.stop ⟨.ofString "/bin/p", 7, .zero⟩ (.ofSecs 10)
    let result : RunResult := ⟨some 0, none, "é", "n", .zero, false, false⟩
    (run.run host s).1 = .ok result ∧ (stop.run host s).1 = .ok result ∧
    (∃ now pid,
      let begun : List Exchange := [⟨.clock, now⟩, ⟨.spawn (.ofString "/bin/p") [], .ok pid⟩]
      begun <+: run.journal host s ∧ Runner.standard.Releases host pid s
        (after host s begun).coming (run.journal host s) result) ∧
    Runner.standard.Releases host 7 s halfLetters (stop.journal host s) result := by
  have hrun : ((Runner.standard.runBounded (.ofString "/bin/p") [] (.ofSecs 10)).run
      (Host.still.attended slowly) ⟨(), .attach .zero, halfLetters⟩).1 =
        .ok ⟨some 0, none, "é", "n", .zero, false, false⟩ := by decide
  have hstop : ((Runner.standard.stop ⟨.ofString "/bin/p", 7, .zero⟩ (.ofSecs 10)).run
      (Host.still.attended slowly) ⟨(), .attach .zero, halfLetters⟩).1 =
        .ok ⟨some 0, none, "é", "n", .zero, false, false⟩ := by decide
  have hreleases := Runner.releases_what_was_delivered Host.still slowly .standard
    ⟨(), .attach .zero, halfLetters⟩
  exact ⟨hrun, hstop, hreleases.1 _ _ _ _ hrun, hreleases.2 _ _ _ _ _ ⟨[], rfl, rfl⟩ hstop⟩

end SmokeBench
