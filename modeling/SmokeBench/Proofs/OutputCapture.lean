import SmokeBench.Machine.Host
import SmokeBench.Proofs.FaultyBytes
import SmokeBench.Proofs.SubjectEnds
import SmokeBench.Proofs.TimeBounds

/-! What becomes of the output of a subject. A pipe delivers the bytes of its reads, in their order,
up to the read that gives nothing. A reader holds what its own pipe has delivered, in whatever order
the readers take their turns, so what is collected of a pipe is what it delivers until the deadline,
and all of it if that ends it. The bytes become text only then, and where they were cut does not
show. -/

namespace SmokeBench

open Dialogue

namespace Text.Utf8

theorem lossy_append (t : String) (b : Bytes) : lossy (Bytes.ofString t ++ b) = t ++ lossy b := by
  have hscan : scan (Bytes.ofString t ++ b) = t.toList.map some ++ scan b := by
    have hread := foldl_read ((t.toList.map some).reverse ++ []) b Scan.start
    rw [scan, List.foldl_append, Bytes.ofString, Scan.start, feed_text]
    rw [Scan.start, List.nil_append] at hread
    rw [hread, scan, Scan.start]
    unfold Scan.finish
    dsimp only
    split <;> simp
  rw [lossy, hscan, List.map_append, List.map_map, String.ofList_append]
  congr 1
  exact (congrArg String.ofList (List.map_id _)).trans String.ofList_toList

end Text.Utf8

namespace Reading

def bytes : Reading → Bytes
  | got chunk => chunk.bytes
  | failed _ => []

/-- A read that gives nothing is the last one: the pipe is closed, or it cannot be read. -/
def isLast (reading : Reading) : Bool := reading.bytes.isEmpty

end Reading

def delivered (readings : List Reading) : Bytes :=
  (readings.takeWhile fun reading => !reading.isLast).flatMap Reading.bytes

def ended (readings : List Reading) : Bool := readings.any Reading.isLast

section Delivered

variable {reading : Reading} {readings more : List Reading}

theorem delivered_cons_of_last (h : reading.isLast) : delivered (reading :: readings) = [] := by
  simp [delivered, h]

theorem delivered_cons (h : reading.isLast = false) :
    delivered (reading :: readings) = reading.bytes ++ delivered readings := by
  simp [delivered, h]

theorem delivered_append :
    delivered (readings ++ more) =
      delivered readings ++ if ended readings then [] else delivered more := by
  induction readings with
  | nil => rfl
  | cons reading readings ih =>
    rw [List.cons_append, ended, List.any_cons]
    cases hlast : reading.isLast with
    | true => rw [delivered_cons_of_last hlast, delivered_cons_of_last hlast]; rfl
    | false =>
      rw [delivered_cons hlast, delivered_cons hlast, ih, List.append_assoc]
      rfl

/-- It does not matter how a stream is cut into reads. -/
theorem delivered_chunks {chunks : List Chunk} (h : ∀ chunk ∈ chunks, chunk.bytes ≠ []) :
    delivered (chunks.map .got ++ more) = chunks.flatMap (·.bytes) ++ delivered more := by
  induction chunks with
  | nil => rfl
  | cons chunk chunks ih =>
    obtain ⟨hchunk, hchunks⟩ := List.forall_mem_cons.mp h
    have hlast : (Reading.got chunk).isLast = false := by
      simpa [Reading.isLast, Reading.bytes] using hchunk
    rw [List.map_cons, List.cons_append, delivered_cons hlast, ih hchunks, List.flatMap_cons,
      List.append_assoc]
    rfl

theorem Chunk.cut_spec (b : Bytes) :
    (∀ chunk ∈ Chunk.cut b, chunk.bytes ≠ []) ∧ (Chunk.cut b).flatMap (·.bytes) = b := by
  induction b using Chunk.cut.induct with
  | case1 => exact ⟨by simp [cut], by simp [cut]⟩
  | case2 b h ih =>
    obtain ⟨hrest, hwhole⟩ := ih
    rw [cut, if_neg h]
    refine ⟨List.forall_mem_cons.mpr ⟨?_, hrest⟩, ?_⟩
    · exact fun hnil => (List.take_eq_nil_iff.mp hnil).elim (by decide) h
    · rw [List.flatMap_cons, hwhole, List.take_append_drop]

theorem delivered_begins (h : readings <+: more) : delivered readings <+: delivered more := by
  obtain ⟨rest, rfl⟩ := h
  rw [delivered_append]
  exact List.prefix_append _ _

theorem delivered_whole (h : readings <+: more) (hended : ended readings) :
    delivered readings = delivered more := by
  obtain ⟨rest, rfl⟩ := h
  rw [delivered_append, if_pos hended, List.append_nil]

end Delivered

namespace Reader

variable {r : Reader} {reading : Reading}

theorem take_of_last (hrunning : r.running) (h : reading.isLast) : r.take reading = r.stop := by
  unfold take
  rw [if_pos hrunning]
  cases reading with
  | got chunk => exact if_pos (List.isEmpty_iff.mp h)
  | failed cause => rfl

theorem take_of_running (hrunning : r.running) (h : reading.isLast = false) :
    r.take reading = { r with buffer := r.buffer ++ reading.bytes } := by
  unfold take
  rw [if_pos hrunning]
  cases reading with
  | got chunk => exact if_neg fun hnil => by rw [Reading.isLast, Reading.bytes, hnil] at h; cases h
  | failed cause => cases h

theorem foldl_take_of_stopped (h : r.running = false) (readings : List Reading) :
    readings.foldl take r = r := by
  induction readings with
  | nil => rfl
  | cons reading readings ih =>
    have htake : r.take reading = r := by simp [take, h]
    rw [List.foldl_cons, htake, ih]

/-- A reader holds what its pipe has delivered, and goes on until the pipe has ended. -/
theorem foldl_take (hrunning : r.running) (readings : List Reading) :
    readings.foldl take r = ⟨r.buffer ++ delivered readings, !ended readings⟩ := by
  induction readings generalizing r with
  | nil =>
    cases r
    obtain rfl : _ = true := hrunning
    exact congrArg (Reader.mk · true) (List.append_nil _).symm
  | cons reading readings ih =>
    rw [List.foldl_cons, ended, List.any_cons]
    cases hlast : reading.isLast with
    | true =>
      rw [take_of_last hrunning hlast, foldl_take_of_stopped rfl, delivered_cons_of_last hlast,
        List.append_nil]
      rfl
    | false =>
      have hrest := @ih ⟨r.buffer ++ reading.bytes, r.running⟩ hrunning
      rw [take_of_running hrunning hlast, hrest, delivered_cons hlast, List.append_assoc]
      rfl

end Reader

/-- The reading of a pipe that a turn may be. -/
def Happening.reading? (pipe : OutputPipe) : Happening → Option Reading
  | read p reading => if p = pipe then some reading else none
  | tick _ => none

def readings (pipe : OutputPipe) (turns : List Happening) : List Reading :=
  turns.filterMap (Happening.reading? pipe)

theorem delivered_reads (pipe : OutputPipe) (content : Bytes) (closed : Bool) :
    delivered (readings pipe (Happening.reads pipe content closed)) = content := by
  obtain ⟨hchunks, hwhole⟩ := Chunk.cut_spec content
  have hgot : readings pipe ((Chunk.cut content).map fun chunk => .read pipe (.got chunk)) =
      (Chunk.cut content).map .got := by
    rw [readings, List.filterMap_map, ← List.filterMap_eq_map]
    exact List.filterMap_congr fun chunk _ => if_pos rfl
  have hend : delivered (readings pipe
      (if closed then [.read pipe (.got ⟨[], Nat.zero_le _⟩)] else [])) = [] := by
    cases closed with
    | true => cases pipe <;> rfl
    | false => rfl
  unfold readings at hgot hend ⊢
  rw [Happening.reads, List.filterMap_append, hgot, delivered_chunks hchunks, hend, hwhole,
    List.append_nil]

/-- The turns that still happen before the clock comes to a deadline. -/
def inTime (deadline now : Instant) : List Happening → List Happening
  | [] => []
  | turn :: rest => if now < deadline then turn :: inTime deadline (turn.clock now) rest else []

theorem inTime_begins (deadline now : Instant) (turns : List Happening) :
    inTime deadline now turns <+: turns := by
  induction turns generalizing now with
  | nil => exact List.prefix_refl _
  | cons turn rest ih =>
    unfold inTime
    split
    · exact List.cons_prefix_cons.mpr ⟨rfl, ih _⟩
    · exact List.nil_prefix

namespace Capture

variable (c : Capture) (pipe : OutputPipe)

@[simp] theorem now_step (turn : Happening) : (c.step turn).now = turn.clock c.now := by
  cases turn with
  | read p reading => cases p <;> rfl
  | tick time => rfl

@[simp] theorem now_update (change : Reader → Reader) : (c.update change pipe).now = c.now := by
  cases pipe <;> rfl

theorem reader_update_of_ne {other : OutputPipe} (h : other ≠ pipe) (change : Reader → Reader) :
    (c.update change pipe).reader other = c.reader other := by
  cases pipe <;> cases other <;> first | rfl | exact absurd rfl h

theorem reader_step (turn : Happening) :
    (c.step turn).reader pipe = (turn.reading? pipe).toList.foldl Reader.take (c.reader pipe) := by
  cases turn with
  | read p reading => cases p <;> cases pipe <;> rfl
  | tick time => cases pipe <;> rfl

theorem reader_steps (turns : List Happening) :
    (c.steps turns).reader pipe = (readings pipe turns).foldl Reader.take (c.reader pipe) := by
  induction turns generalizing c with
  | nil => rfl
  | cons turn rest ih =>
    have hsplit : readings pipe (turn :: rest) =
        (turn.reading? pipe).toList ++ readings pipe rest := by
      unfold readings
      rw [List.filterMap_cons]
      cases turn.reading? pipe <;> rfl
    rw [hsplit, List.foldl_append, ← reader_step]
    exact ih (c.step turn)

theorem reader_steps_of_stopped (h : (c.reader pipe).running = false) (turns : List Happening) :
    (c.steps turns).reader pipe = c.reader pipe := by
  rw [reader_steps, Reader.foldl_take_of_stopped h]

theorem buffer_attach (now : Instant) (turns : List Happening) :
    (((attach now).steps turns).reader pipe).buffer = delivered (readings pipe turns) := by
  have hstart : (attach now).reader pipe = .start := by cases pipe <;> rfl
  rw [reader_steps, hstart, Reader.foldl_take rfl]
  exact List.nil_append _

def atDeadline (deadline : Instant) (coming : List Happening) : Capture :=
  c.steps (inTime deadline c.now coming)

variable (deadline : Instant)

theorem buffer_atDeadline {started : Instant} {past : List Happening}
    (h : c = (attach started).steps past) (coming : List Happening) :
    ((c.atDeadline deadline coming).reader pipe).buffer =
      delivered (readings pipe (past ++ inTime deadline c.now coming)) := by
  have hsteps : c.atDeadline deadline coming =
      (attach started).steps (past ++ inTime deadline c.now coming) := by
    rw [atDeadline, steps, steps, List.foldl_append]
    exact congrArg (List.foldl step · _) h
  rw [hsteps, buffer_attach]

/-- A wait for one reader takes nothing from what is there at the deadline. -/
theorem await_atDeadline (coming : List Happening) (other : OutputPipe) :
    let left := c.await pipe deadline coming
    (left.1.atDeadline deadline left.2).reader other =
      (c.atDeadline deadline coming).reader other := by
  induction coming generalizing c with
  | nil => cases other <;> rfl
  | cons turn rest ih =>
    dsimp only
    unfold await
    split
    · rename_i h
      have hstep : c.atDeadline deadline (turn :: rest) =
          (c.step turn).atDeadline deadline rest := by
        rw [atDeadline, inTime, if_pos h.2, atDeadline, now_step]
        rfl
      rw [hstep]
      exact ih (c.step turn)
    · rfl

/-- The wait is over when its reader has ended or the deadline has come, so more of it is not to be
had by then. -/
theorem await_buffer (coming : List Happening) :
    ((c.await pipe deadline coming).1.reader pipe).buffer =
      ((c.atDeadline deadline coming).reader pipe).buffer := by
  induction coming generalizing c with
  | nil => cases pipe <;> rfl
  | cons turn rest ih =>
    unfold await atDeadline inTime
    split
    · rename_i h
      rw [if_pos h.2, ih, atDeadline, now_step]
      rfl
    · rename_i h
      split
      · -- Only a reader that has ended ends the wait early, and it takes no more.
        rename_i hearly
        have hstopped : (c.reader pipe).running = false := by simpa [hearly] using h
        rw [reader_steps_of_stopped c pipe hstopped]
      · rfl

theorem collect_bytes (coming : List Happening) :
    (c.collect pipe deadline coming).1 = ((c.atDeadline deadline coming).reader pipe).buffer :=
  c.await_buffer pipe deadline coming

theorem collect_other {other : OutputPipe} (h : other ≠ pipe) (coming : List Happening) :
    let left := (c.collect pipe deadline coming).2
    (left.1.atDeadline deadline left.2).reader other =
      (c.atDeadline deadline coming).reader other := by
  have hawait := c.await_atDeadline pipe deadline coming other
  dsimp only [collect] at hawait ⊢
  rw [atDeadline, reader_steps] at hawait ⊢
  rw [reader_update_of_ne _ _ h, now_update]
  exact hawait

theorem collect_both {started : Instant} {past : List Happening}
    (h : c = (attach started).steps past) (coming : List Happening) :
    let heard := past ++ inTime deadline c.now coming
    let out := c.collect .out deadline coming
    let err := out.2.1.collect .err deadline out.2.2
    out.1 = delivered (readings .out heard) ∧ err.1 = delivered (readings .err heard) := by
  have hother : OutputPipe.err ≠ .out := by decide
  constructor
  · rw [collect_bytes, c.buffer_atDeadline _ _ h]
  · rw [collect_bytes, collect_other _ _ _ hother, c.buffer_atDeadline _ _ h]

end Capture

theorem Machine.drain_reply (m : Machine) (pid : Pid) (pipe : OutputPipe) (deadline : Instant) :
    let answer := Machine.host.answer (.drain pid pipe deadline) m
    answer.1 = answer.2.pipeContent (m.pipeFor pid pipe) := by
  refine (Capture.collect_bytes _ pipe deadline []).trans ?_
  exact (Capture.buffer_attach pipe _ _).trans (delivered_reads pipe _ _)

end SmokeBench
