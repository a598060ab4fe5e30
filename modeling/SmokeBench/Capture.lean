import SmokeBench.Dialogue

/-!
How the output of a subject is captured. Each of its two pipes has a reader that appends what it
reads to a buffer until the pipe is closed or cannot be read; the readers take their turns in any
order while the subject runs. When it is over the buffers are collected one after the other, each
once its reader has ended or at a deadline, whichever comes first.
-/

namespace SmokeBench

/-- The most that one read gives. -/
def chunkSize : Nat := 8 * 1024

structure Chunk where
  bytes : Bytes
  length_le : bytes.length ≤ chunkSize

/-- The reads that bytes take which lie ready. Each gives as much as it can. -/
def Chunk.cut (b : Bytes) : List Chunk :=
  if b = [] then [] else ⟨b.take chunkSize, List.length_take_le _ _⟩ :: cut (b.drop chunkSize)
termination_by b.length
decreasing_by
  rename_i h
  have hsize : 0 < chunkSize := by decide
  have hlength : 0 < b.length := List.length_pos_iff.mpr h
  rw [List.length_drop]
  omega

/-- What one read of a pipe comes to. -/
inductive Reading
  | got (chunk : Chunk)
  | failed (cause : IoError)

structure Reader where
  buffer : Bytes
  running : Bool
  deriving DecidableEq, Repr

namespace Reader

def start : Reader := ⟨[], true⟩

/-- A reader that was given up. -/
def stop (r : Reader) : Reader := { r with running := false }

/-- One turn of a reader. A read of nothing tells that the pipe is closed. -/
def take (r : Reader) (reading : Reading) : Reader :=
  if r.running then
    match reading with
    | .got chunk =>
      if chunk.bytes = [] then r.stop else { r with buffer := r.buffer ++ chunk.bytes }
    | .failed _ => r.stop
  else r

end Reader

/-- What happens next: a read of a pipe, or the clock goes on. -/
inductive Happening
  | read (pipe : OutputPipe) (reading : Reading)
  | tick (time : Instant)

/-- The reads of a pipe with this content, and of its end if it is closed. -/
def Happening.reads (pipe : OutputPipe) (content : Bytes) (closed : Bool) : List Happening :=
  (Chunk.cut content).map (fun chunk => read pipe (.got chunk)) ++
    if closed then [read pipe (.got ⟨[], Nat.zero_le _⟩)] else []

/-- The clock after a turn. It never goes back. -/
def Happening.clock (now : Instant) : Happening → Instant
  | read _ _ => now
  | tick time => now.max time

structure Capture where
  now : Instant
  out : Reader
  err : Reader
  deriving DecidableEq, Repr

namespace Capture

/-- The capture of a subject that was just started. -/
def attach (now : Instant) : Capture := ⟨now, .start, .start⟩

def reader (c : Capture) : OutputPipe → Reader
  | .out => c.out
  | .err => c.err

def update (c : Capture) (change : Reader → Reader) : OutputPipe → Capture
  | .out => { c with out := change c.out }
  | .err => { c with err := change c.err }

def step (c : Capture) (turn : Happening) : Capture :=
  match turn with
  | .read pipe reading => c.update (·.take reading) pipe
  | .tick _ => { c with now := turn.clock c.now }

def steps (c : Capture) (turns : List Happening) : Capture := turns.foldl step c

/-- Lets turns happen until a reader has ended, but not beyond a deadline, and leaves the others. -/
def await (pipe : OutputPipe) (deadline : Instant) (c : Capture) :
    List Happening → Capture × List Happening
  | [] => ({ c with now := if (c.reader pipe).running then c.now.max deadline else c.now }, [])
  | turn :: rest =>
    if (c.reader pipe).running ∧ c.now < deadline then (c.step turn).await pipe deadline rest
    else (c, turn :: rest)

/-- Collects a buffer. A reader that has not ended by then is given up. -/
def collect (c : Capture) (pipe : OutputPipe) (deadline : Instant) (coming : List Happening) :
    Bytes × Capture × List Happening :=
  let (c, coming) := c.await pipe deadline coming
  ((c.reader pipe).buffer, c.update .stop pipe, coming)

end Capture

/-- A world whose subject has its output read, and the turns that are still to come. -/
structure Attended (σ : Type) where
  world : σ
  capture : Capture
  coming : List Happening

variable {σ : Type}

/-- Lets a number of turns happen. -/
def Attended.goOn (s : Attended σ) (n : Nat) : Attended σ :=
  { s with capture := s.capture.steps (s.coming.take n), coming := s.coming.drop n }

/-- The readers work while the world answers, at any pace. The pipes and the clock answer from the
capture, and every subject that is started gets a new one. -/
def Host.attended (world : Host σ) (pace : Request → Attended σ → Nat) : Host (Attended σ) where
  answer request s :=
    let later := s.goOn (pace request s)
    match request with
    | .drain _ pipe deadline =>
      let (bytes, capture, coming) := s.capture.collect pipe deadline s.coming
      (bytes, { s with capture, coming })
    | .clock => (later.capture.now, later)
    | .spawn path args =>
      match world.answer (.spawn path args) s.world with
      | (.ok pid, world) => (.ok pid, { later with world, capture := .attach later.capture.now })
      | (.error e, world) => (.error e, { later with world })
    | request =>
      let (reply, world) := world.answer request s.world
      (reply, { later with world })

end SmokeBench
