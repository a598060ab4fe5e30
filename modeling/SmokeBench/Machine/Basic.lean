import SmokeBench.Machine.Process

/-!
The state of a simulated machine, and what its processes can do to it: open, read and write
descriptors, start and end processes, send signals. One step of anything takes a fixed time, so
the clock always moves.
-/

namespace SmokeBench

/-- Accepts output up to a limit and then fails. -/
structure Sink where
  written : Bytes
  limit : Option Nat
  failure : IoError
  deriving Repr

/-- Takes as much of a text as the limit allows. -/
def Sink.accept (s : Sink) (text : Bytes) : Except IoError Unit × Sink :=
  match s.limit with
  | none => (.ok (), { s with written := s.written ++ text })
  | some limit =>
    let room := limit - s.written.length
    if text.length ≤ room then (.ok (), { s with written := s.written ++ text })
    else (.error s.failure, { s with written := s.written ++ text.take room })

structure Machine where
  /-- Nanoseconds since the machine was started. -/
  clock : Nat
  calendarStart : Nat
  tree : Machine.FileTree
  cwd : Machine.Location
  environment : List (String × Bytes)
  runner : Path
  processes : List Machine.Process
  resources : List (Nat × Machine.Resource)
  pipes : List Machine.Pipe
  /-- For each process the bench has started, the pipes for its two outputs. -/
  captures : List (Nat × Nat × Nat)
  fresh : Nat
  nextPid : Nat
  /-- The process that ran last. -/
  cursor : Nat
  names : Nat
  console : Sink
  errors : Bytes

namespace Machine

def find? (m : Machine) (pid : Nat) : Option Process := m.processes.find? (·.pid == pid)

def update (m : Machine) (p : Process) : Machine :=
  { m with processes := m.processes.map fun q => if q.pid == p.pid then p else q }

def resource? (m : Machine) (id : Nat) : Option Resource :=
  (m.resources.find? (·.1 == id)).map (·.2)

def setResource (m : Machine) (id : Nat) (r : Resource) : Machine :=
  { m with resources := m.resources.map fun e => if e.1 == id then (id, r) else e }

def inUse (m : Machine) (id : Nat) : Bool :=
  m.processes.any fun p => p.fds.any (·.2 == id)

def sweep (m : Machine) : Machine :=
  if m.resources.length ≤ 64 then m
  else
    let kept := m.resources.filter fun e => m.inUse e.1
    let holds (id : Nat) : Bool := kept.any fun
      | (_, .pipeEnd pipe _) => pipe == id
      | _ => false
    { m with resources := kept, pipes := m.pipes.filter fun p => p.drained || holds p.id }

def addResource (m : Machine) (r : Resource) : Nat × Machine :=
  (m.fresh, { m with resources := (m.fresh, r) :: m.resources, fresh := m.fresh + 1 })

def addPipe (m : Machine) (drained : Bool) : Nat × Machine :=
  (m.fresh, { m with pipes := ⟨m.fresh, "", 0, drained⟩ :: m.pipes, fresh := m.fresh + 1 })

def pipe? (m : Machine) (id : Nat) : Option Pipe := m.pipes.find? (·.id == id)

def setPipe (m : Machine) (p : Pipe) : Machine :=
  { m with pipes := m.pipes.map fun q => if q.id == p.id then p else q }

def hasEnd (m : Machine) (pipe : Nat) (writes : Bool) : Bool :=
  m.processes.any fun p => p.fds.any fun (_, id) => m.resource? id == some (.pipeEnd pipe writes)

inductive Written
  /-- What could not be written yet is left. -/
  | done (m : Machine) (left : String)
  | blocked
  | failed (cause : IoError)

def splitText (s : String) (n : Nat) : String × String :=
  let cs := s.toList
  (String.ofList (cs.take n), String.ofList (cs.drop n))

def overwrite (content : Bytes) (offset : Nat) (text : Bytes) : Bytes :=
  if content.length ≤ offset then
    content ++ List.replicate (offset - content.length) 0 ++ text
  else content.take offset ++ text ++ content.drop (offset + text.length)

def writeTo (m : Machine) (id : Nat) (text : String) : Written :=
  match m.resource? id with
  | some (.pipeEnd pipe true) =>
    match m.pipe? pipe with
    | none => .failed .brokenPipe
    | some p =>
      if p.drained then .done (m.setPipe { p with content := p.content ++ text }) ""
      else if !m.hasEnd pipe false then .failed .brokenPipe
      else
        let room := pipeCapacity - p.size
        if room = 0 then .blocked
        else
          let (now, left) := splitText text room
          .done (m.setPipe { p with content := p.content ++ now, size := p.size + now.length }) left
  | some (.file serial offset append) =>
    let bytes := bytesOf text
    let offset := if append then ((m.tree.contentOf serial).getD []).length else offset
    let m := { m with tree := m.tree.updateFile serial fun old => overwrite old offset bytes }
    .done (m.setResource id (.file serial (offset + bytes.length) append)) ""
  | some (.device .full) => if text.isEmpty then .done m "" else .failed .noSpace
  | some (.device _) => .done m ""
  | some (.pipeEnd _ false) | some .directory | none => .failed (.text "Bad file descriptor")

inductive Taken
  | data (text : String) (m : Machine)
  | ended
  | blocked
  | failed (cause : IoError)

def readFrom (m : Machine) (id : Nat) (most : Nat) : Taken :=
  match m.resource? id with
  | some (.pipeEnd pipe false) =>
    match m.pipe? pipe with
    | none => .ended
    | some p =>
      if p.size = 0 then if m.hasEnd pipe true then .blocked else .ended
      else
        let (now, left) := splitText p.content most
        .data now (m.setPipe { p with content := left, size := p.size - now.length })
  | some (.file serial offset append) =>
    match m.tree.contentOf serial with
    | none => .ended
    | some content =>
      let now := (content.drop offset).take most
      if now.isEmpty then .ended
      else .data (octets now) (m.setResource id (.file serial (offset + now.length) append))
  | some (.device .null) => .ended
  | some (.device _) => .data (String.ofList (List.replicate (Nat.min most pipeCapacity) '\x00')) m
  | some .directory => .failed .isADirectory
  | some (.pipeEnd _ true) | none => .failed (.text "Bad file descriptor")

/-- Ends a process. Its children get a new parent, and one that nobody waits for is forgotten. -/
def finish (m : Machine) (pid : Nat) (status : ExitStatus) : Machine :=
  let parentAlive (parent : Nat) : Bool :=
    parent == 0 || m.processes.any fun p => p.pid == parent && p.pid != pid && p.alive
  let adopt (p : Process) : Process := if p.parent == pid then { p with parent := 1 } else p
  let conclude (p : Process) : Process :=
    if p.pid == pid then { p with life := .ended status, fds := [] } else adopt p
  { m with processes := (m.processes.map conclude).filter fun p => p.alive || parentAlive p.parent }

/-- What a signal does to a process that can take it now. -/
def takeSignal (m : Machine) (p : Process) (n : SignalNumber) : Machine :=
  let trapped : Bool := match p.task with
    | .shell s => (s.traps.find? (·.1 == n)).any fun t => !t.2.isEmpty
    | .tool _ => false
  if trapped then
    match p.task with
    | .shell s =>
      if s.caught.contains n then m
      else m.update { p with task := .shell { s with caught := s.caught ++ [n] } }
    | .tool _ => m
  else
    match SignalNumber.effect n with
    | .terminate => m.finish p.pid (.signaled n)
    | .stop => m.update { p with life := .stopped }
    | .resume | .nothing => m

def takeAll (m : Machine) (pid : Nat) : List SignalNumber → Machine
  | [] => m
  | n :: rest =>
    match m.find? pid with
    | none => m
    | some p => takeAll (if p.alive then m.takeSignal p n else m) pid rest

def signal (m : Machine) (n : SignalNumber) (p : Process) : Machine :=
  if !p.alive || n = 0 then m
  else if n = SignalNumber.kill then m.finish p.pid (.signaled n)
  else if n = SignalNumber.stop then m.update { p with life := .stopped }
  else if SignalNumber.effect n = .resume then
    takeAll (m.update { p with life := .running, pending := [] }) p.pid p.pending
  else if p.ignored.contains n then m
  else if p.life = .stopped then m.update { p with pending := p.pending ++ [n] }
  else m.takeSignal p n

def signalPids (m : Machine) (n : SignalNumber) : List Nat → Machine
  | [] => m
  | pid :: rest =>
    match m.find? pid with
    | none => signalPids m n rest
    | some p => signalPids (m.signal n p) n rest

def members (m : Machine) (group : Nat) : List Nat :=
  (m.processes.filter (·.group == group)).map (·.pid)

/-- A copy of a process under a number of its own. -/
def fork (m : Machine) (parent : Process) (change : Process → Process) : Nat × Machine :=
  let child := change { parent with
    pid := m.nextPid, parent := parent.pid, life := .running, pending := [], notBefore := m.clock }
  (m.nextPid, { m with processes := m.processes ++ [child], nextPid := m.nextPid + 1 })

def locate (m : Machine) (p : Process) (path : String) : Except IoError (Location × Entry) :=
  m.tree.lookUp p.cwd true (bytesOf path)

/-- What letting a process run for one step came to. -/
inductive Progress
  | moved (m : Machine)
  | blocked

/-- Opens a path and gives the resource it leads to. -/
def openPath (m : Machine) (p : Process) (path : String) (kind : Shell.RedirectKind) :
    Except IoError (Nat × Machine) :=
  match kind with
  | .write | .append | .readWrite =>
    match m.tree.openForWriting p.cwd (bytesOf path) FileTree.fileMode (kind == .write) with
    | .error e => .error e
    | .ok (.device d, tree) => .ok (addResource { m with tree } (.device d))
    | .ok (.file l, tree) =>
      match tree.at? l with
      | some (.file serial _ _) =>
        .ok (addResource { m with tree } (.file serial 0 (kind == .append)))
      | _ => .error .notFound
  | _ =>
    match m.locate p path with
    | .error e => .error e
    | .ok (_, .file serial _ _) => .ok (m.addResource (.file serial 0 false))
    | .ok (_, .directory _) => .ok (m.addResource .directory)
    | .ok (_, .device d) => .ok (m.addResource (.device d))
    | .ok _ => .ok (m.addResource (.device .null))

end Machine

end SmokeBench
