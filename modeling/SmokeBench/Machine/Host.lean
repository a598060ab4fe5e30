import SmokeBench.Capture
import SmokeBench.Machine.Run

/-!
A simulated machine as a host of the bench. A subject is the leader of a new group, with nothing to
read and two pipes for what it writes; it is kept after its end until the bench gives it up. The
readers of its pipes keep up with it.
-/

namespace SmokeBench.Machine

def suffixLetters : List Char :=
  "ABCDEFGHIJKLMNOPQRSTUVWXYZabcdefghijklmnopqrstuvwxyz0123456789".toList

/-- Six letters and digits that differ from one number to the next. -/
def suffixOf (n : Nat) : String :=
  let mixed := (n * 1103515245 + 12345) % Nat.pow 62 6
  String.ofList ((List.range 6).map fun k => suffixLetters.getD (mixed / Nat.pow 62 k % 62) 'A')

/-- Even the shortest sleep takes a while. -/
def leastSleep : Nat := 60000

/-- How long it takes until a subject does its first step. -/
def spawnDelay : Nat := 1000000

def leaderStatus (m : Machine) (pid : Pid) : Option ExitStatus :=
  (m.find? pid).bind fun p => match p.life with
    | .ended status => some status
    | _ => none

def startSubject (m : Machine) (path : Path) (args : List String) : Except IoError Pid × Machine :=
  let program := octets path.bytes
  let args := args.map octetsOf
  if (program :: args).any fun a => a.toList.contains '\x00' then (.error .nulInArgument, m)
  else
    let pid := m.nextPid
    let p : Process := {
      pid := pid
      parent := 0
      group := pid
      life := .running
      fds := []
      cwd := m.cwd
      exported := m.environment.map fun v => (octetsOf v.1, octets v.2)
      ignored := []
      pending := []
      notBefore := m.clock + spawnDelay
      task := .tool .idle }
    match programTask m p program args with
    | .error e => (.error e, m)
    | .ok task =>
      let (null, m) := m.addResource (.device .null)
      let (out, m) := m.addPipe true
      let (err, m) := m.addPipe true
      let (outEnd, m) := m.addResource (.pipeEnd out true)
      let (errEnd, m) := m.addResource (.pipeEnd err true)
      let p := { p with fds := [(0, null), (1, outEnd), (2, errEnd)], task }
      (.ok pid, { m with
        processes := m.processes ++ [p], nextPid := pid + 1
        captures := (pid, out, err) :: m.captures })

def pipeFor (m : Machine) (pid : Pid) (pipe : OutputPipe) : Nat :=
  match m.captures.find? (·.1 == pid), pipe with
  | some (_, out, _), .out => out
  | some (_, _, err), .err => err
  | none, _ => 0

def pipeContent (m : Machine) (id : Nat) : Bytes :=
  ((m.pipe? id).map fun p => bytesOf p.content).getD []

def releaseSubject (m : Machine) (pid : Pid) : Machine :=
  let m := if (m.leaderStatus pid).isSome then m else m.signalPids SignalNumber.kill [pid]
  { m with processes := m.processes.filter fun p => p.pid != pid || p.alive }

def signalNumber : Signal → SignalNumber
  | .term => SignalNumber.term
  | .kill => SignalNumber.kill

def changed (m : Machine) (r : Except IoError FileTree) : Except IoError Unit × Machine :=
  match r with
  | .ok tree => (.ok (), { m with tree })
  | .error e => (.error e, m)

def directoryEntries (m : Machine) (path : Path) : Except IoError (List (Bytes × Metadata)) :=
  match m.tree.lookUp m.cwd true path.bytes with
  | .error e => .error e
  | .ok (l, .directory _) =>
    .ok ((m.tree.names l).filterMap fun n =>
      (m.tree.at? (l ++ [n])).map fun e => (n, FileTree.metadataOf e))
  | .ok _ => .error .notADirectory

def scopeMode : Nat := 0o755

def answer : (r : Request) → Machine → r.Reply × Machine
  | .metadata path, m => (m.tree.metadata m.cwd path.bytes, m)
  | .availability path, m => (m.tree.availability m.cwd path.bytes, m)
  | .entries path, m => (m.directoryEntries path, m)
  | .load path, m => (m.tree.load m.cwd path.bytes, m)
  | .store path content, m => m.changed (m.tree.store m.cwd path.bytes content)
  | .makeDir path, m => m.changed (m.tree.makeDir m.cwd path.bytes scopeMode)
  | .removeTree path, m => m.changed (m.tree.removeTree m.cwd path.bytes)
  | .workingDir, m => (.ok ⟨FileTree.joined m.cwd⟩, m)
  | .randomSuffix, m => (suffixOf m.names, { m with names := m.names + 1 })
  | .environment name, m => ((m.environment.find? (·.1 == name)).map (·.2), m)
  | .runnerPath, m => (.ok m.runner, m)
  | .calendar, m => (m.calendarStart + m.clock / 1000000, m)
  | .clock, m => (⟨m.clock⟩, m)
  | .sleep span, m =>
    ((), m.advance (fun _ => false) (m.clock + Nat.max span.nanos leastSleep))
  | .spawn path args, m => m.startSubject path args
  | .awaitExit pid deadline, m =>
    let m := m.advance (fun m => (m.leaderStatus pid).isSome) deadline.nanos
    (.ok (m.leaderStatus pid), m)
  | .pollExit pid, m => (.ok (m.leaderStatus pid), m)
  | .signalGroup pid signal, m =>
    (.ok (), m.signalPids (signalNumber signal) (m.members pid))
  | .killLeader pid, m => (.ok (), m.signalPids SignalNumber.kill [pid])
  | .drain pid pipe deadline, m =>
    let id := m.pipeFor pid pipe
    let m := m.advance (fun m => !m.hasEnd id true) deadline.nanos
    let reads := Happening.reads pipe (m.pipeContent id) (!m.hasEnd id true)
    ((((Capture.attach ⟨m.clock⟩).steps reads).collect pipe deadline []).1, m)
  | .release pid, m => ((), m.releaseSubject pid)
  | .print text, m =>
    let (reply, console) := m.console.accept (Bytes.ofString text)
    (reply, { m with console })
  | .printError text, m => (.ok (), { m with errors := m.errors ++ Bytes.ofString text })

def host : Host Machine := ⟨answer⟩

end SmokeBench.Machine
