import SmokeBench.Machine.Tools

/-!
A shell at work: the machine, the process the shell runs in and the state of the shell, held together
while one step is made. What a step does to its own process goes back to the machine at its end.
-/

namespace SmokeBench.Machine.Shell

structure Acting where
  machine : Machine
  process : Process
  shell : State
  /-- The process is no longer this shell: it has ended or has become a program. -/
  gone : Bool

abbrev Act := StateM Acting

namespace Acting

def commit (a : Acting) : Machine :=
  if a.gone then a.machine else a.machine.update { a.process with task := .shell a.shell }

def reload (a : Acting) (m : Machine) : Acting :=
  match m.find? a.process.pid with
  | none => { a with machine := m, gone := true }
  | some p =>
    match p.task with
    | .shell s => ⟨m, p, s, !p.alive⟩
    | .tool _ => { a with machine := m, gone := true }

end Acting

namespace Act

def shell : Act State := return (← get).shell

def changeShell (f : State → State) : Act Unit := modify fun a => { a with shell := f a.shell }

def changeProcess (f : Process → Process) : Act Unit :=
  modify fun a => { a with process := f a.process }

/-- Lets the machine change as a whole, the own process included. -/
def changeMachine (f : Machine → Machine) : Act Unit := modify fun a => a.reload (f a.commit)

def setStatus (n : Nat) : Act Unit := changeShell fun s => { s with status := n }

def push (frames : List Frame) : Act Unit :=
  changeShell fun s => { s with stack := frames ++ s.stack }

def pop : Act Unit := changeShell fun s => { s with stack := s.stack.drop 1 }

def replace (frames : List Frame) : Act Unit := do
  pop
  push frames

def writeNow (fd : Nat) (text : String) : Act Unit :=
  modify fun a =>
    match a.process.fd? fd with
    | none => a
    | some id =>
      match a.machine.writeTo id text with
      | .done m _ => { a with machine := m }
      | .blocked | .failed _ => a

/-- Tells a fault of a builtin command, with the shell's name and the line. -/
def complain (text : String) : Act Unit := do
  let s ← shell
  writeNow 2 s!"{s.name}: {s.line}: {text}\n"

/-- Tells a fault of the shell itself. -/
def report (text : String) : Act Unit := do complain ((← shell).context ++ text)

def leave (status : Nat) : Act Unit :=
  changeShell fun s => { s with status := status % 256, stack := [.finish] }

def abort (text : String) : Act Unit := do
  complain text
  leave 2

def abortReport (text : String) : Act Unit := do
  report text
  leave 2

/-- Ends the command with a text for standard output. -/
def sayAndEnd (text : String) (status : Nat) : Act Unit :=
  if text.isEmpty then setStatus status else push [.write 1 text status]

/-- Descriptors from this one on belong to the shell and are not passed to programs. -/
def firstOwnFd : Nat := 10

def restoreFds (saved : List (Nat × Option Nat)) : Act Unit :=
  changeProcess fun p => saved.foldl (fun p (fd, kept) =>
    match kept.bind fun k => (p.fd? k).map (k, ·) with
    | some (k, id) => (p.setFd fd id).closeFd k
    | none => p.closeFd fd) p

def restoreVariables (saved : List (String × Option Variable)) : Act Unit :=
  changeShell fun s => saved.foldl (fun s (name, old) =>
    match old with
    | some v => s.setVariable name v
    | none => s.unset name) s

/-- Takes back what a frame stands for when it is left early. -/
def undo (f : Frame) : Act Unit :=
  match f with
  | .restore saved => restoreFds saved
  | .tested => changeShell fun s => { s with tested := s.tested - 1 }
  | .assigned saved => restoreVariables saved
  | .callEnd args locals => do
    restoreVariables locals
    changeShell fun s => { s with args }
  | .sourceEnd outer _ context =>
    changeShell fun s => { s with
      source := { outer with documents := s.source.documents }, context := context }
  | _ => return ()

/-- Leaves all frames above the first that `stops`. -/
def unwind (stops : Frame → Bool) : List Frame → Act Unit
  | [] => changeShell fun s => { s with stack := [] }
  | f :: rest =>
    if stops f then changeShell fun s => { s with stack := f :: rest }
    else do
      undo f
      unwind stops rest

def setFd (keep : Bool) (fd : Nat) (goal : Option Nat) : Act (Option (Nat × Option Nat)) := do
  let p := (← get).process
  let kept := p.freeFd firstOwnFd
  let (p, record) := match keep, p.fd? fd with
    | true, some old => (p.setFd kept old, some (fd, some kept))
    | true, none => (p, some (fd, none))
    | false, _ => (p, none)
  changeProcess fun _ => match goal with
    | some id => p.setFd fd id
    | none => p.closeFd fd
  return record

/-- The wording of a failed open: what is missing is told by what was wanted. -/
def wording (e : IoError) (missing : String) : String :=
  if e == .notFound || e == .notADirectory then missing else e.strerror

def missingFile (e : IoError) : String := wording e "No such file"
def missingDirectory (e : IoError) : String := wording e "Directory nonexistent"
def missingProgram (e : IoError) : String := wording e "not found"

/-- What a redirection leads to; none closes. -/
def goalOf (kind : RedirectKind) (target : String) : Act (Except String (Option Nat)) := do
  let a ← get
  match kind with
  | .duplicate =>
    if target == "-" then return .ok none
    else
      match target.toNat? with
      | none => return .error s!"{target}: bad fd number"
      | some n =>
        match a.process.fd? n with
        | some id => return .ok (some id)
        | none => return .error s!"{n}: Bad file descriptor"
  | .document _ =>
    let (pipe, m) := a.machine.addPipe false
    let m := m.setPipe ⟨pipe, target, target.length, false⟩
    let (id, m) := m.addResource (.pipeEnd pipe false)
    set { a with machine := m }
    return .ok (some id)
  | kind =>
    match a.machine.openPath a.process target kind with
    | .ok (id, m) =>
      set { a with machine := m }
      return .ok (some id)
    | .error e =>
      if kind == .read then return .error s!"cannot open {target}: {missingFile e}"
      else return .error s!"cannot create {target}: {missingDirectory e}"

/-- Performs redirections in order; a fault takes back those before it. -/
def redirect (keep : Bool) (done : List (Nat × Option Nat)) :
    List (Nat × RedirectKind × String) → Act (Except String (List (Nat × Option Nat)))
  | [] => return .ok done
  | (fd, kind, target) :: rest => do
    match ← goalOf kind target with
    | .error e =>
      restoreFds done
      return .error e
    | .ok goal =>
      let record ← setFd keep fd goal
      redirect keep (record.toList ++ done) rest

/-- How long it takes until a new program or a copy of the shell does its first step. -/
def programDelay : Nat := 500000
def copyDelay : Nat := 100000

def forkShell (stack : List Frame) (change : Process → Process) : Act Nat := do
  let a ← get
  let s := { a.shell with stack, traps := [], caught := [], children := [], ended := [] }
  let (pid, m) := a.machine.fork a.process fun c =>
    change { c with task := .shell s, notBefore := a.machine.clock + copyDelay }
  set { a with machine := m }
  return pid

def programFds (p : Process) : Process := { p with fds := p.fds.filter fun e => e.1 < firstOwnFd }

def forkProgram (task : Task) : Act Nat := do
  let a ← get
  let (pid, m) := a.machine.fork a.process fun c =>
    programFds { c with task := task.withPid c.pid, exported := a.shell.exported, notBefore := a.machine.clock + programDelay }
  set { a with machine := m }
  return pid

def becomeProgram (task : Task) : Act Unit :=
  modify fun a =>
    let p := programFds { a.process with
      task, exported := a.shell.exported, notBefore := a.machine.clock + programDelay }
    { a with machine := a.machine.update p, gone := true }

def runText (text : String) (isFile : Bool) (context : String) (after : List Frame) : Act Unit :=
  changeShell fun s => { s with
    source := ⟨text.toList, 1, [], s.source.documents⟩
    context := context
    stack := .program :: .sourceEnd s.source isFile s.context :: after ++ s.stack }

def taskFor (name : String) (args : List String) : Act (Except IoError Task) := do
  let a ← get
  let p := { a.process with exported := a.shell.exported }
  let path := (a.shell.get? "PATH").getD searchPath
  if name.toList.contains '/' then
    match execTask a.machine p name args with
    | .error .execFormat => return .ok (shellTask a.machine p name (name :: args))
    | r => return r
  else return searchIn a.machine p name args false (path.splitOn ":")

/-- Tells why a program was not found, and the status that stands for it. -/
def noProgram (name : String) (e : IoError) : Act Nat := do
  report s!"{name}: {missingProgram e}"
  return if e == .notFound || e == .notADirectory then 127 else 126

end Act

end SmokeBench.Machine.Shell
