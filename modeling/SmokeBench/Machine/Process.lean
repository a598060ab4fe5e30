import SmokeBench.Machine.FileTree
import SmokeBench.Machine.Octets
import SmokeBench.Machine.Shell.Parser
import SmokeBench.Machine.Signals

/-!
Processes of the simulated machine: what they run, which descriptors they hold and what becomes of
them. The shell is a stack machine; a tool goes through a few stages of its own.
-/

namespace SmokeBench.Machine

namespace Shell

structure Variable where
  value : String
  exported : Bool

/-- What is to be done with the outputs of command substitutions once all are known. -/
inductive Pending
  | simple (line : Nat) (assignments : List (String × Word)) (words : List Word)
      (redirects : List Redirect)
  | each (name : String) (words : List Word) (body : List Item)
  | select (word : Word) (clauses : List Clause)
  | redirected (redirects : List Redirect) (command : Command)

inductive Frame
  /-- Reads and runs the next complete command. -/
  | program
  /-- Reads the whole program from standard input. -/
  | readProgram
  | items (todo : List Item)
  | command (c : Command)
  /-- Puts descriptors back that a redirection had replaced: each with the one that holds what it led
  to before. -/
  | restore (saved : List (Nat × Option Nat))
  | andThen (c : Command)
  | orElse (c : Command)
  | negate
  /-- Leaves a stretch whose failures do not end the shell. -/
  | tested
  | branch (body alternative : List Item)
  /-- Goes on or leaves the loop; `last` is the status the loop has so far. -/
  | loopTest (isUntil : Bool) (last : Nat) (condition body : List Item)
  | loopNext (isUntil : Bool) (condition body : List Item)
  | each (name : String) (values : List String) (body : List Item)
  /-- The end of a function: its caller's arguments and variables come back. -/
  | callEnd (args : List String) (locals : List (String × Option Variable))
  /-- Waits for the processes of a foreground pipeline; the last one gives the status. -/
  | await (pids : List Nat) (last : Nat)
  | awaitAll
  | awaitOne (pid : Nat)
  /-- Runs command substitutions one after the other, then what is pending. -/
  | gather (todo : List (List Item)) (done : List String) (pending : Pending)
  | collect (fd : Nat) (pid : Nat) (text : String) (todo : List (List Item)) (done : List String)
      (pending : Pending)
  | write (fd : Nat) (text : String) (status : Nat)
  | readLine (raw : Bool) (names : List String) (text : String)
  | trapEnd (status : Nat)
  /-- Back to the text that was being read before an eval, a trap or a file that was read in. -/
  | sourceEnd (outer : Source) (isFile : Bool) (context : String)
  /-- Puts back variables that held for one command only. -/
  | assigned (saved : List (String × Option Variable))
  /-- Ends a shell that is to end at the first failure. -/
  | check
  | finish
  /-- The end proper, after the trap on exit has run. -/
  | depart (status : Nat)

structure State where
  name : String
  args : List String
  /-- The number of the shell that reads the program, also inside its subshells. -/
  mainPid : Nat
  status : Nat
  vars : List (String × Variable)
  functions : List (String × Command)
  traps : List (SignalNumber × String)
  caught : List SignalNumber
  lastBackground : Option Nat
  children : List Nat
  ended : List (Nat × Nat)
  errexit : Bool
  nounset : Bool
  xtrace : Bool
  tested : Nat
  source : Source
  stack : List Frame
  /-- The line of the simple command being run, for messages. -/
  line : Nat
  /-- The builtin command being run. -/
  running : String
  /-- What stands before a message inside a text that a builtin command runs. -/
  context : String
  /-- The status of the last command substitution, for a command that is only assignments. -/
  substituted : Option Nat

end Shell

/-- How a tool treats what it reads. -/
inductive Filter
  | copy
  | headBytes (left : Nat)
  | headLines (left : Nat)
  | tailLines (count : Nat) (held : String)
  | tailBytes (count : Nat) (held : String)
  | translate (delete squeeze complement : Bool) (source goal : List Char) (last : Option Char)
  | count (wanted : List Char) (lines words bytes : Nat) (inWord : Bool) (label : String)
  | tee (fds : List Nat)
  | sort (reverse unique numeric : Bool) (held : String)
  /-- Keeps the lines that are wanted, with their numbers or only their count; `held` is the line not
  yet ended. -/
  | select (wanted : String → Bool) (numbered counted quiet : Bool) (held : String)
      (line hits : Nat)

inductive Tool
  | start (name : String) (args : List String)
  /-- Does nothing until a signal ends it. -/
  | idle
  | exit (code : Nat)
  | emit (fd : Nat) (text : String) (next : Tool)
  | repeating (text : String)
  /-- Reads the descriptors in order. -/
  | filter (f : Filter) (inputs : List Nat) (code : Nat)

inductive Task
  | shell (s : Shell.State)
  | tool (t : Tool)

/-- A shell knows the number of its process. -/
def Task.withPid (pid : Nat) : Task → Task
  | .shell s => .shell { s with mainPid := pid }
  | .tool t => .tool t

inductive Life
  | running
  | stopped
  | ended (status : ExitStatus)
  deriving DecidableEq, Repr

structure Process where
  pid : Nat
  parent : Nat
  group : Nat
  life : Life
  fds : List (Nat × Nat)
  cwd : Location
  exported : List (String × String)
  ignored : List SignalNumber
  pending : List SignalNumber
  /-- Nothing is done before this time. -/
  notBefore : Nat
  task : Task

namespace Process

def alive (p : Process) : Bool :=
  match p.life with
  | .ended _ => false
  | _ => true

def fd? (p : Process) (fd : Nat) : Option Nat := (p.fds.find? (·.1 == fd)).map (·.2)

def setFd (p : Process) (fd description : Nat) : Process :=
  { p with fds := (fd, description) :: p.fds.filter (·.1 != fd) }

def closeFd (p : Process) (fd : Nat) : Process :=
  { p with fds := p.fds.filter (·.1 != fd) }

def freeFd (p : Process) (least : Nat) : Nat :=
  ((List.range (p.fds.length + 1)).map (· + least)).find? (fun n => (p.fd? n).isNone)
    |>.getD (least + p.fds.length + 1)

def workingDir (p : Process) : String :=
  if p.cwd.isEmpty then "/" else octets (FileTree.joined p.cwd)

end Process

/-- What an open descriptor leads to. Processes that share a descriptor share its offset. -/
inductive Resource
  | pipeEnd (pipe : Nat) (writes : Bool)
  | file (serial offset : Nat) (append : Bool)
  | device (kind : Device)
  | directory
  deriving DecidableEq, Repr

structure Pipe where
  id : Nat
  content : String
  size : Nat
  /-- A pipe that the bench drains takes everything. -/
  drained : Bool
  deriving Repr

def pipeCapacity : Nat := 65536

end SmokeBench.Machine
