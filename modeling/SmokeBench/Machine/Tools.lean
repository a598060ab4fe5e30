import SmokeBench.Machine.Exec
import SmokeBench.Machine.Files
import SmokeBench.Machine.Filter
import SmokeBench.Machine.LinePattern
import SmokeBench.Machine.Shell.Condition
import SmokeBench.Machine.Shell.Format

/-!
The tools of a simulated machine. A tool starts with its arguments, does at once what it does to
files, and then writes, waits or filters step by step.
-/

namespace SmokeBench.Machine

open Files (options)

/-- A span of time as `sleep` takes it, in nanoseconds; none is for ever. -/
def spanOf (s : String) : Option (Option Nat) :=
  if s == "infinity" || s == "inf" then some none
  else
    let cs := s.toList
    let (number, unit) := match cs.reverse with
      | 's' :: rest => (rest.reverse, 1)
      | 'm' :: rest => (rest.reverse, 60)
      | 'h' :: rest => (rest.reverse, 3600)
      | 'd' :: rest => (rest.reverse, 86400)
      | _ => (cs, 1)
    let whole := number.takeWhile (· != '.')
    let part := (number.drop whole.length).drop 1
    if (whole ++ part).isEmpty || !(whole ++ part).all Char.isDigit then none
    else
      let value (ds : List Char) : Nat := ds.foldl (fun n c => n * 10 + (c.toNat - 48)) 0
      some (some (unit * (value whole * Nat.pow 10 9 + value part * Nat.pow 10 9 / Nat.pow 10 part.length)))

def spansOf (args : List String) : Option (Option Nat) :=
  args.foldl (fun sum a => do
    let sum ← sum
    let span ← spanOf a
    return do return (← sum) + (← span)) (some (some 0))

def killOrder (args : List String) : Except String (SignalNumber × List String) :=
  let named (name : String) (rest : List String) : Except String (SignalNumber × List String) :=
    match SignalNumber.ofName name with
    | some n => .ok (n, rest)
    | none => .error ("Illegal option -" ++ String.ofList (name.toList.take 1))
  match args with
  | "-s" :: name :: rest => named name rest
  | "--" :: rest => .ok (SignalNumber.term, rest)
  | a :: rest =>
    if a.startsWith "-" && 1 < a.length then
      match named (a.drop 1).toString rest with
      | .ok (n, "--" :: rest) => .ok (n, rest)
      | r => r
    else .ok (SignalNumber.term, a :: rest)
  | [] => .error ("Usage: kill [-s sigspec | -signum | -sigspec] [pid | job]... or\n" ++
      "kill -l [exitstatus]")

/-- Why a signal could not be sent. -/
inductive KillFault
  | number (text : String)
  | noProcess

/-- Sends a signal to one target of a `kill`: a process, or a group when the number is negative. -/
def killTarget (m : Machine) (sender : Process) (n : SignalNumber) (target : String) :
    Except KillFault Machine :=
  match Shell.Arithmetic.number target with
  | none => .error (.number target)
  | some pid =>
    let pids : List Nat :=
      if pid > 0 then [pid.toNat] else if pid = 0 then m.members sender.group else m.members pid.natAbs
    let known := pids.filter fun pid => (m.find? pid).isSome
    if known.isEmpty then .error .noProcess else .ok (m.signalPids n known)

def describeEnv (vars : List (String × String)) : String :=
  String.join (vars.reverse.map fun v => s!"{v.1}={v.2}\n")

def sequence (first step last : Int) : (fuel : Nat) → List Int
  | 0 => []
  | fuel + 1 =>
    if (0 < step ∧ last < first) ∨ (step < 0 ∧ first < last) ∨ step = 0 then []
    else first :: sequence (first + step) step last fuel

def sequenceLimit : Nat := 1000000

namespace Tool

def leave (p : Process) (t : Tool) : Process := { p with task := .tool t }

def say (p : Process) (text : String) (code : Nat) : Process :=
  leave p (if text.isEmpty then .exit code else .emit 1 text (.exit code))

def fault (p : Process) (text : String) (code : Nat) : Process :=
  leave p (if text.isEmpty then .exit code else .emit 2 text (.exit code))

def misuse (p : Process) (name text : String) : Process :=
  fault p (Files.withHint name text ++ "\n") 1

def openInputs (name : String) : List String → Machine → Process → List Nat → String →
    Machine × Process × List Nat × String
  | [], m, p, fds, said => (m, p, fds, said)
  | "-" :: rest, m, p, fds, said => openInputs name rest m p (fds ++ [0]) said
  | path :: rest, m, p, fds, said =>
    match m.openPath p path .read with
    | .error e =>
      let before := if name == "head" || name == "tail" then s!"cannot open '{path}' for reading" else path
      openInputs name rest m p fds (said ++ s!"{name}: {before}: {e.strerror}\n")
    | .ok (id, m) =>
      if m.resource? id == some .directory then
        let before := if name == "head" || name == "tail" then s!"error reading '{path}'" else path
        let e := IoError.isADirectory
        openInputs name rest m p fds (said ++ s!"{name}: {before}: {e.strerror}\n")
      else
        let fd := p.freeFd 3
        openInputs name rest m (p.setFd fd id) (fds ++ [fd]) said

def filtering (m : Machine) (p : Process) (name : String) (f : Filter) (paths : List String) :
    Machine × Process :=
  let (m, p, fds, said) := openInputs name (if paths.isEmpty then ["-"] else paths) m p [] ""
  let code := if said.isEmpty then 0 else if name == "grep" || name == "sort" then 2 else 1
  let t := Tool.filter f fds code
  (m, leave p (if said.isEmpty then t else .emit 2 said t))

/-- The amount after `-c` or `-n`, joined to it or on its own, and what is left. -/
def amount (args : List String) : Option (Char × String) × List String :=
  match args with
  | [] => (none, [])
  | a :: rest =>
    match a.toList with
    | '-' :: c :: cs =>
      if c == 'c' || c == 'n' then
        if cs.isEmpty then
          match rest with
          | n :: rest => (some (c, n), rest)
          | [] => (some (c, ""), [])
        else (some (c, String.ofList cs), rest)
      else if c.isDigit then (some ('n', String.ofList (c :: cs)), rest)
      else
        let (found, left) := amount rest
        (found, left)
    | _ => (none, a :: rest)

def headOrTail (m : Machine) (p : Process) (name : String) (args : List String) : Machine × Process :=
  let (found, paths) := amount args
  let (kind, text) := found.getD ('n', "10")
  match text.toNat? with
  | none =>
    let what := if kind == 'c' then "bytes" else "lines"
    (m, fault p s!"{name}: invalid number of {what}: '{text}'\n" 1)
  | some n =>
    let f : Filter :=
      if name == "head" then if kind == 'c' then .headBytes n else .headLines n
      else if kind == 'c' then .tailBytes n "" else .tailLines n ""
    if n = 0 then (m, leave p (.exit 0)) else filtering m p name f paths

def translator (m : Machine) (p : Process) (args : List String) : Machine × Process :=
  let letters := (args.takeWhile fun a => a.startsWith "-" && 1 < a.length).flatMap (·.toList.drop 1)
  let sets := args.dropWhile fun a => a.startsWith "-" && 1 < a.length
  let delete := letters.contains 'd'
  let squeeze := letters.contains 's'
  let complement := letters.contains 'c' || letters.contains 'C'
  let members (s : String) : List Char := setOf (s.length + 1) s.toList
  match sets with
  | [] => (m, misuse p "tr" "missing operand")
  | [source] =>
    if delete || squeeze then
      filtering m p "tr" (.translate delete squeeze complement (members source) [] none) []
    else (m, misuse p "tr" s!"missing operand after '{source}'")
  | source :: goal :: _ =>
    filtering m p "tr" (.translate delete squeeze complement (members source) (members goal) none) []

def counter (m : Machine) (p : Process) (args : List String) : Machine × Process :=
  let (letters, paths) := options args
  let wanted := if letters.isEmpty then ['l', 'w', 'c'] else letters
  filtering m p "wc" (.count wanted 0 0 0 false (paths.headD "")) (paths.take 1)

def tee (m : Machine) (p : Process) (args : List String) : Machine × Process :=
  let (letters, paths) := options args
  let kind : Shell.RedirectKind := if letters.contains 'a' then .append else .write
  let step (state : Machine × Process × List Nat × String) (path : String) :
      Machine × Process × List Nat × String :=
    let (m, p, fds, said) := state
    match m.openPath p path kind with
    | .error e => (m, p, fds, said ++ s!"tee: {path}: {e.strerror}\n")
    | .ok (id, m) =>
      let fd := p.freeFd 3
      (m, p.setFd fd id, fds ++ [fd], said)
  let (m, p, fds, said) := paths.foldl step (m, p, [], "")
  let t := Tool.filter (.tee fds) [0] (if said.isEmpty then 0 else 1)
  (m, leave p (if said.isEmpty then t else .emit 2 said t))

def grep (m : Machine) (p : Process) (args : List String) : Machine × Process :=
  let (letters, operands) := options args
  match operands with
  | [] => (m, fault p "Usage: grep [OPTION]... PATTERNS [FILE]...\nTry 'grep --help' for more information.\n" 2)
  | pattern :: paths =>
    let pattern := LinePattern.ofText (letters.contains 'i') (letters.contains 'F') pattern
    let wanted (l : String) : Bool := pattern.fits l != letters.contains 'v'
    filtering m p "grep" (.select wanted (letters.contains 'n') (letters.contains 'c')
      (letters.contains 'q') "" 0 0) paths

/-- Copies blocks as `dd` does, without its report. -/
def blocks (m : Machine) (p : Process) (args : List String) : Machine × Process :=
  let given (key : String) : Option String :=
    args.findSome? fun a => if a.startsWith (key ++ "=") then some (a.drop (key.length + 1)).toString else none
  let size := (given "bs").bind fun s =>
    if s.endsWith "k" || s.endsWith "K" then ((s.dropEnd 1).toString.toNat?).map (· * 1024)
    else if s.endsWith "M" then ((s.dropEnd 1).toString.toNat?).map (· * 1048576)
    else s.toNat?
  let f : Filter := match (given "count").bind String.toNat? with
    | some n => .headBytes (n * size.getD 512)
    | none => .copy
  match given "of" with
  | none => filtering m p "dd" f (given "if").toList
  | some path =>
    match m.openPath p path .write with
    | .error e => (m, fault p s!"dd: failed to open '{path}': {e.strerror}\n" 1)
    | .ok (id, m) => filtering m (p.setFd 1 id) "dd" f (given "if").toList

def become (m : Machine) (p : Process) (name : String) (args : List String) : Machine × Process :=
  match args with
  | [] => (m, leave p (.exit 0))
  | program :: args =>
    match programTask m p program args with
    | .ok task => (m, { p with task })
    | .error e =>
      (m, fault p s!"{name}: '{program}': {e.strerror}\n" (if e == .notFound then 127 else 126))

def environment (m : Machine) (p : Process) (args : List String) : Machine × Process :=
  let clear := args.head? == some "-i" || args.head? == some "-"
  let args := if clear then args.drop 1 else args
  let settings := args.takeWhile fun a => a.toList.contains '='
  let set (vars : List (String × String)) (a : String) : List (String × String) :=
    let name := String.ofList (a.toList.takeWhile (· != '='))
    (name, (a.drop (name.length + 1)).toString) :: vars.filter (·.1 != name)
  let exported := settings.foldl set (if clear then [] else p.exported)
  let p := { p with exported }
  match args.drop settings.length with
  | [] => (m, say p (describeEnv exported) 0)
  | command => become m p "env" command

def newSession (m : Machine) (p : Process) (args : List String) : Machine × Process :=
  if p.group == p.pid then
    let (_, m) := m.fork p fun c => (become m { c with group := c.pid } "setsid" args).2
    (m, leave p (.exit 0))
  else become m { p with group := p.pid } "setsid" args

/-- The one program that `perl` is there for. -/
def groupMover : String := "setpgrp(0, shift); exec @ARGV"

/-- Moves to the process group of a number, or to one of its own for 0, and becomes another program. A
group without members cannot be joined. -/
def regroup (m : Machine) (p : Process) (args : List String) : Machine × Process :=
  match args with
  | "-e" :: program :: number :: command =>
    if program != groupMover then (m, fault p "Can't run this program\n" 255)
    else
      let wanted := number.toNat?.getD 0
      let group :=
        if wanted = 0 then p.pid else if (m.members wanted).isEmpty then p.group else wanted
      become m { p with group } "perl" command
  | _ => (m, fault p "Can't run this program\n" 255)

def killing (m : Machine) (p : Process) (args : List String) : Machine × Process :=
  match killOrder args with
  | .error e => (m, fault p s!"kill: {e}\n" 1)
  | .ok (n, targets) =>
    let step (state : Machine × String) (target : String) : Machine × String :=
      match killTarget state.1 p n target with
      | .ok m => (m, state.2)
      | .error (.number t) => (state.1, state.2 ++ s!"kill: failed to parse argument: '{t}'\n")
      | .error .noProcess => (state.1, state.2 ++ s!"kill: ({target}) - No such process\n")
    let (m, said) := targets.foldl step (m.update (leave p (.exit 0)), "")
    match m.find? p.pid with
    | some p => (m, if p.alive then fault p said (if said.isEmpty then 0 else 1) else p)
    | none => (m, { p with life := .ended (.signaled n), fds := [] })

def testing (m : Machine) (p : Process) (args : List String) : Process :=
  let look (last : Bool) (path : String) : Option Entry :=
    match m.tree.lookUp p.cwd last (bytesOf path) with
    | .ok (_, e) => some e
    | .error _ => none
  match Shell.Condition.evaluate look args with
  | .ok b => leave p (.exit (if b then 0 else 1))
  | .error e => fault p s!"test: {e}\n" 2

def counting (p : Process) (args : List String) : Process :=
  let numbers := args.filterMap Shell.Arithmetic.number
  let show? (xs : List Int) : Process := say p (String.join (xs.map fun n => s!"{n}\n")) 0
  match numbers with
  | [last] => show? (sequence 1 1 last sequenceLimit)
  | [first, last] => show? (sequence first 1 last sequenceLimit)
  | [first, step, last] => show? (sequence first step last sequenceLimit)
  | _ => misuse p "seq" "missing operand"

def dirName (path : String) : String :=
  let cs := (path.toList.reverse.dropWhile (· == '/')).dropWhile (· != '/')
  let cs := (cs.dropWhile (· == '/')).reverse
  if cs.isEmpty then if path.startsWith "/" then "/" else "." else String.ofList cs

def baseNameOf (args : List String) : String :=
  let name := Files.fileNameOf (args.headD "")
  match args with
  | [_, ending] =>
    if name.endsWith ending && name != ending then (name.dropEnd ending.length).toString else name
  | _ => name

def begin (m : Machine) (p : Process) (name : String) (args : List String) : Machine × Process :=
  match Files.tools.find? (·.1 == name) with
  | some (_, tool) =>
    let o := tool m.tree p.cwd args
    ({ m with tree := o.tree }, fault p o.said (if o.failed then 1 else 0))
  | none =>
    match name with
    | "true" | "sync" => (m, leave p (.exit 0))
    | "false" => (m, leave p (.exit 1))
    | "sleep" =>
      match args, spansOf args with
      | [], _ => (m, misuse p name "missing operand")
      | a :: _, none => (m, misuse p name s!"invalid time interval '{a}'")
      | _, some none => (m, leave p .idle)
      | _, some (some span) => (m, { leave p (.exit 0) with notBefore := m.clock + span })
    | "echo" =>
      match args with
      | "-e" :: args => (m, say p (Shell.Format.echo true args) 0)
      | args => (m, say p (Shell.Format.echo false args) 0)
    | "printf" =>
      match args with
      | [] => (m, misuse p name "missing operand")
      | format :: args =>
        let (text, faults) := Shell.Format.printf format args
        (m, say p text (if faults.isEmpty then 0 else 1))
    | "cat" => filtering m p name .copy (options args).2
    | "head" | "tail" => headOrTail m p name args
    | "tr" => translator m p args
    | "wc" => counter m p args
    | "tee" => tee m p args
    | "grep" => grep m p args
    | "sort" =>
      let (letters, paths) := options args
      filtering m p name (.sort (letters.contains 'r') (letters.contains 'u') (letters.contains 'n') "") paths
    | "dd" => blocks m p args
    | "yes" => (m, leave p (.repeating (String.intercalate " " (if args.isEmpty then ["y"] else args) ++ "\n")))
    | "seq" => (m, counting p args)
    | "ls" =>
      let (out, said) := Files.ls m.tree p.cwd args
      let last := if said.isEmpty then Tool.exit 0 else .emit 2 said (.exit 2)
      (m, leave p (if out.isEmpty then last else .emit 1 out last))
    | "env" => environment m p args
    | "setsid" => newSession m p (args.dropWhile fun a => a.startsWith "-")
    | "perl" => regroup m p args
    | "nohup" => become m { p with ignored := 1 :: p.ignored } name args
    | "nice" => become m p name args
    | "kill" => killing m p args
    | "basename" => (m, say p (baseNameOf args ++ "\n") 0)
    | "dirname" => (m, say p (dirName (args.headD "") ++ "\n") 0)
    | "pwd" => (m, say p (p.workingDir ++ "\n") 0)
    | "test" => (m, testing m p args)
    | "[" =>
      if args.getLast? == some "]" then (m, testing m p args.dropLast)
      else (m, fault p "[: missing ']'\n" 2)
    | _ => (m, leave p (.exit 0))

/-- What a failed write does to a process: a broken pipe ends it by a signal unless that is ignored. -/
def afterFailedWrite (m : Machine) (p : Process) (cause : IoError) : Machine :=
  if cause == .brokenPipe && !p.ignored.contains SignalNumber.pipe then
    m.signal SignalNumber.pipe p
  else m.update (leave p (.exit 1))

def outputId (p : Process) (fd : Nat) : Nat := (p.fd? fd).getD 0

/-- How often `yes` writes its line in one go, and how long that takes. -/
def burst : Nat := 512
def burstTime : Nat := 1000000

/-- Copies a piece to the files of a `tee`. -/
def copyOut (m : Machine) (p : Process) (text : String) : List Nat → Machine
  | [] => m
  | fd :: rest =>
    match m.writeTo (outputId p fd) text with
    | .done m _ => copyOut m p text rest
    | .blocked | .failed _ => copyOut m p text rest

def step (m : Machine) (p : Process) (t : Tool) : Progress :=
  match t with
  | .start name args =>
    let (m, p) := begin m p name args
    .moved (if p.alive then m.update p else m)
  | .idle => .blocked
  | .exit code => .moved (m.finish p.pid (.exited (code % 256)))
  | .emit fd text next =>
    match m.writeTo (outputId p fd) text with
    | .blocked => .blocked
    | .failed e => .moved (afterFailedWrite m p e)
    | .done m left =>
      .moved (m.update (leave p (if left.isEmpty then next else .emit fd left next)))
  | .repeating text =>
    let chunk := String.join (List.replicate burst text)
    match m.writeTo (outputId p 1) chunk with
    | .blocked => .blocked
    | .failed e => .moved (afterFailedWrite m p e)
    | .done m left =>
      let next := if left.isEmpty then Tool.repeating text else .emit 1 left (.repeating text)
      .moved (m.update { leave p next with notBefore := m.clock + burstTime })
  | .filter f inputs code =>
    match inputs with
    | [] =>
      let text := f.conclude
      let code := if code = 0 then f.status else code
      .moved (m.update (leave p (if text.isEmpty then .exit code else .emit 1 text (.exit code))))
    | fd :: rest =>
      match m.readFrom (outputId p fd) pipeCapacity with
      | .blocked => .blocked
      | .ended => .moved (m.update (leave p (.filter f rest code)))
      | .failed e =>
        let said := s!"read error: {e.strerror}\n"
        .moved (m.update (leave p (.emit 2 said (.filter f rest 1))))
      | .data piece m =>
        let m := match f with
          | .tee fds => copyOut m p piece fds
          | _ => m
        let (text, more) := f.feed piece
        let next : Tool := match more with
          | some f => .filter f inputs code
          | none => .exit code
        .moved (m.update (leave p (if text.isEmpty then next else .emit 1 text next)))

end Tool

end SmokeBench.Machine
