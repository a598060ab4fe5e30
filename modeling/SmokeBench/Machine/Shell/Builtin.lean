import SmokeBench.Machine.Shell.Acting

/-!
The commands that a shell does itself. A fault in a special one ends a shell that reads a program.
-/

namespace SmokeBench.Machine.Shell.Builtin

open Act

def special : List String :=
  ["break", ":", "continue", ".", "eval", "exec", "exit", "export", "readonly", "return", "set", "shift",
    "trap", "unset"]

def number? (s : String) : Option Nat :=
  let cs := s.toList
  if !cs.isEmpty && cs.all Char.isDigit then s.toNat? else none

def badNumber (name : String) (args : List String) : Act Unit :=
  abort (name ++ ": Illegal number: " ++ args.headD "")

/-- The status from before the trap that is being run, if one is. -/
def statusBeforeTrap (stack : List Frame) : Option Nat :=
  stack.findSome? fun
    | .trapEnd status | .depart status => some status
    | _ => none

def exit (name : String) (args : List String) : Act Unit := do
  match args with
  | [] =>
    let s ← shell
    leave ((statusBeforeTrap s.stack).getD s.status)
  | n :: _ =>
    match number? n with
    | some n => leave n
    | none => abort s!"{name}: Illegal number: {n}"

def isCall : Frame → Bool
  | .callEnd .. | .sourceEnd _ true _ => true
  | _ => false

def isLoop : Frame → Bool
  | .loopTest .. | .loopNext .. | .each .. => true
  | _ => false

def return? (args : List String) : Act Unit := do
  let s ← shell
  if !s.stack.any isCall then exit "return" args
  else
    match args.head?.map number? with
    | some none => badNumber "return" args
    | n =>
      unwind isCall s.stack
      setStatus ((n.join).getD s.status)

def inLoop (stack : List Frame) : Bool := (stack.takeWhile fun f => !isCall f).any isLoop

/-- Leaves loops, except that the last one may be kept to go on. -/
def leaveLoops (keepLast : Bool) : (levels : Nat) → Act Unit
  | 0 => return ()
  | levels + 1 => do
    let s ← shell
    if inLoop s.stack then
      unwind isLoop s.stack
      if keepLast && (levels == 0 || !inLoop ((← shell).stack.drop 1)) then return ()
      else
        pop
        leaveLoops keepLast levels

def breakOrContinue (name : String) (args : List String) : Act Unit := do
  match args.head?.map number? with
  | some none | some (some 0) => badNumber name args
  | n =>
    setStatus 0
    leaveLoops (name == "continue") ((n.join).getD 1)

def splitAssignment (a : String) : String × Option String :=
  let name := a.toList.takeWhile (· != '=')
  (String.ofList name,
    if name.length < a.length then some (a.drop (name.length + 1)).toString else none)

def export? (args : List String) : Act Unit := do
  setStatus 0
  let step (s : State) (a : String) : State :=
    let (name, value) := splitAssignment a
    match value with
    | some v => s.setVariable name ⟨v, true⟩
    | none =>
      match s.get? name with
      | some v => s.setVariable name ⟨v, true⟩
      | none => s
  changeShell fun s => (args.filter (· != "-p")).foldl step s

def assignAll (args : List String) : Act Unit := do
  setStatus 0
  let step (s : State) (a : String) : State :=
    match splitAssignment a with
    | (name, some v) => s.assign name v
    | _ => s
  changeShell fun s => args.foldl step s

/-- Adds a variable to those that the end of the function brings back. -/
def keepLocal (name : String) (old : Option Variable) : List Frame → List Frame
  | [] => []
  | .callEnd args locals :: rest =>
    (if locals.any (·.1 == name) then .callEnd args locals else .callEnd args ((name, old) :: locals)) ::
      rest
  | f :: rest => f :: keepLocal name old rest

def isFunctionEnd : Frame → Bool
  | .callEnd .. => true
  | _ => false

def local? (args : List String) : Act Unit := do
  setStatus 0
  if !(← shell).stack.any isFunctionEnd then abort "local: not in a function"
  let step (s : State) (a : String) : State :=
    let (name, value) := splitAssignment a
    let old := (s.vars.find? (·.1 == name)).map (·.2)
    let s := { s with stack := keepLocal name old s.stack }
    match value with
    | some v => s.assign name v
    | none => s
  changeShell fun s => args.foldl step s

def unset? (args : List String) : Act Unit := do
  setStatus 0
  match args with
  | "-f" :: names =>
    changeShell fun s => { s with functions := s.functions.filter fun f => !names.contains f.1 }
  | "-v" :: names | names => changeShell fun s => names.foldl State.unset s

def optionNames : List String :=
  ["errexit", "noglob", "ignoreeof", "interactive", "monitor", "noexec", "stdin", "xtrace", "verbose",
    "vi", "emacs", "noclobber", "allexport", "notify", "nounset", "nolog", "debug"]

def setNamed (s : State) (on : Bool) : String → State
  | "errexit" => { s with errexit := on }
  | "nounset" => { s with nounset := on }
  | "xtrace" => { s with xtrace := on }
  | _ => s

/-- The first option that `set` does not know. -/
def unknownOption : List String → Option String
  | "-o" :: name :: rest => if optionNames.contains name then unknownOption rest else some s!"-o {name}"
  | "+o" :: name :: rest => if optionNames.contains name then unknownOption rest else some s!"+o {name}"
  | _ => none

/-- The options of `set` and what is left for the arguments; none leaves these as they are. -/
def setOptions (s : State) : List String → State
  | [] => s
  | "--" :: rest => { s with args := rest }
  | "-o" :: name :: rest => setOptions (setNamed s true name) rest
  | "+o" :: name :: rest => setOptions (setNamed s false name) rest
  | a :: rest =>
    match a.toList with
    | '-' :: on =>
      setOptions { s with
        errexit := s.errexit || on.contains 'e'
        nounset := s.nounset || on.contains 'u'
        xtrace := s.xtrace || on.contains 'x' } rest
    | '+' :: off =>
      setOptions { s with
        errexit := s.errexit && !off.contains 'e'
        nounset := s.nounset && !off.contains 'u'
        xtrace := s.xtrace && !off.contains 'x' } rest
    | _ => { s with args := a :: rest }

def set? (args : List String) : Act Unit := do
  match unknownOption args with
  | some o => abort s!"set: Illegal option {o}"
  | none => changeShell fun s => { setOptions s args with status := 0 }

def shift (args : List String) : Act Unit := do
  let s ← shell
  match args.head?.map number? with
  | some none => badNumber "shift" args
  | n =>
    let n := (n.join).getD 1
    if s.args.length < n then abort "shift: can't shift that many"
    else changeShell fun s => { s with args := s.args.drop n, status := 0 }

def quoteText (s : String) : String :=
  "'" ++ s.replace "'" "'\"'\"'" ++ "'"

def signalName (n : SignalNumber) : String :=
  if n = 0 then "EXIT" else ((SignalNumber.names.find? (·.1 == n)).map (·.2)).getD (toString n)

def setTrap (action : String) (n : SignalNumber) : Act Unit := do
  changeShell fun s => { s with traps := s.traps.filter (·.1 != n) }
  changeProcess fun p => { p with ignored := p.ignored.filter (· != n) }
  if action.isEmpty then
    if n != 0 then changeProcess fun p => { p with ignored := n :: p.ignored }
  else if action != "-" then changeShell fun s => { s with traps := (n, action) :: s.traps }

def setTraps (action : String) : List String → Act Unit
  | [] => return ()
  | name :: rest => do
    match SignalNumber.ofName name with
    | some n => setTrap action n
    | none =>
      writeNow 2 s!"trap: {name}: bad trap\n"
      setStatus 1
    setTraps action rest

def trap (args : List String) : Act Unit := do
  setStatus 0
  match args with
  | "--" :: action :: names | action :: names =>
    if names.isEmpty || (number? action).isSome then setTraps "-" (action :: names)
    else setTraps action names
  | [] =>
    let traps := (← shell).traps
    let inOrder := (List.range 65).filterMap fun n => traps.find? (·.1 == n)
    let lines := inOrder.map fun t => s!"trap -- {quoteText t.2} {signalName t.1}\n"
    sayAndEnd (String.join lines) 0

def wait (args : List String) : Act Unit := do
  match args, args.find? fun a => (number? a).isNone with
  | [], _ => push [.awaitAll]
  | _, some bad =>
    complain s!"wait: Illegal number: {bad}"
    setStatus 2
  | pids, none => push ((pids.filterMap number?).map Frame.awaitOne)

def killEach (n : SignalNumber) (sender : Process) : List String → Act Unit
  | [] => return ()
  | target :: rest => do
    let a ← get
    let target := if target.startsWith "%" then
        ((a.shell.lastBackground.map toString).getD target) else target
    match killTarget a.commit sender n target with
    | .ok m => set (a.reload m)
    | .error .noProcess =>
      complain "kill: No such process\n"
      setStatus 1
    | .error (.number t) =>
      complain s!"kill: Illegal number: {t}"
      setStatus 2
    killEach n sender rest

def kill (args : List String) : Act Unit := do
  setStatus 0
  match killOrder args with
  | .error e =>
    complain s!"kill: {e}"
    setStatus 2
  | .ok (n, targets) => killEach n (← get).process targets

def echo (args : List String) : Act Unit := sayAndEnd (Format.echo true args) 0

def printf (args : List String) : Act Unit := do
  match args with
  | [] =>
    complain "printf: usage: printf format [arg ...]"
    setStatus 2
  | "--" :: format :: args | format :: args =>
    let (text, faults) := Format.printf format args
    for f in faults do complain ("printf: " ++ f.text)
    sayAndEnd text (faults.foldl (fun n f => Nat.max n f.status) 0)

def test (name : String) (args : List String) : Act Unit := do
  let a ← get
  let look (last : Bool) (path : String) : Option Entry :=
    match a.machine.tree.lookUp a.process.cwd last (bytesOf path) with
    | .ok (_, e) => some e
    | .error _ => none
  let closed := name != "[" || args.getLast? == some "]"
  let args := if name == "[" then args.dropLast else args
  match (if closed then Condition.evaluate look args else .error "missing ]") with
  | .ok b => setStatus (if b then 0 else 1)
  | .error e =>
    complain s!"{name}: {e}"
    setStatus 2

def cd (args : List String) : Act Unit := do
  let a ← get
  let goal := match args.filter fun x => x != "-P" && x != "-L" && x != "--" with
    | [] => (a.shell.get? "HOME").getD ""
    | "-" :: _ => (a.shell.get? "OLDPWD").getD ""
    | dir :: _ => dir
  match a.machine.tree.lookUp a.process.cwd true (bytesOf goal) with
  | .ok (l, .directory _) =>
    let old := a.process.workingDir
    changeProcess fun p => { p with cwd := l }
    changeShell fun s => ((s.assign "OLDPWD" old).assign "PWD" (octets (FileTree.joined l)))
    sayAndEnd (if args.head? == some "-" then goal ++ "\n" else "") 0
  | _ =>
    complain s!"cd: can't cd to {goal}"
    setStatus 2

def read (args : List String) : Act Unit := do
  let raw := args.head? == some "-r"
  let names := args.filter fun a => !a.startsWith "-"
  push [.readLine raw names ""]

def source (args : List String) : Act Unit := do
  match args with
  | [] => setStatus 0
  | path :: _ =>
    let a ← get
    let candidates := if path.toList.contains '/' then [path]
      else (((a.shell.get? "PATH").getD searchPath).splitOn ":").map (· ++ "/" ++ path)
    let content := candidates.findSome? fun p =>
      match a.machine.tree.load a.process.cwd (bytesOf p) with
      | .ok b => some b
      | .error _ => none
    match content with
    | some b => runText (octets b) true s!"{path}: " []
    | none =>
      if path.toList.contains '/' then abort s!".: cannot open {path}: No such file"
      else abort s!".: {path}: not found"

/-- Where a command is found: a name alone for what the shell does itself. -/
def locate (s : State) (m : Machine) (p : Process) (known : List String) (name : String) :
    Option String :=
  if known.contains name || s.functions.any (·.1 == name) then some name
  else if name.toList.contains '/' then
    if (m.tree.lookUp p.cwd true (bytesOf name)).toOption.any fun e => FileTree.mayExecute e.2 then some name
    else none
  else
    (((s.get? "PATH").getD searchPath).splitOn ":").findSome? fun dir =>
      let path := dir ++ "/" ++ name
      match m.tree.lookUp p.cwd true (bytesOf path) with
      | .ok (_, e) => if FileTree.mayExecute e then some path else none
      | .error _ => none

def describe : List String → Act Unit
  | [] => return ()
  | name :: rest => do
    let a ← get
    let known := ["exec", "command", "type"] ++ plainNames
    let told := if Reader.reserved.contains name then some "is a shell keyword"
      else if a.shell.functions.any (·.1 == name) then some "is a shell function"
      else if special.contains name then some "is a special shell builtin"
      else if known.contains name then some "is a shell builtin"
      else (locate a.shell a.machine a.process [] name).map ("is " ++ ·)
    match told with
    | some t => writeNow 1 s!"{name} {t}\n"
    | none =>
      writeNow 1 s!"{name}: not found\n"
      setStatus 127
    describe rest
where
  plainNames : List String := ["true", "false", "echo", "printf", "test", "[", "cd", "pwd", "local",
    "wait", "kill", "read", "umask", "ulimit"]

def plain : List (String × (List String → Act Unit)) :=
  [(":", fun _ => setStatus 0), ("true", fun _ => setStatus 0), ("false", fun _ => setStatus 1),
    ("echo", echo), ("printf", printf), ("test", test "test"), ("[", test "["), ("cd", cd),
    ("pwd", fun _ => do sayAndEnd ((← get).process.workingDir ++ "\n") 0),
    ("exit", exit "exit"), ("return", return?), ("break", breakOrContinue "break"),
    ("continue", breakOrContinue "continue"), ("export", export?), ("readonly", assignAll),
    ("local", local?), ("unset", unset?),
    ("set", set?), ("shift", shift),
    ("trap", trap), ("wait", wait), ("kill", kill), ("read", read), (".", source),
    ("eval", fun args => do
      setStatus 0
      runText (String.intercalate " " args) false "eval: " []),
    ("type", fun args => do
      setStatus 0
      describe args),
    ("times", fun _ => sayAndEnd (String.join (List.replicate 2 "0m0.000000s 0m0.000000s\n")) 0),
    ("hash", fun _ => setStatus 0), ("jobs", fun _ => setStatus 0), ("alias", fun _ => setStatus 0),
    ("umask", fun args => if args.isEmpty then sayAndEnd "0022\n" 0 else setStatus 0),
    ("ulimit", fun args => if args.isEmpty then sayAndEnd "unlimited\n" 0 else setStatus 0)]

def find? (name : String) : Option (List String → Act Unit) :=
  (plain.find? (·.1 == name)).map (·.2)

def names : List String := ["exec", "command"] ++ plain.map (·.1)

end SmokeBench.Machine.Shell.Builtin
