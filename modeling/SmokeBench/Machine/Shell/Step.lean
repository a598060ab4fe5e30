import SmokeBench.Machine.Shell.Builtin

/-!
One step of a shell: what its top frame asks for. A command first has its substitutions run, then its
words expanded, then its redirections performed. The last command of a copy of the shell takes
over the copy's process, so a command left in the background is known by its own number.
-/

namespace SmokeBench.Machine.Shell

open Act

/-- The word a redirection goes to, or the text of its document. -/
def Redirect.word (s : State) : Redirect → Word
  | .mk _ (.document id) _ => ((s.source.documents.find? (·.1 == id)).map (·.2)).getD []
  | .mk _ _ target => target

def Redirect.expand (r : Redirect) : Expander (Nat × RedirectKind × String) := do
  let text ← expandText (r.word (← get).shell)
  match r with
  | .mk fd kind _ => return (fd, kind, text)

/-- Sets the variables named before a command, and gives what they were. -/
def expandAssignments : List (String × Word) → Expander (List (String × Option Variable))
  | [] => return []
  | (name, w) :: rest => do
    let old := ((← get).shell.vars.find? (·.1 == name)).map (·.2)
    let value ← expandText w
    modify fun e => { e with shell := e.shell.assign name value }
    return (← expandAssignments rest) ++ [(name, old)]

structure Expanded where
  args : List String
  redirects : List (Nat × RedirectKind × String)
  saved : List (String × Option Variable)

namespace Pending

def substitutions (s : State) : Pending → List (List Item)
  | .simple _ assignments words redirects =>
    words.flatMap substitutionsIn ++ redirects.flatMap (fun r => substitutionsIn (r.word s)) ++
      assignments.flatMap fun a => substitutionsIn a.2
  | .each _ words _ => words.flatMap substitutionsIn
  | .select word clauses =>
    substitutionsIn word ++ clauses.flatMap fun
      | .mk patterns _ => patterns.flatMap substitutionsIn
  | .redirected redirects _ => redirects.flatMap fun r => substitutionsIn (r.word s)

end Pending

/-- Runs an expansion; a fault in it ends the shell. -/
def expanding {α : Type} (outputs : List String) (e : Expander α) : Act (Option α) := do
  match e.run ⟨← shell, outputs⟩ with
  | .ok (x, e) =>
    changeShell fun _ => e.shell
    return some x
  | .error message =>
    abortReport message
    return none

/-- Marks the variables set for a command as passed on to it. -/
def exportThese (saved : List (String × Option Variable)) : Act Unit :=
  changeShell fun s => saved.foldl (fun s (name, _) =>
    match s.get? name with
    | some v => s.setVariable name ⟨v, true⟩
    | none => s) s

def hasTraps (s : State) : Bool := !s.traps.isEmpty

def checkFrame : Act (List Frame) := return if (← shell).errexit then [.check] else []

def runProgram (name : String) (args : List String) (saved : List (Nat × Option Nat))
    (assigned : List (String × Option Variable)) : Act Unit := do
  exportThese assigned
  match ← taskFor name args with
  | .error e =>
    setStatus (← noProgram name e)
    restoreFds saved
    restoreVariables assigned
    push (← checkFrame)
  | .ok task =>
    let s ← shell
    let last := match s.stack with
      | [.finish] => !hasTraps s
      | _ => false
    if last then becomeProgram task
    else
      let pid ← forkProgram task
      restoreFds saved
      restoreVariables assigned
      push (.await [pid] pid :: (← checkFrame))

/-- The frames that bring back what held for one command. -/
def afterCommand (saved : List (Nat × Option Nat)) (assigned : List (String × Option Variable)) :
    Act (List Frame) := do
  return (if saved.isEmpty then [] else [Frame.restore saved]) ++
    (if assigned.isEmpty then [] else [Frame.assigned assigned]) ++ (← checkFrame)

def callFunction (body : Command) (args : List String) (after : List Frame) : Act Unit := do
  let s ← shell
  push (.command body :: .callEnd s.args [] :: after)
  changeShell fun s => { s with args }

/-- The command `exec`: another program takes over, or the redirections stay. -/
def runExec (args : List String) : Act Unit := do
  match args with
  | [] => setStatus 0
  | name :: args =>
    match ← taskFor name args with
    | .ok task => becomeProgram task
    | .error e => leave (← noProgram s!"exec: {name}" e)

/-- The command `command`: a builtin or a program, never a function. -/
def runCommand (args : List String) (saved : List (Nat × Option Nat))
    (assigned : List (String × Option Variable)) : Act Unit := do
  match args with
  | "-v" :: name :: _ =>
    let a ← get
    push (← afterCommand saved assigned)
    match Builtin.locate a.shell a.machine a.process (Builtin.names ++ reservedNames) name with
    | some path => sayAndEnd (path ++ "\n") 0
    | none => setStatus 127
  | name :: args =>
    match Builtin.find? name with
    | some run =>
      push (← afterCommand saved assigned)
      changeShell fun s => { s with running := name }
      run args
    | none => runProgram name args saved assigned
  | [] =>
    push (← afterCommand saved assigned)
    setStatus 0
where
  reservedNames : List String := Reader.reserved

def trace (e : Expanded) : Act Unit := do
  let s ← shell
  if s.xtrace then
    let settings := e.saved.reverse.map fun a => a.1 ++ "=" ++ (s.get? a.1).getD ""
    writeNow 2 (String.intercalate " " ("+" :: settings ++ e.args) ++ "\n")

def runSimple (line : Nat) (e : Expanded) : Act Unit := do
  changeShell fun s => { s with line }
  trace e
  match e.args with
  | [] =>
    match ← redirect true [] e.redirects with
    | .ok saved =>
      restoreFds saved
      setStatus ((← shell).substituted.getD 0)
    | .error text =>
      report text
      setStatus 2
    push (← checkFrame)
  | name :: args =>
    let isSpecial := Builtin.special.contains name
    let body := ((← shell).functions.find? (·.1 == name)).map (·.2)
    let keep := name != "exec"
    match ← redirect keep [] e.redirects with
    | .error text =>
      restoreVariables e.saved
      report text
      if isSpecial then leave 2
      else
        setStatus 2
        push (← checkFrame)
    | .ok saved =>
      if name == "exec" then
        exportThese e.saved
        runExec args
      else
        match (if isSpecial then none else body), Builtin.find? name with
        | some body, _ =>
          exportThese e.saved
          callFunction body args (← afterCommand saved e.saved)
        | none, some run =>
          push (← afterCommand saved (if isSpecial then [] else e.saved))
          changeShell fun s => { s with running := name }
          run args
        | none, none =>
          if name == "command" then runCommand args saved e.saved
          else runProgram name args saved e.saved

/-- The words a loop goes through when it names none: the arguments. -/
def allArguments : List Word := [[.param "@" .plain [] true]]

def fitsAny (subject : String) : List Word → Expander Bool
  | [] => return false
  | w :: rest => do
    if Pattern.fits (← expandPattern w) subject then return true else fitsAny subject rest

def chooseClause (subject : String) : List Clause → Expander (List Item)
  | [] => return []
  | .mk patterns body :: rest => do
    if ← fitsAny subject patterns then return body else chooseClause subject rest

/-- Goes on with what was pending, the outputs being known. -/
def resume (outputs : List String) : Pending → Act Unit
  | .simple line assignments words redirects => do
    let a ← get
    changeShell fun s => { s with line }
    let expanded ← expanding outputs do
      let args ← expandWords a.machine.tree a.process.cwd words
      let redirects ← redirects.mapM Redirect.expand
      let saved ← expandAssignments assignments
      return Expanded.mk args redirects saved
    match expanded with
    | some e => runSimple line e
    | none => return ()
  | .each name words body => do
    let a ← get
    match ← expanding outputs (expandWords a.machine.tree a.process.cwd words) with
    | some values =>
      setStatus 0
      push [.each name values body]
    | none => return ()
  | .select word clauses => do
    let chosen ← expanding outputs do chooseClause (← expandText word) clauses
    match chosen with
    | some body =>
      setStatus 0
      push [.items body]
    | none => return ()
  | .redirected redirects command => do
    match ← expanding outputs (redirects.mapM Redirect.expand) with
    | none => return ()
    | some redirects =>
      match ← redirect true [] redirects with
      | .ok saved => push [.command command, .restore saved]
      | .error text =>
        report text
        setStatus 2
        push (← checkFrame)

/-- Runs the substitutions that something pending needs, if it needs any. -/
def prepare (pending : Pending) : Act Unit := do
  let s ← shell
  changeShell fun s => { s with substituted := none }
  match pending.substitutions s with
  | [] => resume [] pending
  | todo => push [.gather todo [] pending]

/-- The redirections of a compound command, and the command without them. -/
def Command.withoutRedirects : Command → List Redirect × Command
  | .subshell body rs => (rs, .subshell body [])
  | .block body rs => (rs, .block body [])
  | .branch c b a rs => (rs, .branch c b a [])
  | .loop isUntil c b rs => (rs, .loop isUntil c b [])
  | .each name ws b rs => (rs, .each name ws b [])
  | .select w cs rs => (rs, .select w cs [])
  | c => ([], c)

def enterTested : Act Unit := changeShell fun s => { s with tested := s.tested + 1 }

/-- Starts the members of a pipeline; each reads what the one before it writes. -/
def startPipeline (input : Option Nat) (pids : List Nat) : List Command → Act (List Nat)
  | [] => return pids
  | c :: rest => do
    let withInput (p : Process) : Process := match input with
      | some id => p.setFd 0 id
      | none => p
    match rest with
    | [] => return pids ++ [← forkShell [.command c, .finish] withInput]
    | _ =>
      let a ← get
      let (pipe, m) := a.machine.addPipe false
      let (reading, m) := m.addResource (.pipeEnd pipe false)
      let (writing, m) := m.addResource (.pipeEnd pipe true)
      set { a with machine := m }
      let pid ← forkShell [.command c, .finish] fun p => (withInput p).setFd 1 writing
      -- the reading end is held until its reader has been started
      let fd := (← get).process.freeFd firstOwnFd
      changeProcess fun p => p.setFd fd reading
      let pids ← startPipeline (some reading) (pids ++ [pid]) rest
      changeProcess fun p => p.closeFd fd
      return pids

def runCompound (c : Command) : Act Unit := do
  match c with
  | .simple line assignments words redirects =>
    prepare (.simple line assignments words redirects)
  | .pipeline negated commands =>
    if negated then
      enterTested
      push [.tested, .negate]
    match commands with
    | [c] => push [.command c]
    | commands =>
      let pids ← startPipeline none [] commands
      push (.await pids (pids.getLast?.getD 0) :: (← checkFrame))
  | .both first second =>
    enterTested
    push [.command first, .tested, .andThen second]
  | .either first second =>
    enterTested
    push [.command first, .tested, .orElse second]
  | .subshell body _ =>
    let pid ← forkShell [.items body, .finish] id
    push (.await [pid] pid :: (← checkFrame))
  | .block body _ => push [.items body]
  | .branch condition body alternative _ =>
    enterTested
    push [.items condition, .tested, .branch body alternative]
  | .loop isUntil condition body _ =>
    enterTested
    push [.items condition, .tested, .loopTest isUntil 0 condition body]
  | .each name words body _ => prepare (.each name (words.getD allArguments) body)
  | .select word clauses _ => prepare (.select word clauses)
  | .define name body =>
    changeShell fun s => { s with
      functions := (name, body) :: s.functions.filter (·.1 != name), status := 0 }

def runBackground (c : Command) : Act Unit := do
  let a ← get
  let (null, m) := a.machine.addResource (.device .null)
  set { a with machine := m }
  let pid ← forkShell [.command c, .finish] fun p =>
    { p.setFd 0 null with ignored := [2, 3] ++ p.ignored }
  changeShell fun s => { s with
    lastBackground := some pid, children := pid :: s.children, status := 0 }

def statusOf : ExitStatus → Nat
  | .exited code => code
  | .signaled n => 128 + n

def endOf (m : Machine) (pid : Nat) : Option ExitStatus :=
  match m.find? pid with
  | none => some (.exited 0)
  | some p =>
    match p.life with
    | .ended status => some status
    | _ => none

def reap (pid : Nat) : Act Unit :=
  modify fun a =>
    { a with machine := { a.machine with
        processes := a.machine.processes.filter fun p => p.pid != pid || p.alive } }

/-- Tells of a child that a signal ended. -/
def tellEnd (status : ExitStatus) : Act Unit := do
  match status with
  | .signaled n =>
    let text := SignalNumber.report n
    if !text.isEmpty then writeNow 2 (text ++ "\n")
  | .exited _ => return ()

/-- Takes in the ends of all members, telling of those that a signal ended. -/
def reapAll (last : Nat) : List Nat → Act Unit
  | [] => return ()
  | pid :: rest => do
    match endOf (← get).machine pid with
    | some status =>
      tellEnd status
      if pid == last then setStatus (statusOf status)
      reap pid
    | none => pure ()
    reapAll last rest

/-- Takes in the ends of children in the background that nobody has asked for yet. -/
def noteEnded : Act Unit := do
  let a ← get
  let ended := a.shell.children.filterMap fun pid => (endOf a.machine pid).map (pid, ·)
  changeShell fun s => { s with
    children := s.children.filter fun pid => !ended.any (·.1 == pid)
    ended := s.ended ++ ended.map fun e => (e.1, statusOf e.2) }
  for e in ended do reap e.1

/-- Splits what was read among names; the last one gets all that is left. -/
def assignRead (separators : String) : (names : List String) → List Char → State → State
  | [], _, s => s
  | [name], cs, s =>
    let isGap (c : Char) : Bool := separators.toList.contains c
    let cs := ((cs.dropWhile isGap).reverse.dropWhile isGap).reverse
    s.assign name (String.ofList cs)
  | name :: rest, cs, s =>
    let isGap (c : Char) : Bool := separators.toList.contains c
    let cs := cs.dropWhile isGap
    let field := cs.takeWhile fun c => !isGap c
    assignRead separators rest (cs.drop (field.length + 1)) (s.assign name (String.ofList field))

def withoutBackslashes : List Char → List Char
  | '\\' :: c :: rest => c :: withoutBackslashes rest
  | c :: rest => c :: withoutBackslashes rest
  | [] => []

def endRead (raw : Bool) (names : List String) (text : String) (status : Nat) : Act Unit := do
  let cs := if raw then text.toList else withoutBackslashes text.toList
  changeShell fun s => { assignRead s.separators (if names.isEmpty then ["REPLY"] else names) cs s with
    status := status }

/-- Whether a signal that was caught may be answered now. -/
def interruptible : Frame → Bool
  | .await .. | .collect .. | .write .. => false
  | _ => true

/-- Runs the trap for the next caught signal; a wait it broke off ends first. -/
def answerSignal (n : SignalNumber) (top : Frame) : Act Unit := do
  match top with
  | .awaitAll | .awaitOne _ =>
    changeShell fun s => { s with status := 128 + n, stack := s.stack.drop 1 }
  | .readLine .. =>
    changeShell fun s => { s with status := 1, stack := s.stack.drop 1 }
  | _ =>
    let s ← shell
    changeShell fun s => { s with caught := s.caught.drop 1 }
    match s.traps.find? (·.1 == n) with
    | some (_, action) => runText action false s.context [.trapEnd s.status]
    | none => return ()

/-- Does what one frame asks for, the frame being taken off already; false when it has to wait, and
then nothing has changed. -/
def runFrame (f : Frame) : Act Bool := do
  match f with
  | .program =>
    let s ← shell
    match Reader.next s.source with
    | .error fault =>
      changeShell fun s => { s with line := fault.line }
      abortReport fault.message
    | .ok (none, source) => changeShell fun s => { s with source }
    | .ok (some todo, source) =>
      changeShell fun s => { s with source }
      push [.items todo, .program]
    return true
  | .readProgram =>
    let a ← get
    match a.machine.readFrom ((a.process.fd? 0).getD 0) pipeCapacity with
    | .blocked => return false
    | .ended | .failed _ => return true
    | .data piece m =>
      set { a with machine := m }
      changeShell fun s => { s with source := { s.source with rest := s.source.rest ++ piece.toList } }
      push [.readProgram]
      return true
  | .items todo =>
    match todo with
    | [] => return true
    | .mk c background :: rest =>
      if !rest.isEmpty then push [.items rest]
      if background then runBackground c else push [.command c]
      return true
  | .command c =>
    match c.withoutRedirects with
    | ([], c) => runCompound c
    | (redirects, c) => prepare (.redirected redirects c)
    return true
  | .restore saved => restoreFds saved; return true
  | .andThen c =>
    if (← shell).status == 0 then push [.command c]
    return true
  | .orElse c =>
    if (← shell).status != 0 then push [.command c]
    return true
  | .negate => setStatus (if (← shell).status == 0 then 1 else 0); return true
  | .tested => changeShell fun s => { s with tested := s.tested - 1 }; return true
  | .branch body alternative =>
    let s ← shell
    setStatus 0
    push [.items (if s.status == 0 then body else alternative)]
    return true
  | .loopTest isUntil last condition body =>
    let s ← shell
    if (s.status == 0) != isUntil then push [.items body, .loopNext isUntil condition body]
    else setStatus last
    return true
  | .loopNext isUntil condition body =>
    let s ← shell
    enterTested
    push [.items condition, .tested, .loopTest isUntil s.status condition body]
    return true
  | .each name values body =>
    match values with
    | [] => return true
    | v :: rest =>
      changeShell fun s => s.assign name v
      push [.items body, .each name rest body]
      return true
  | .callEnd args locals => undo (.callEnd args locals); return true
  | .await pids last =>
    let m := (← get).machine
    if pids.all fun pid => (endOf m pid).isSome then
      reapAll last pids
      return true
    else return false
  | .awaitAll =>
    noteEnded
    if (← shell).children.isEmpty then setStatus 0; return true else return false
  | .awaitOne pid =>
    let s ← shell
    match s.ended.find? (·.1 == pid), s.children.contains pid with
    | some (_, status), _ => setStatus status; return true
    | none, false => setStatus 127; return true
    | none, true =>
      match endOf (← get).machine pid with
      | none => return false
      | some status =>
        tellEnd status
        noteEnded
        setStatus (statusOf status)
        return true
  | .gather todo done pending =>
    match todo with
    | [] => resume done pending; return true
    | body :: rest =>
      let a ← get
      let (pipe, m) := a.machine.addPipe false
      let (reading, m) := m.addResource (.pipeEnd pipe false)
      let (writing, m) := m.addResource (.pipeEnd pipe true)
      set { a with machine := m }
      let pid ← forkShell [.items body, .finish] fun p => p.setFd 1 writing
      let fd := (← get).process.freeFd firstOwnFd
      changeProcess fun p => p.setFd fd reading
      push [.collect fd pid "" rest done pending]
      return true
  | .collect fd pid text todo done pending =>
    let a ← get
    match a.machine.readFrom ((a.process.fd? fd).getD 0) pipeCapacity with
    | .data piece m =>
      set { a with machine := m }
      push [.collect fd pid (text ++ piece) todo done pending]
      return true
    | .blocked => return false
    | .ended | .failed _ =>
      match endOf a.machine pid with
      | none => return false
      | some status =>
        reap pid
        changeProcess fun p => p.closeFd fd
        changeShell fun s => { s with status := statusOf status, substituted := some (statusOf status) }
        push [.gather todo (done ++ [text]) pending]
        return true
  | .write fd text status =>
    let a ← get
    match a.process.fd? fd with
    | none =>
      failedWrite
      return true
    | some id =>
      match a.machine.writeTo id text with
      | .done m left =>
        set { a with machine := m }
        if left.isEmpty then setStatus status else push [.write fd left status]
        return true
      | .blocked => return false
      | .failed e =>
        if e == .brokenPipe && !a.process.ignored.contains SignalNumber.pipe then
          changeMachine fun m => m.signalPids SignalNumber.pipe [a.process.pid]
        else failedWrite
        return true
  | .readLine raw names text =>
    let a ← get
    match a.machine.readFrom ((a.process.fd? 0).getD 0) 1 with
    | .blocked => return false
    | .ended | .failed _ => endRead raw names text 1; return true
    | .data piece m =>
      set { a with machine := m }
      if piece == "\n" then
        let slashes := (text.toList.reverse.takeWhile (· == '\\')).length
        if !raw && slashes % 2 == 1 then push [.readLine raw names (text.dropEnd 1).toString]
        else endRead raw names text 0
      else push [.readLine raw names (text ++ piece)]
      return true
  | .trapEnd status => setStatus status; return true
  | .sourceEnd outer isFile context => undo (.sourceEnd outer isFile context); return true
  | .assigned saved => restoreVariables saved; return true
  | .check =>
    let s ← shell
    if s.errexit && s.tested == 0 && s.status != 0 then leave s.status
    return true
  | .finish =>
    let s ← shell
    match s.traps.find? (·.1 == 0) with
    | some (_, action) =>
      changeShell fun s => { s with traps := s.traps.filter (·.1 != 0) }
      runText action false "" [.depart s.status]
    | none => push [.depart s.status]
    return true
  | .depart status =>
    let pid := (← get).process.pid
    changeMachine fun m => m.finish pid (.exited (status % 256))
    return true
where
  failedWrite : Act Unit := do
    let name := (← shell).running
    complain s!"{name}: {name}: I/O error"
    setStatus 1

def step (m : Machine) (p : Process) (s : State) : Progress :=
  match s.stack with
  | [] => .moved (m.finish p.pid (.exited (s.status % 256)))
  | top :: rest =>
    match s.caught with
    | n :: _ =>
      if interruptible top then
        let (_, a) := (answerSignal n top).run ⟨m, p, s, false⟩
        .moved a.commit
      else go top rest
    | [] => go top rest
where
  go (top : Frame) (rest : List Frame) : Progress :=
    match (runFrame top).run ⟨m, p, { s with stack := rest }, false⟩ with
    | (true, a) => .moved a.commit
    | (false, _) => .blocked

end SmokeBench.Machine.Shell
