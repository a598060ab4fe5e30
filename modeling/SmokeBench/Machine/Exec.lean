import SmokeBench.Machine.Basic
import SmokeBench.Machine.Shell.Expand

/-!
Starting programs: what a file turns into when it is executed, and where a bare name is looked for. A
script names its interpreter on its first line; a file that is neither a tool nor a script
cannot be executed.
-/

namespace SmokeBench.Machine

namespace Shell

def State.initial (name : String) (args : List String) (pid : Nat) (cwd : String)
    (exported : List (String × String)) (text : String) : State where
  name := name
  args := args
  mainPid := pid
  status := 0
  vars := ("PWD", ⟨cwd, true⟩) ::
    ((exported.filter (·.1 != "PWD")).map fun v => (v.1, ⟨v.2, true⟩))
  functions := []
  traps := []
  caught := []
  lastBackground := none
  children := []
  ended := []
  errexit := false
  nounset := false
  tested := 0
  source := ⟨text.toList, 1, [], []⟩
  stack := [.program, .finish]
  line := 1
  running := ""
  context := ""
  xtrace := false
  substituted := none

end Shell

def shellNames : List String := ["sh", "dash", "bash"]

def baseName (path : String) : String := (path.splitOn "/").getLast?.getD path

/-- The options at the front of a shell's arguments: those set, whether a command text follows, and
what is left. -/
def shellOptions (set : List Char) (args : List String) : List Char × Bool × List String :=
  match args with
  | [] => (set, false, [])
  | a :: rest =>
    match a.toList with
    | '-' :: '-' :: [] => (set, false, rest)
    | '-' :: c :: cs =>
      if (c :: cs).contains 'c' then (set ++ (c :: cs), true, rest)
      else shellOptions (set ++ (c :: cs)) rest
    | _ => (set, false, a :: rest)

/-- A tool that prints a message and ends. -/
def refusal (message : String) (code : Nat) : Task := .tool (.emit 2 message (.exit code))

def shellTask (m : Machine) (p : Process) (name : String) (args : List String) : Task :=
  let (set, isText, rest) := shellOptions [] args
  let start (name : String) (args : List String) (text : String) : Task :=
    .shell { Shell.State.initial name args p.pid p.workingDir p.exported text with
      errexit := set.contains 'e', nounset := set.contains 'u', xtrace := set.contains 'x' }
  if isText then
    match rest with
    | [] => refusal s!"{name}: 0: -c requires an argument\n" 2
    | text :: [] => start name [] text
    | text :: zero :: args => start zero args text
  else
    let fromInput (args : List String) : Task := match start name args "" with
      | .shell s => .shell { s with stack := .readProgram :: s.stack }
      | t => t
    match (if set.contains 's' then none else rest.head?), rest.drop 1 with
    | none, _ => fromInput rest
    | some script, args =>
      match m.tree.load p.cwd (bytesOf script) with
      | .ok content => start script args (octets content)
      | .error .notFound => refusal s!"{name}: 0: cannot open {script}: No such file\n" 2
      | .error e => refusal s!"{name}: 0: cannot open {script}: {e.strerror}\n" 2

def toolTask (m : Machine) (p : Process) (name : String) (zero : String) (args : List String) :
    Task :=
  if shellNames.contains name then shellTask m p (baseName zero) args
  else .tool (.start name args)

def interpreterLimit : Nat := 4

/-- The interpreter on the first line of a script, and the one argument it may have. -/
def interpreter? (content : Bytes) : Option (String × List String) :=
  match (octets (content.take 256)).toList with
  | '#' :: '!' :: rest =>
    let isSpace (c : Char) : Bool := c == ' ' || c == '\t'
    let line := (rest.takeWhile (· != '\n')).dropWhile isSpace
    let path := line.takeWhile (!isSpace ·)
    let more := (line.drop path.length).dropWhile isSpace
    let arg := (more.reverse.dropWhile isSpace).reverse
    if path.isEmpty then none
    else some (String.ofList path, if arg.isEmpty then [] else [String.ofList arg])
  | _ => none

/-- The task that a path turns into, tried through at most a few interpreters. -/
def taskOf (m : Machine) (p : Process) : (depth : Nat) → (path zero : String) →
    (args : List String) → Except IoError Task
  | 0, _, _, _ => .error .linkLoop
  | depth + 1, path, zero, args =>
    match m.tree.lookUp p.cwd true (bytesOf path) with
    | .error e => .error e
    | .ok (_, .tool name) => .ok (toolTask m p name zero args)
    | .ok (_, .file _ mode content) =>
      if !FileTree.executableMode mode then .error .permissionDenied
      else
        match interpreter? content with
        | none => .error .execFormat
        | some (program, extra) => taskOf m p depth program program (extra ++ path :: args)
    | .ok _ => .error .permissionDenied

def execTask (m : Machine) (p : Process) (path : String) (args : List String) :
    Except IoError Task :=
  taskOf m p interpreterLimit path path args

def searchPath : String := "/usr/local/sbin:/usr/local/bin:/usr/sbin:/usr/bin:/sbin:/bin"

/-- Tries the directories of a search path; a file that must not be executed is remembered. -/
def searchIn (m : Machine) (p : Process) (name : String) (args : List String)
    (denied : Bool) : List String → Except IoError Task
  | [] => .error (if denied then .permissionDenied else .notFound)
  | dir :: rest =>
    let path := if dir.isEmpty then name else dir ++ "/" ++ name
    match taskOf m p interpreterLimit path name args with
    | .ok t => .ok t
    | .error .permissionDenied => searchIn m p name args true rest
    | .error .notFound | .error .notADirectory => searchIn m p name args denied rest
    | .error e => .error e

def programTask (m : Machine) (p : Process) (program : String) (args : List String) :
    Except IoError Task :=
  if program.isEmpty then .error .notFound
  else if program.toList.contains '/' then execTask m p program args
  else
    let path := ((p.exported.find? (·.1 == "PATH")).map (·.2)).getD searchPath
    searchIn m p program args false (path.splitOn ":")

end SmokeBench.Machine
