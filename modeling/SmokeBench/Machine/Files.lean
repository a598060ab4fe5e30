import SmokeBench.Machine.Basic

/-!
Tools that change files: each works through its paths one by one, says what went wrong with a path
and goes on with the next.
-/

namespace SmokeBench.Machine.Files

/-- The option letters among arguments, and the operands. -/
def options : List String → List Char × List String
  | [] => ([], [])
  | "--" :: rest => ([], rest)
  | a :: rest =>
    let (letters, operands) := options rest
    match a.toList with
    | '-' :: '-' :: _ => (letters, operands)
    | '-' :: c :: cs => (c :: cs ++ letters, operands)
    | _ => (letters, a :: operands)

/-- The outcome of a tool on files: the files, what it says, and whether all went well. -/
structure Outcome where
  tree : FileTree
  said : String
  failed : Bool

namespace Outcome

def fault (o : Outcome) (message : String) : Outcome :=
  { o with said := o.said ++ message ++ "\n", failed := true }

/-- Takes over a change, or tells why there is none. -/
def attempt (o : Outcome) (before : String) (change : Except IoError FileTree) : Outcome :=
  match change with
  | .ok tree => { o with tree }
  | .error e => o.fault s!"{before}: {e.strerror}"

end Outcome

/-- A fault in how a tool is used, with the hint that follows it. -/
def withHint (tool text : String) : String :=
  s!"{tool}: {text}\nTry '{tool} --help' for more information."

def missingOperand (tool : String) : List String → String
  | [] => withHint tool "missing file operand"
  | path :: _ => withHint tool s!"missing destination file operand after '{path}'"

def fileNameOf (path : String) : String :=
  let cs := (path.toList.reverse.dropWhile (· == '/')).takeWhile (· != '/')
  if cs.isEmpty then "/" else String.ofList cs.reverse

def inside (dir name : String) : String := if dir.endsWith "/" then dir ++ name else dir ++ "/" ++ name

def isDirectory (t : FileTree) (cwd : Location) (path : String) : Bool :=
  match t.lookUp cwd true (bytesOf path) with
  | .ok (_, .directory _) => true
  | _ => false

/-- The paths of a directory and of all directories that lead to it. -/
def leading (path : String) : List String :=
  let pieces := path.splitOn "/"
  ((List.range pieces.length).map fun n => String.intercalate "/" (pieces.take (n + 1))).filter
    fun p => !p.isEmpty

def makeDirs (cwd : Location) (o : Outcome) (path : String) : Outcome :=
  let step (o : Outcome) (p : String) : Outcome :=
    if o.failed || isDirectory o.tree cwd p then o
    else o.attempt s!"mkdir: cannot create directory '{p}'"
      (o.tree.makeDir cwd (bytesOf p) FileTree.directoryMode)
  let result := (leading path).foldl step { o with failed := false }
  { result with failed := o.failed || result.failed }

def mkdir (t : FileTree) (cwd : Location) (args : List String) : Outcome :=
  let (letters, paths) := options args
  let step (o : Outcome) (p : String) : Outcome :=
    if letters.contains 'p' then makeDirs cwd o p
    else o.attempt s!"mkdir: cannot create directory '{p}'"
      (o.tree.makeDir cwd (bytesOf p) FileTree.directoryMode)
  if paths.isEmpty then (Outcome.mk t "" false).fault (withHint "mkdir" "missing operand")
  else paths.foldl step ⟨t, "", false⟩

def rmdir (t : FileTree) (cwd : Location) (args : List String) : Outcome :=
  let step (o : Outcome) (p : String) : Outcome :=
    o.attempt s!"rmdir: failed to remove '{p}'" (o.tree.removeDir cwd (bytesOf p))
  (options args).2.foldl step ⟨t, "", false⟩

def rm (t : FileTree) (cwd : Location) (args : List String) : Outcome :=
  let (letters, paths) := options args
  let force := letters.contains 'f'
  let deep := letters.contains 'r' || letters.contains 'R'
  let step (o : Outcome) (p : String) : Outcome :=
    let before := s!"rm: cannot remove '{p}'"
    match o.tree.lookUp cwd false (bytesOf p) with
    | .error e =>
      if force && (e == .notFound || e == .notADirectory) then o
      else o.fault s!"{before}: {e.strerror}"
    | .ok (_, .directory _) =>
      if deep then o.attempt before (o.tree.removeTree cwd (bytesOf p))
      else if letters.contains 'd' then o.attempt before (o.tree.removeDir cwd (bytesOf p))
      else o.fault s!"{before}: {IoError.isADirectory.strerror}"
    | .ok _ => o.attempt before (o.tree.unlink cwd (bytesOf p))
  if paths.isEmpty && !force then (Outcome.mk t "" false).fault (withHint "rm" "missing operand")
  else paths.foldl step ⟨t, "", false⟩

def sourcesAndGoal (paths : List String) : Option (List String × String) :=
  match paths.reverse with
  | goal :: source :: sources => some ((source :: sources).reverse, goal)
  | _ => none

def goalFor (t : FileTree) (cwd : Location) (goal source : String) : String :=
  if isDirectory t cwd goal then inside goal (fileNameOf source) else goal

def mv (t : FileTree) (cwd : Location) (args : List String) : Outcome :=
  let o : Outcome := ⟨t, "", false⟩
  match sourcesAndGoal (options args).2 with
  | none => o.fault (missingOperand "mv" (options args).2)
  | some (sources, goal) =>
    let step (o : Outcome) (source : String) : Outcome :=
      let goal := goalFor o.tree cwd goal source
      match o.tree.lookUp cwd false (bytesOf source) with
      | .error e => o.fault s!"mv: cannot stat '{source}': {e.strerror}"
      | .ok _ =>
        o.attempt s!"mv: cannot move '{source}' to '{goal}'"
          (o.tree.rename cwd (bytesOf source) (bytesOf goal))
    sources.foldl step o

def copyTree (t : FileTree) (source goal : Location) : FileTree :=
  let copy (t : FileTree) (p : Location × Entry) : FileTree :=
    let place := goal ++ p.1.drop source.length
    match p.2 with
    | .file _ mode content =>
      { t.put place (.file t.nextSerial mode content) with nextSerial := t.nextSerial + 1 }
    | e => t.put place e
  (t.entries.filter fun p => source.isPrefixOf p.1).foldl copy t

def cp (t : FileTree) (cwd : Location) (args : List String) : Outcome :=
  let (letters, paths) := options args
  let deep := letters.contains 'r' || letters.contains 'R' || letters.contains 'a'
  let o : Outcome := ⟨t, "", false⟩
  match sourcesAndGoal paths with
  | none => o.fault (missingOperand "cp" paths)
  | some (sources, goal) =>
    let step (o : Outcome) (source : String) : Outcome :=
      let goal := goalFor o.tree cwd goal source
      match o.tree.lookUp cwd true (bytesOf source) with
      | .error e => o.fault s!"cp: cannot stat '{source}': {e.strerror}"
      | .ok (l, .directory _) =>
        if !deep then o.fault s!"cp: -r not specified; omitting directory '{source}'"
        else
          match o.tree.resolve cwd true (bytesOf goal) with
          | .ok (.absent dir name _) => { o with tree := copyTree o.tree l (dir ++ [name]) }
          | .ok (.found g _) => { o with tree := copyTree o.tree l g }
          | .error e => o.fault s!"cp: cannot create directory '{goal}': {e.strerror}"
      | .ok (_, e) =>
        let content := match e with
          | .file _ _ content => content
          | _ => []
        let mode := match e with
          | .file _ mode _ => mode
          | _ => FileTree.directoryMode
        let fresh := (o.tree.lookUp cwd true (bytesOf goal)).isOk
        let stored := o.tree.store cwd (bytesOf goal) content
        let stored := if fresh then stored else stored.bind (·.setMode cwd (bytesOf goal) mode)
        o.attempt s!"cp: cannot create regular file '{goal}'" stored
    sources.foldl step o

def ln (t : FileTree) (cwd : Location) (args : List String) : Outcome :=
  let (letters, paths) := options args
  let symbolic := letters.contains 's'
  let force := letters.contains 'f'
  let o : Outcome := ⟨t, "", false⟩
  let link (o : Outcome) (target path : String) : Outcome :=
    let tree := if force then
        match o.tree.unlink cwd (bytesOf path) with
        | .ok tree => tree
        | .error _ => o.tree
      else o.tree
    if symbolic then
      o.attempt s!"ln: failed to create symbolic link '{path}'"
        (tree.makeLink cwd (bytesOf target) (bytesOf path))
    else
      match tree.lookUp cwd false (bytesOf target), tree.resolve cwd false (bytesOf path) with
      | .error e, _ => o.fault s!"ln: failed to access '{target}': {e.strerror}"
      | .ok (_, .directory _), _ => o.fault s!"ln: {target}: hard link not allowed for directory"
      | .ok (_, e), .ok (.absent dir name false) => { o with tree := tree.put (dir ++ [name]) e }
      | .ok _, .ok (.absent _ _ true) =>
        o.fault s!"ln: failed to create hard link '{path}': {IoError.notFound.strerror}"
      | .ok _, .ok (.found ..) =>
        o.fault s!"ln: failed to create hard link '{path}': {IoError.alreadyExists.strerror}"
      | .ok _, .error e => o.fault s!"ln: failed to create hard link '{path}': {e.strerror}"
  match sourcesAndGoal paths with
  | none =>
    match paths with
    | [target] => link o target (fileNameOf target)
    | _ => o.fault (withHint "ln" "missing file operand")
  | some (targets, path) =>
    if isDirectory t cwd path then
      targets.foldl (fun o target => link o target (inside path (fileNameOf target))) o
    else
      match targets with
      | [target] => link o target path
      | _ => o.fault s!"ln: target '{path}' is not a directory"

/-- The mode that a change in octal digits or letters makes of a mode. -/
def changedMode (change : String) (mode : Nat) : Option Nat :=
  let cs := change.toList
  if !cs.isEmpty && cs.all fun c => '0' ≤ c && c ≤ '7' then
    some (cs.foldl (fun n c => n * 8 + (c.toNat - 48)) 0)
  else
    let who := cs.takeWhile fun c => "ugoa".toList.contains c
    let places : Nat := if who.isEmpty || who.contains 'a' then 0o111
      else (if who.contains 'u' then 0o100 else 0) ||| (if who.contains 'g' then 0o010 else 0) |||
        (if who.contains 'o' then 0o001 else 0)
    match cs.drop who.length with
    | op :: letters =>
      let bit (c : Char) : Nat := if c == 'r' then 4 else if c == 'w' then 2 else 1
      if (op == '+' || op == '-' || op == '=') && letters.all fun c => "rwxX".toList.contains c then
        let bits := letters.foldl (fun n c => n ||| bit c * places) 0
        if op == '+' then some (mode ||| bits)
        else if op == '-' then some (mode - (mode &&& bits))
        else some ((mode - (mode &&& (7 * places))) ||| bits)
      else none
    | [] => none

def modeOf : Entry → Nat
  | .file _ mode _ | .directory mode => mode
  | _ => FileTree.directoryMode

def chmod (t : FileTree) (cwd : Location) (args : List String) : Outcome :=
  let o : Outcome := ⟨t, "", false⟩
  match args.filter fun a => a != "-R" && a != "-f" && a != "--" with
  | change :: paths =>
    let step (o : Outcome) (p : String) : Outcome :=
      match o.tree.lookUp cwd true (bytesOf p) with
      | .error e => o.fault s!"chmod: cannot access '{p}': {e.strerror}"
      | .ok (_, e) =>
        match changedMode change (modeOf e) with
        | none => o.fault s!"chmod: invalid mode: '{change}'"
        | some mode =>
          o.attempt s!"chmod: changing permissions of '{p}'" (o.tree.setMode cwd (bytesOf p) mode)
    paths.foldl step o
  | [] => o.fault (withHint "chmod" "missing operand")

def touch (t : FileTree) (cwd : Location) (args : List String) : Outcome :=
  let (letters, paths) := options args
  let step (o : Outcome) (p : String) : Outcome :=
    match o.tree.lookUp cwd true (bytesOf p) with
    | .ok _ => o
    | .error _ =>
      if letters.contains 'c' then o
      else o.attempt s!"touch: cannot touch '{p}'" (o.tree.store cwd (bytesOf p) [])
  paths.foldl step ⟨t, "", false⟩

def tools : List (String × (FileTree → Location → List String → Outcome)) :=
  [("mkdir", mkdir), ("rmdir", rmdir), ("rm", rm), ("mv", mv), ("cp", cp), ("ln", ln),
    ("chmod", chmod), ("touch", touch)]

def insertName (x : String) : List String → List String
  | [] => [x]
  | y :: ys => if x ≤ y then x :: y :: ys else y :: insertName x ys

/-- The lines that list paths: a directory's names, or the path itself. -/
def ls (t : FileTree) (cwd : Location) (args : List String) : String × String :=
  let (letters, paths) := options args
  let all := letters.contains 'a'
  let some? := all || letters.contains 'A'
  let paths := if paths.isEmpty then ["."] else paths.foldr insertName []
  let look (p : String) : Except IoError (Location × Entry) := t.lookUp cwd true (bytesOf p)
  let missing := paths.filterMap fun p => match look p with
    | .error e => some s!"ls: cannot access '{p}': {e.strerror}\n"
    | .ok _ => none
  let asDirectory (p : String) : Option Location := match look p with
    | .ok (l, .directory _) => if letters.contains 'd' then none else some l
    | _ => none
  let plain := paths.filter fun p => (look p).isOk && (asDirectory p).isNone
  let listed := paths.filterMap fun p => (asDirectory p).map fun l =>
    let names := ((t.names l).map octets).filter fun n => some? || !n.startsWith "."
    let names := ((if all then [".", ".."] else []) ++ names).foldr insertName []
    (if paths.length ≤ 1 then "" else s!"{p}:\n") ++ String.join (names.map (· ++ "\n"))
  let files := if plain.isEmpty then [] else [String.join (plain.map (· ++ "\n"))]
  (String.intercalate "\n" (files ++ listed), String.join missing)

end SmokeBench.Machine.Files
