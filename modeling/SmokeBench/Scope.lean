import SmokeBench.Dialogue

/-!
A scope is a fresh directory that a scenario may fill and that is removed as a whole. `held` says
whether the scope still owes its removal, so closing it and then dropping it removes it once.
-/

namespace SmokeBench

inductive ScopeError
  | create (parent : Path) (cause : IoError)
  | escape (path : Path)
  | prepare (path : Path) (cause : IoError)
  | remove (root : Path) (cause : IoError)
  deriving DecidableEq, Repr

def ScopeError.message : ScopeError → String
  | create parent cause => s!"failed to create scope under {parent.display}: {cause.message}"
  | escape path => s!"path {path.display} escapes the scope root"
  | prepare path cause => s!"failed to prepare {path.display}: {cause.message}"
  | remove root cause => s!"failed to remove scope {root.display}: {cause.message}"

/-- Whether a path leads to a directory, links followed. -/
def isDirectory (p : Path) : Dialogue Bool := do
  match ← ask (.metadata p) with
  | .ok m => return m.kind == .directory
  | .error _ => return false

/-- Makes a directory and the missing ones above it; `depth` bounds how many. -/
def makeDirsWithin (depth : Nat) (p : Path) : Dialogue (Except IoError Unit) := do
  if p.bytes.isEmpty then return .ok ()
  match ← ask (.makeDir p) with
  | .ok () => return .ok ()
  | .error .notFound =>
    match depth, p.parent with
    | depth + 1, some above =>
      match ← makeDirsWithin depth above with
      | .error e => return .error e
      | .ok () =>
        match ← ask (.makeDir p) with
        | .ok () => return .ok ()
        | .error e => return if ← isDirectory p then .ok () else .error e
    | _, _ => return .error (.text "failed to create whole tree")
  | .error e => return if ← isDirectory p then .ok () else .error e

def makeDirs (p : Path) : Dialogue (Except IoError Unit) := makeDirsWithin p.components.length p

structure Scope where
  root : Path
  held : Bool
  deriving DecidableEq, Repr

namespace Scope

def nameAttempts : Nat := 65536

/-- Tries fresh names below an absolute parent until one is not taken. -/
def createIn (base : Path) (namePrefix : String) : Nat → Dialogue (Except IoError Path)
  | 0 => return .error (.text "too many temporary files exist")
  | attempts + 1 => do
    let suffix : String ← ask .randomSuffix
    let root := base.join (Path.ofString (namePrefix ++ suffix))
    match ← ask (.makeDir root) with
    | .ok () => return .ok root
    | .error .alreadyExists => createIn base namePrefix attempts
    | .error e => return .error e

/-- The directory for temporary files: the variable TMPDIR, or else /tmp. -/
def systemParent : Dialogue Path := do
  match ← ask (.environment "TMPDIR") with
  | some b => return ⟨b⟩
  | none => return Path.ofString "/tmp"

/-- A relative path is taken from the working directory. -/
def anchor (p : Path) : Dialogue (Except IoError Path) := do
  if p.isAbsolute then return .ok p
  else
    match ← ask .workingDir with
    | .ok dir => return .ok (dir.join p)
    | .error e => return .error e

def create (parent : Option Path) (namePrefix : String) : Dialogue (Except ScopeError Scope) := do
  let parent ← match parent with
    | some p => pure p
    | none => systemParent
  match ← anchor parent with
  | .error e => return .error (.create parent e)
  | .ok base =>
    match ← createIn base namePrefix nameAttempts with
    | .ok root => return .ok ⟨root, true⟩
    | .error e => return .error (.create parent e)

/-- A relative path escapes unless it is made of plain names and `.` alone. -/
def escapes (relative : Path) : Bool :=
  relative.components.any fun
    | .normal _ | .current => false
    | .root | .parent => true

def path (s : Scope) (relative : Path) : Except ScopeError Path :=
  if escapes relative then .error (.escape relative) else .ok (s.root.join relative)

def createDir (s : Scope) (relative : Path) : Dialogue (Except ScopeError Path) := do
  match s.path relative with
  | .error e => return .error e
  | .ok path =>
    match ← makeDirs path with
    | .ok () => return .ok path
    | .error e => return .error (.prepare path e)

def makeParent (path : Path) : Dialogue (Except ScopeError Unit) := do
  match path.parent with
  | none => return .ok ()
  | some above =>
    match ← makeDirs above with
    | .ok () => return .ok ()
    | .error e => return .error (.prepare above e)

def writeFile (s : Scope) (relative : Path) (content : Bytes) :
    Dialogue (Except ScopeError Path) := do
  match s.path relative with
  | .error e => return .error e
  | .ok path =>
    match ← makeParent path with
    | .error e => return .error e
    | .ok () =>
      match ← ask (.store path content) with
      | .ok () => return .ok path
      | .error e => return .error (.prepare path e)

/-- Removes the scope's directory if that is still owed. A directory already gone counts as
removed. -/
def close (s : Scope) : Dialogue (Except ScopeError Unit × Scope) := do
  if s.held then
    match ← ask (.removeTree s.root) with
    | .ok () | .error .notFound => return (.ok (), { s with held := false })
    | .error e => return (.error (.remove s.root e), { s with held := false })
  else return (.ok (), s)

def drop (s : Scope) : Dialogue Scope := Prod.snd <$> s.close

end Scope

end SmokeBench
