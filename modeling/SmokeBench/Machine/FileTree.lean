import SmokeBench.Dialogue

/-!
The files of a simulated machine. An entry is stored under the list of names that leads to it from
the root, so a directory holds what is stored below its own list. Looking a path up follows links,
at most forty of them.
-/

namespace SmokeBench.Machine

abbrev Location := List Bytes

inductive Device
  | null
  | zero
  | full
  deriving DecidableEq, Repr

inductive Entry
  /-- A regular file; `serial` tells it from every other file there ever was. -/
  | file (serial mode : Nat) (content : Bytes)
  | directory (mode : Nat)
  | link (target : Bytes)
  | device (kind : Device)
  /-- A tool that belongs to the machine. -/
  | tool (name : String)
  deriving DecidableEq, Repr

structure FileTree where
  entries : List (Location × Entry)
  nextSerial : Nat
  deriving Repr

namespace FileTree

def at? (t : FileTree) (l : Location) : Option Entry :=
  if l.isEmpty then some (.directory 0o755) else (t.entries.find? (·.1 == l)).map (·.2)

def put (t : FileTree) (l : Location) (e : Entry) : FileTree :=
  if t.entries.any (·.1 == l) then
    { t with entries := t.entries.map fun p => if p.1 == l then (l, e) else p }
  else { t with entries := (l, e) :: t.entries }

/-- Takes away a location and everything below it. -/
def prune (t : FileTree) (l : Location) : FileTree :=
  { t with entries := t.entries.filter fun p => !l.isPrefixOf p.1 }

/-- Moves a location with everything below it; what was at the goal is replaced. -/
def graft (t : FileTree) (source goal : Location) : FileTree :=
  let kept := t.entries.filter fun p => !goal.isPrefixOf p.1 || source.isPrefixOf p.1
  { t with entries := kept.map fun p =>
      if source.isPrefixOf p.1 then (goal ++ p.1.drop source.length, p.2) else p }

def names (t : FileTree) (l : Location) : List Bytes :=
  t.entries.filterMap fun p =>
    if l.isPrefixOf p.1 && p.1.length == l.length + 1 then p.1.getLast? else none

inductive Place
  | found (location : Location) (entry : Entry)
  /-- Nothing is there, but its directory is; `asDirectory` when the path ended in a separator. -/
  | absent (directory : Location) (name : Bytes) (asDirectory : Bool)
  deriving DecidableEq, Repr

def nameLimit : Nat := 255
def pathLimit : Nat := 4096
def linkLimit : Nat := 40

def pieces (path : Bytes) : List Bytes := Bytes.splitOn Bytes.slash path

def trivialPiece (piece : Bytes) : Bool := piece.isEmpty

/-- Walks from a location along the pieces of a path. `last` says whether a link at the very end is
followed. -/
def walk (t : FileTree) (last : Bool) (links : Nat) (here : Location) (todo : List Bytes) :
    Except IoError Place :=
  match todo with
  | [] =>
    match t.at? here with
    | some e => .ok (.found here e)
    | none => .error .notFound
  | piece :: rest =>
    match t.at? here with
    | some (.directory _) =>
      if piece = [] ∨ piece = [Bytes.dot] then walk t last links here rest
      else if piece = [Bytes.dot, Bytes.dot] then walk t last links here.dropLast rest
      else if nameLimit < piece.length then .error .nameTooLong
      else
        match t.at? (here ++ [piece]) with
        | none =>
          if rest.all trivialPiece then .ok (.absent here piece (!rest.isEmpty))
          else .error .notFound
        | some (.link target) =>
          if rest.isEmpty && !last then .ok (.found (here ++ [piece]) (.link target))
          else
            match links with
            | 0 => .error .linkLoop
            | links + 1 =>
              walk t last links (if target.head? = some Bytes.slash then [] else here)
                (pieces target ++ rest)
        | some _ => walk t last links (here ++ [piece]) rest
    | some _ => .error .notADirectory
    | none => .error .notFound
termination_by (links, todo.length)

def resolve (t : FileTree) (cwd : Location) (last : Bool) (path : Bytes) : Except IoError Place :=
  if path.contains 0 then .error .nulInName
  else if path.isEmpty then .error .notFound
  else if pathLimit ≤ path.length then .error .nameTooLong
  else t.walk last linkLimit (if path.head? = some Bytes.slash then [] else cwd) (pieces path)

def lookUp (t : FileTree) (cwd : Location) (last : Bool) (path : Bytes) :
    Except IoError (Location × Entry) :=
  match t.resolve cwd last path with
  | .error e => .error e
  | .ok (.found l e) => .ok (l, e)
  | .ok (.absent ..) => .error .notFound

/-- Every tool counts as a file of this size. -/
def toolSize : Nat := 35664

def metadataOf : Entry → Metadata
  | .file _ _ content => ⟨.file, content.length⟩
  | .tool _ => ⟨.file, toolSize⟩
  | .directory _ => ⟨.directory, 4096⟩
  | .link target => ⟨.other, target.length⟩
  | .device _ => ⟨.other, 0⟩

def metadata (t : FileTree) (cwd : Location) (path : Bytes) : Except IoError Metadata :=
  (t.lookUp cwd true path).map (metadataOf ·.2)

def executableMode (mode : Nat) : Bool := mode &&& 0o111 != 0

def mayExecute : Entry → Bool
  | .file _ mode _ => executableMode mode
  | .tool _ => true
  | _ => false

def availability (t : FileTree) (cwd : Location) (path : Bytes) : Availability :=
  match t.lookUp cwd true path with
  | .error _ => .missing
  | .ok (_, e) => if mayExecute e then .ready else .notExecutable

def load (t : FileTree) (cwd : Location) (path : Bytes) : Except IoError Bytes :=
  match t.lookUp cwd true path with
  | .error e => .error e
  | .ok (_, .directory _) => .error .isADirectory
  | .ok (_, .file _ _ content) => .ok content
  | .ok _ => .ok []

/-- Where a new or existing file is to be written. -/
inductive Target
  | file (location : Location)
  | device (kind : Device)
  deriving DecidableEq, Repr

/-- Opens a path for writing, with a fresh empty file where there is none. -/
def openForWriting (t : FileTree) (cwd : Location) (path : Bytes) (mode : Nat) (truncate : Bool) :
    Except IoError (Target × FileTree) :=
  match t.resolve cwd true path with
  | .error e => .error e
  | .ok (.absent dir name asDirectory) =>
    if asDirectory then .error .isADirectory
    else .ok (.file (dir ++ [name]),
      { t.put (dir ++ [name]) (.file t.nextSerial mode []) with nextSerial := t.nextSerial + 1 })
  | .ok (.found l e) =>
    match e with
    | .directory _ => .error .isADirectory
    | .device kind => .ok (.device kind, t)
    | .file serial mode _ =>
      .ok (.file l, if truncate then t.put l (.file serial mode []) else t)
    | .tool _ | .link _ => .error .permissionDenied

def fileMode : Nat := 0o644
def directoryMode : Nat := 0o755

def store (t : FileTree) (cwd : Location) (path content : Bytes) : Except IoError FileTree :=
  match t.openForWriting cwd path fileMode true with
  | .error e => .error e
  | .ok (.device .full, t) => if content.isEmpty then .ok t else .error .noSpace
  | .ok (.device _, t) => .ok t
  | .ok (.file l, t) =>
    match t.at? l with
    | some (.file serial mode _) => .ok (t.put l (.file serial mode content))
    | _ => .ok t

def makeDir (t : FileTree) (cwd : Location) (path : Bytes) (mode : Nat) :
    Except IoError FileTree :=
  match t.resolve cwd false path with
  | .error e => .error e
  | .ok (.found ..) => .error .alreadyExists
  | .ok (.absent dir name _) => .ok (t.put (dir ++ [name]) (.directory mode))

def makeLink (t : FileTree) (cwd : Location) (target path : Bytes) : Except IoError FileTree :=
  match t.resolve cwd false path with
  | .error e => .error e
  | .ok (.found ..) => .error .alreadyExists
  | .ok (.absent _ _ true) => .error .notFound
  | .ok (.absent dir name false) => .ok (t.put (dir ++ [name]) (.link target))

def removeTree (t : FileTree) (cwd : Location) (path : Bytes) : Except IoError FileTree :=
  match t.lookUp cwd false path with
  | .error e => .error e
  | .ok (l, .directory _) => .ok (t.prune l)
  | .ok (l, .link _) => .ok (t.prune l)
  | .ok _ => .error .notADirectory

def unlink (t : FileTree) (cwd : Location) (path : Bytes) : Except IoError FileTree :=
  match t.lookUp cwd false path with
  | .error e => .error e
  | .ok (_, .directory _) => .error .isADirectory
  | .ok (_, .tool _) | .ok (_, .device _) => .error .permissionDenied
  | .ok (l, _) => .ok (t.prune l)

def removeDir (t : FileTree) (cwd : Location) (path : Bytes) : Except IoError FileTree :=
  match t.lookUp cwd false path with
  | .error e => .error e
  | .ok (l, .directory _) =>
    if (t.names l).isEmpty then .ok (t.prune l) else .error .directoryNotEmpty
  | .ok _ => .error .notADirectory

def rename (t : FileTree) (cwd : Location) (source goal : Bytes) : Except IoError FileTree :=
  match t.lookUp cwd false source, t.resolve cwd false goal with
  | .error e, _ => .error e
  | _, .error e => .error e
  | .ok (l, e), .ok (.absent dir name asDirectory) =>
    match e with
    | .directory _ =>
      if l.isPrefixOf dir then .error .invalidArgument else .ok (t.graft l (dir ++ [name]))
    | _ => if asDirectory then .error .notADirectory else .ok (t.graft l (dir ++ [name]))
  | .ok (l, e), .ok (.found g old) =>
    if l = g then .ok t
    else
      match e, old with
      | .directory _, .directory _ =>
        if (t.names g).isEmpty then .ok (t.graft l g) else .error .directoryNotEmpty
      | .directory _, _ => .error .notADirectory
      | _, .directory _ => .error .isADirectory
      | _, _ => .ok (t.graft l g)

def setMode (t : FileTree) (cwd : Location) (path : Bytes) (mode : Nat) :
    Except IoError FileTree :=
  match t.lookUp cwd true path with
  | .error e => .error e
  | .ok (l, .file serial _ content) => .ok (t.put l (.file serial mode content))
  | .ok (l, .directory _) => .ok (t.put l (.directory mode))
  | .ok _ => .error .notPermitted

/-- Changes the content of the file with a serial number, wherever it is by now. -/
def updateFile (t : FileTree) (serial : Nat) (change : Bytes → Bytes) : FileTree :=
  { t with entries := t.entries.map fun
      | (l, .file s mode content) =>
        if s = serial then (l, .file s mode (change content)) else (l, .file s mode content)
      | p => p }

def contentOf (t : FileTree) (serial : Nat) : Option Bytes :=
  t.entries.findSome? fun
    | (_, .file s _ content) => if s = serial then some content else none
    | _ => none

def joined (l : Location) : Bytes := l.flatMap fun name => Bytes.slash :: name

end FileTree

end SmokeBench.Machine
