import SmokeBench.Text.Utf8

/-!
Paths are byte strings. Two paths are the same when their components are: repeated separators and
inner `.` do not count, a leading `.` does, and `..` is kept as written.
-/

namespace SmokeBench

structure Path where
  bytes : Bytes
  deriving DecidableEq, Repr, Inhabited

namespace Path

inductive Component
  | root
  | current
  | parent
  | normal (name : Bytes)
  deriving DecidableEq, Repr

def ofString (s : String) : Path := ⟨Bytes.ofString s⟩

def display (p : Path) : String := Text.Utf8.lossy p.bytes

def isAbsolute (p : Path) : Bool := p.bytes.head? == some Bytes.slash

def componentOf (piece : Bytes) : Option Component :=
  if piece = [] ∨ piece = [Bytes.dot] then none
  else if piece = [Bytes.dot, Bytes.dot] then some .parent
  else some (.normal piece)

def components (p : Path) : List Component :=
  let pieces := Bytes.splitOn Bytes.slash p.bytes
  let body := pieces.filterMap componentOf
  if p.isAbsolute then .root :: body
  else if pieces.head? = some [Bytes.dot] then .current :: body
  else body

def sameAs (p q : Path) : Bool := p.components == q.components

/-- An absolute right side replaces the left one. -/
def join (p q : Path) : Path :=
  if q.isAbsolute then q
  else
    match p.bytes.getLast? with
    | none => q
    | some last => if last = Bytes.slash then ⟨p.bytes ++ q.bytes⟩ else ⟨p.bytes ++ Bytes.slash :: q.bytes⟩

/-- Removes trailing separators and trailing `.` from a reversed path; a lone first byte stays. -/
def trimTail : Bytes → Bytes
  | [] => []
  | [c] => [c]
  | c :: d :: rest =>
    if c = Bytes.slash then trimTail (d :: rest)
    else if c = Bytes.dot ∧ d = Bytes.slash then trimTail (d :: rest)
    else c :: d :: rest

/-- The path without its last component; none for a path without one, such as `/`. -/
def parent (p : Path) : Option Path :=
  match p.components.getLast? with
  | none | some .root => none
  | some _ => some ⟨(trimTail ((trimTail p.bytes.reverse).dropWhile (· != Bytes.slash))).reverse⟩

end Path

end SmokeBench
