import SmokeBench.Settings.Resolved

/-!
The four binaries under test and where the settings put them.
-/

namespace SmokeBench.Catalog

structure Subjects where
  daemon : Binary
  cli : Binary
  tx : Binary
  qt : Binary
  deriving DecidableEq, Repr

def daemonName : String := "litecoincashd"
def cliName : String := "litecoincash-cli"
def txName : String := "litecoincash-tx"
def qtName : String := "litecoincash-qt"

def Subjects.of (s : Settings) : Subjects :=
  ⟨⟨daemonName, s.srcDir⟩, ⟨cliName, s.srcDir⟩, ⟨txName, s.srcDir⟩, ⟨qtName, s.qtDir⟩⟩

/-- A help text must be longer than this many bytes. -/
def helpFloor : Nat := 100

/-- An evaluator that needs only the run, and never panics. -/
def judge (f : Evidence → List Verdict) : Evaluator := fun e => return .ok (f e)

end SmokeBench.Catalog
