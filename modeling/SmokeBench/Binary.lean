import SmokeBench.Dialogue

/-!
A subject binary is named by a logical name and the directory it should be in.
-/

namespace SmokeBench

structure Binary where
  name : String
  directory : Path
  deriving DecidableEq, Repr

def Binary.path (b : Binary) : Path := b.directory.join (Path.ofString b.name)

end SmokeBench
