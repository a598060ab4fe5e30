/-!
Byte strings. Paths, file contents, program arguments and captured output are bytes first; text is
what `Text.Utf8` makes of them.
-/

namespace SmokeBench

abbrev Bytes := List UInt8

namespace Bytes

def ofString (s : String) : Bytes := s.toList.flatMap String.utf8EncodeChar

def slash : UInt8 := 47
def dot : UInt8 := 46

def splitStep (sep : UInt8) (state : Bytes × List Bytes) (c : UInt8) : Bytes × List Bytes :=
  if c == sep then ([], state.1.reverse :: state.2) else (c :: state.1, state.2)

/-- Cuts at every separator: `n` separators give `n + 1` pieces. -/
def splitOn (sep : UInt8) (b : Bytes) : List Bytes :=
  let state := b.foldl (splitStep sep) ([], [])
  (state.1.reverse :: state.2).reverse

end Bytes

end SmokeBench
