import SmokeBench.Dialogue

/-!
What a directory holds at any depth, as sorted lines: `d` and a path for a directory, `f`, a path and
a size for a file, `o` and a path for anything else. Links are not followed.
-/

namespace SmokeBench

namespace Listing

structure Line where
  path : Bytes
  metadata : Metadata

/-- Everything below a directory; `depth` bounds how far down. -/
def below : (depth : Nat) → (root : Path) → (before : Bytes) → Dialogue (List Line)
  | 0, _, _ => return []
  | depth + 1, root, before => do
    match ← ask (.entries root) with
    | .error _ => return []
    | .ok found =>
      let lines ← found.mapM fun (name, metadata) => do
        let line : Line := ⟨before ++ name, metadata⟩
        if metadata.kind = .directory then
          return line :: (← below depth (root.join ⟨name⟩) (before ++ name ++ [Bytes.slash]))
        else return [line]
      return lines.flatten

def Line.text (sizes : Bool) (l : Line) : String :=
  let path := Text.Utf8.lossy l.path
  match l.metadata.kind with
  | .directory => s!"d {path}"
  | .file => if sizes then s!"f {path} {l.metadata.size}" else s!"f {path}"
  | .other => s!"o {path}"

def insertSorted (x : String) : List String → List String
  | [] => [x]
  | y :: ys => if x ≤ y then x :: y :: ys else y :: insertSorted x ys

/-- Directories nest no deeper than a path may be long. -/
def depthLimit : Nat := 4096

end Listing

/-- The sorted lines for all that a directory holds. -/
def listing (sizes : Bool) (root : Path) : Dialogue (List String) := do
  let lines ← Listing.below Listing.depthLimit root []
  return (lines.map (Listing.Line.text sizes)).foldr Listing.insertSorted []

end SmokeBench
