import SmokeBench.Proofs.Decoding
import SmokeBench.Proofs.TextSearch
import SmokeBench.Scenario

/-! A path that is shown in an argument and read there again. Shown, a path is a text, so it comes back
as it was only if it is one; and with a separator and a name behind it, it comes back as the path that
the name was joined to only if it also takes a separator. -/

namespace SmokeBench

namespace Path

def IsText (p : Path) : Prop := (Text.Utf8.strict p.bytes).isSome

instance (p : Path) : Decidable p.IsText := inferInstanceAs (Decidable (_ = _))

/-- A path that a separator is put behind when something is joined to it. -/
def Open (p : Path) : Prop := p.bytes ≠ [] ∧ p.bytes.getLast? ≠ some Bytes.slash

/-- Byte for byte this path, or what stands behind it and a separator. -/
def Below (p q : Path) : Prop := q = p ∨ ∃ rest, q.bytes = p.bytes ++ Bytes.slash :: rest

theorem ofString_display_iff {p : Path} : ofString p.display = p ↔ p.IsText := by
  rw [IsText, ← Text.Utf8.ofString_lossy_iff]
  constructor
  · intro h
    exact congrArg Path.bytes h
  · intro h
    exact congrArg Path.mk h

theorem join_of_open {p q : Path} (hp : p.Open) (hq : q.isAbsolute = false) :
    p.join q = ⟨p.bytes ++ Bytes.slash :: q.bytes⟩ := by
  unfold join
  rw [hq]
  cases hlast : p.bytes.getLast? with
  | none => exact absurd (List.getLast?_eq_none_iff.mp hlast) hp.1
  | some last =>
    have hne : last ≠ Bytes.slash := by
      rintro rfl
      exact hp.2 hlast
    simp [hne]

theorem join_of_not_open {p q : Path} (hp : ¬ p.Open) (hq : q.isAbsolute = false) :
    p.join q = ⟨p.bytes ++ q.bytes⟩ := by
  unfold join
  rw [hq]
  cases hlast : p.bytes.getLast? with
  | none =>
    rw [List.getLast?_eq_none_iff.mp hlast]
    rfl
  | some last =>
    have hslash : last = Bytes.slash := by
      by_contra hne
      refine hp ⟨?_, ?_⟩
      · intro hnil
        rw [hnil] at hlast
        cases hlast
      · rw [hlast]
        exact fun h => hne (Option.some.inj h)
    simp [hslash]

/-- Shown, with a separator and a name behind it, a path is what the name is joined to if and only
if it is a text that takes a separator. -/
theorem ofString_below_iff {p : Path} {name : String} (hname : (ofString name).isAbsolute = false) :
    ofString (p.display ++ "/" ++ name) = p.join (ofString name) ↔ p.IsText ∧ p.Open := by
  have hbytes : (ofString (p.display ++ "/" ++ name)).bytes =
      (ofString (p.display ++ "/")).bytes ++ (ofString name).bytes := Bytes.ofString_append _ _
  have hslash : (ofString (p.display ++ "/")).bytes = (ofString p.display).bytes ++ [Bytes.slash] :=
    Bytes.ofString_append _ _
  constructor
  · intro h
    have heq := congrArg Path.bytes h
    by_cases hopen : p.Open
    · refine ⟨?_, hopen⟩
      rw [join_of_open hopen hname, hbytes, hslash, List.append_assoc] at heq
      exact ofString_display_iff.mp (congrArg Path.mk (List.append_cancel_right heq))
    · -- then the path would be a text that ends in one separator more than it has
      rw [join_of_not_open hopen hname, hbytes] at heq
      have hself : ofString (p.display ++ "/") = p := congrArg Path.mk (List.append_cancel_right heq)
      have htext : p.IsText := by
        rw [← hself, IsText, ofString, Text.Utf8.strict_ofString]
        rfl
      rw [ofString_display_iff.mpr htext] at hslash
      rw [hself] at hslash
      simp at hslash
  · rintro ⟨htext, hopen⟩
    rw [join_of_open hopen hname]
    rw [ofString_display_iff.mpr htext] at hslash
    rw [hslash, List.append_assoc] at hbytes
    exact congrArg Path.mk hbytes

theorem join_below (root : Path) {p q : Path} (hp : p.isAbsolute = false)
    (hq : q.isAbsolute = false) (h : p.Below q) : (root.join p).Below (root.join q) := by
  rcases h with rfl | ⟨rest, hrest⟩
  · exact .inl rfl
  · refine .inr ⟨rest, ?_⟩
    by_cases hopen : root.Open
    · rw [join_of_open hopen hp, join_of_open hopen hq, hrest, List.append_assoc, List.cons_append]
    · rw [join_of_not_open hopen hp, join_of_not_open hopen hq, hrest, List.append_assoc]

end Path

def pathOptions : List String := ["-datadir=", "-conf="]

/-- What stands behind the beginning of a text, if it begins so. -/
def behind (start text : String) : Option String :=
  if start.toList.isPrefixOf text.toList then
    some (.ofList (text.toList.drop start.toList.length))
  else none

def handedPath (arg : String) : Option Path :=
  (pathOptions.findSome? fun option => behind option arg).map Path.ofString

def handed (args : List String) : List Path := args.filterMap handedPath

theorem behind_append (start rest : String) : behind start (start ++ rest) = some rest := by
  have hprefix : start.toList.isPrefixOf (start ++ rest).toList = true := by
    rw [String.toList_append, List.isPrefixOf_iff_prefix]
    exact List.prefix_append _ _
  rw [behind, if_pos hprefix, String.toList_append, List.drop_left, String.ofList_toList]

theorem handedPath_datadir (rest : String) :
    handedPath ("-datadir=" ++ rest) = some (.ofString rest) := by
  rw [handedPath, pathOptions, List.findSome?_cons, behind_append]
  rfl

theorem handedPath_conf (rest : String) :
    handedPath ("-conf=" ++ rest) = some (.ofString rest) := by
  have hother : behind "-datadir=" ("-conf=" ++ rest) = none := by
    rw [behind, String.toList_append]
    rfl
  rw [handedPath, pathOptions, List.findSome?_cons, hother, List.findSome?_cons, behind_append]
  rfl

namespace Scenario

theorem render_option {option after : String} (root : Path) (hoption : '\x7b' ∉ option.toList)
    (hafter : '\x7b' ∉ after.toList) :
    Text.replaceToken scopeToken root.display (option ++ scopeToken ++ after) =
      option ++ (root.display ++ after) := by
  rw [Text.replaceToken_once (c := '\x7b') rfl hoption hafter, String.append_assoc]

theorem render_plain {arg : String} (root : Path) (h : Text.contains arg scopeToken = false) :
    Text.replaceToken scopeToken root.display arg = arg := by
  apply Text.replaceToken_of_not_contains
  rw [h]
  exact Bool.false_ne_true

/-- Where the bench expects the data directory of the subject: where it made one, or at the root of
the scope. -/
def dataDirAt (s : Scenario) (root : Path) : Path :=
  match s.setup.findSome? fun | .createDir p => some p | .writeFile _ _ => none with
  | some p => root.join p
  | none => root

/-- Where the bench has written the configuration of the subject, if it has. -/
def configAt (s : Scenario) (root : Path) : Option Path :=
  s.setup.findSome? fun | .writeFile p _ => some (root.join p) | .createDir _ => none

/-- The subject is sent where the bench works, byte for byte. -/
def Agrees (s : Scenario) (root : Path) : Prop :=
  handed (s.renderArgs (some root)) = s.dataDirAt root :: (s.configAt root).toList

instance (s : Scenario) (root : Path) : Decidable (s.Agrees root) :=
  inferInstanceAs (Decidable (_ = _))

end Scenario

end SmokeBench
