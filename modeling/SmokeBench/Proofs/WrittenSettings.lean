import Mathlib.Tactic.Ring
import SmokeBench.Proofs.SettingsLeaves

/-! A settings file for any text. Every character can be written by its number, so for each setting
that is a text there is a document of one line that sets it, and nothing else, to a given text. -/

namespace SmokeBench

namespace Toml

namespace Quoted

/-- The last digits of a number in base sixteen, so many of them. -/
def hexDigits : (count n : Nat) → List Char
  | 0, _ => []
  | count + 1, n => Nat.digitChar (n / 16 ^ count % 16) :: hexDigits count n

theorem hexValue_digitChar : ∀ d < 16, hexValue (Nat.digitChar d) = some d := by decide

theorem scalar_hexDigits (count value n : Nat) (rest : List Char) :
    scalar count value (hexDigits count n ++ rest) =
      scalar 0 (value * 16 ^ count + n % 16 ^ count) rest := by
  induction count generalizing value with
  | zero => simp [hexDigits, Nat.mod_one]
  | succ count ih =>
    have hdigit := hexValue_digitChar _ (Nat.mod_lt (n / 16 ^ count) (by decide : 0 < 16))
    have hvalue : (value * 16 + n / 16 ^ count % 16) * 16 ^ count + n % 16 ^ count =
        value * 16 ^ (count + 1) + n % 16 ^ (count + 1) := by
      rw [Nat.mod_pow_succ, Nat.pow_succ]
      ring
    rw [hexDigits, List.cons_append]
    change (do
      scalar count (value * 16 + (← hexValue (Nat.digitChar (n / 16 ^ count % 16))))
        (hexDigits count n ++ rest)) = _
    rw [hdigit]
    change scalar count _ _ = _
    rw [ih, hvalue]

def escaped (c : Char) : List Char := '\\' :: 'U' :: hexDigits 8 c.toNat

theorem escape_escaped (c : Char) (rest : List Char) :
    escape ('U' :: (hexDigits 8 c.toNat ++ rest)) = some (c, rest) := by
  have hvalid : c.toNat.isValidChar := c.valid
  have hlt : c.toNat < 16 ^ 8 := by
    rcases hvalid with h | ⟨-, h⟩ <;> omega
  change scalar 8 0 (hexDigits 8 c.toNat ++ rest) = _
  rw [scalar_hexDigits, Nat.zero_mul, Nat.zero_add, Nat.mod_eq_of_lt hlt, scalar, if_pos hvalid,
    Char.ofNat_toNat]

theorem basic_escaped {fuel : Nat} {cs : List Char} (h : cs.length < fuel) (done rest : List Char) :
    basic fuel done (cs.flatMap escaped ++ '"' :: rest) = some (done.reverse ++ cs, rest) := by
  induction cs generalizing fuel done with
  | nil =>
    obtain ⟨fuel, rfl⟩ := Nat.exists_eq_add_of_lt h
    simp [basic]
  | cons c cs ih =>
    cases fuel with
    | zero => cases h
    | succ fuel =>
      have hescape := escape_escaped c (cs.flatMap escaped ++ '"' :: rest)
      rw [List.flatMap_cons, List.append_assoc]
      change (escape ('U' :: (hexDigits 8 c.toNat ++ (cs.flatMap escaped ++ '"' :: rest)))).bind
        (fun r => basic fuel (r.1 :: done) r.2) = _
      rw [hescape]
      change basic fuel (c :: done) _ = _
      rw [ih (Nat.lt_of_succ_lt_succ h), List.reverse_cons, List.append_assoc]
      rfl

def written (t : String) : List Char := '"' :: (t.toList.flatMap escaped ++ ['"'])

theorem length_le_flatMap_escaped (cs : List Char) : cs.length ≤ (cs.flatMap escaped).length := by
  induction cs with
  | nil => exact Nat.le_refl 0
  | cons c rest ih =>
    rw [List.flatMap_cons, List.length_append, escaped, List.length_cons, List.length_cons]
    omega

theorem any_written {t : String} (h : t ≠ "") (rest : List Char) :
    any (written t ++ rest) = some (t, rest) := by
  cases hcs : t.toList with
  | nil => exact absurd (String.toList_eq_nil_iff.mp hcs) h
  | cons c cs =>
    have hshort : any (written t ++ rest) = short (written t ++ rest) := by
      rw [written, hcs]
      rfl
    have hlength := length_le_flatMap_escaped t.toList
    have hfuel : t.toList.length < (t.toList.flatMap escaped ++ '"' :: rest).length + 1 := by
      rw [List.length_append]
      omega
    rw [hshort, written, List.cons_append, List.append_assoc, List.singleton_append, short,
      basic_escaped hfuel]
    simp

end Quoted

theorem value_written {t : String} (h : t ≠ "") (fuel depth : Nat) (rest : List Char) :
    value (fuel + 1) (depth + 1) (Quoted.written t ++ rest) = some (.string t, rest) := by
  change (Quoted.any (Quoted.written t ++ rest)).map (fun r => (Value.string r.1, r.2)) = _
  rw [Quoted.any_written h]
  rfl

theorem parse_line {c : Char} {cs : List Char} {r : Reading} (hmark : c ≠ '\uFEFF')
    (h : line ⟨[], []⟩ (c :: cs) = some (r, [])) :
    parse (String.ofList (c :: cs)) = some (.table (freezeEntries r.document)) := by
  have hlines : lines (cs.length + 1 + 1) ⟨[], []⟩ (c :: cs) = some r := by
    rw [lines, h]
    · rfl
    · exact fun hnil => List.cons_ne_nil c cs hnil
  rw [parse, String.toList_ofList]
  split
  · rename_i heq
    exact absurd (List.cons.inj heq).1 hmark
  · rw [List.length_cons, hlines]
    rfl

end Toml

namespace FileSettings

open Toml (Value)

theorem fill_singleton {α : Type} (label : String) (fields : List (Field α)) (s : α)
    (entry : String × Value) : fill label fields s (.table [entry]) = setNamed fields s entry := by
  rw [fill, fillByName, sorted, List.mergeSort_singleton, List.foldlM_cons]
  exact bind_pure _

/-- The settings that a file gives as texts. -/
inductive Worded
  | srcDir
  | qtDir
  | scopeRoot
  | summaryDir
  | scopePrefix
  deriving DecidableEq, Repr

namespace Worded

def sectionName : Worded → String
  | srcDir | qtDir => "binaries"
  | scopeRoot | scopePrefix => "scope"
  | summaryDir => "summary"

def key : Worded → String
  | srcDir => "src_dir"
  | qtDir => "qt_dir"
  | scopeRoot => "root"
  | summaryDir => "dir"
  | scopePrefix => "prefix"

def given (s : FileSettings) : Worded → Option Bytes
  | srcDir => s.binaries.srcDir.map (·.bytes)
  | qtDir => s.binaries.qtDir.map (·.bytes)
  | scopeRoot => s.scope.root.map (·.bytes)
  | summaryDir => s.summary.dir.map (·.bytes)
  | scopePrefix => s.scope.namePrefix.map Bytes.ofString

def only (t : String) : Worded → FileSettings
  | srcDir => { empty with binaries := ⟨some (.ofString t), none⟩ }
  | qtDir => { empty with binaries := ⟨none, some (.ofString t)⟩ }
  | scopeRoot => { empty with scope := ⟨some (.ofString t), none⟩ }
  | summaryDir => { empty with summary := ⟨some (.ofString t)⟩ }
  | scopePrefix => { empty with scope := ⟨none, some t⟩ }

theorem given_only (w : Worded) (t : String) : w.given (w.only t) = some (Bytes.ofString t) := by
  cases w <;> rfl

/-- A dotted key, up to its value. -/
def front (w : Worded) : List Char := w.sectionName.toList ++ '.' :: w.key.toList ++ ['=']

/-- A document that sets this and nothing else. -/
def document (w : Worded) (t : String) : String :=
  String.ofList (w.front ++ (Toml.Quoted.written t ++ ['\n']))

def tree (w : Worded) (t : String) : Value :=
  .table [(w.sectionName, .table [(w.key, .string t)])]

theorem pair_front (w : Worded) (rest : List Char) :
    Toml.pair ⟨[], []⟩ (w.front ++ rest) = (do
      let (v, rest) ← Toml.value ((Toml.skipSpaces rest).length + 1) Toml.depthLimit
        (Toml.skipSpaces rest)
      return (⟨[(w.sectionName, .table .dotted [(w.key, .leaf v)])], []⟩, rest)) := by
  cases w <;> rfl

theorem line_front (w : Worded) (rest : List Char) :
    Toml.line ⟨[], []⟩ (w.front ++ rest) = (do
      let (r, rest) ← Toml.pair ⟨[], []⟩ (w.front ++ rest)
      return (r, ← Toml.endLine rest)) := by
  cases w <;> rfl

theorem line_document (w : Worded) {t : String} (h : t ≠ "") :
    Toml.line ⟨[], []⟩ (w.front ++ (Toml.Quoted.written t ++ ['\n'])) =
      some (⟨[(w.sectionName, .table .dotted [(w.key, .leaf (.string t))])], []⟩, []) := by
  have hskip : Toml.skipSpaces (Toml.Quoted.written t ++ ['\n']) =
      Toml.Quoted.written t ++ ['\n'] := rfl
  rw [line_front, pair_front, hskip, Toml.depthLimit, Toml.value_written h]
  rfl

theorem parse_document (w : Worded) {t : String} (h : t ≠ "") :
    Toml.parse (w.document t) = some (w.tree t) := by
  have hline := w.line_document h
  obtain ⟨c, cs, hfront, hmark⟩ : ∃ c cs,
      w.front ++ (Toml.Quoted.written t ++ ['\n']) = c :: cs ∧ c ≠ '\uFEFF' := by
    cases w <;> exact ⟨_, _, rfl, by decide⟩
  rw [hfront] at hline
  rw [document, hfront, Toml.parse_line hmark hline]
  rfl

theorem ofToml_tree (w : Worded) (t : String) : ofToml (w.tree t) = .ok (w.only t) := by
  have hsection {α : Type} (label : String) (fields : List (Field α)) (s : α) :
      fill label fields s (.table [(w.key, .string t)]) =
        setNamed fields s (w.key, .string t) := fill_singleton _ _ _ _
  rw [ofToml, tree, fill_singleton]
  cases w with
  | srcDir | qtDir =>
    change (do return { empty with binaries := ← fill _ binariesFields ⟨none, none⟩ _ }) = _
    rw [hsection]
    rfl
  | scopeRoot | scopePrefix =>
    change (do return { empty with scope := ← fill _ scopeFields ⟨none, none⟩ _ }) = _
    rw [hsection]
    rfl
  | summaryDir =>
    change (do return { empty with summary := ← fill _ summaryFields ⟨none⟩ _ }) = _
    rw [hsection]
    rfl

theorem parse_only (w : Worded) {t : String} (h : t ≠ "") (hvalid : (w.only t).validate = .ok ()) :
    parse (w.document t) = .ok (w.only t) := by
  rw [parse, w.parse_document h]
  change (ofToml (w.tree t) >>= fun s => s.validate >>= fun _ => pure s) = _
  rw [w.ofToml_tree]
  change ((w.only t).validate >>= fun _ => pure (w.only t)) = _
  rw [hvalid]
  rfl

end Worded

end FileSettings

end SmokeBench
