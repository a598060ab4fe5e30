import SmokeBench.Proofs.Variables
import SmokeBench.Proofs.WrittenSettings

/-! Blank settings. A file refuses a directory only if it is empty and a name prefix if it has
nothing but blanks; a variable is refused in both cases. So the two layers differ about a directory
exactly if it is a run of blanks, and a file may set such a directory. -/

namespace SmokeBench

open Text (AllBlank)

namespace EnvironmentSettings

def only (key : EnvironmentKey) (raw : Bytes) (name : String) : Option Bytes :=
  if name = key.name then some raw else .none

/-- The environment layer accepts this value of a variable. -/
def Accepts (key : EnvironmentKey) (raw : Bytes) : Prop :=
  ∃ settings, (load.run (Host.within (only key raw)) ()).1 = .ok settings

theorem accepts_iff {key : EnvironmentKey} (hkey : key ∈ asked) {raw : Bytes} :
    Accepts key raw ↔ Fits key raw := by
  have hwithin : Within (Host.within (only key raw)) (only key raw) := fun _ _ => rfl
  unfold Accepts
  rw [load_within hwithin (), (ofValues_reads _).ok_iff]
  constructor
  · intro h
    exact h key hkey raw (if_pos rfl)
  · intro h k _ b hb
    obtain ⟨hname, hraw⟩ := Option.ite_none_right_eq_some.mp hb
    have hsame : k = key := by
      revert hname
      cases k <;> cases key <;> decide
    rw [hsame, ← Option.some.inj hraw]
    exact h

theorem fits_text_iff {key : EnvironmentKey} (hkey : key ≠ .timeoutSeconds) {t : String} :
    Fits key (Bytes.ofString t) ↔ ¬ AllBlank t.toList := by
  constructor
  · rintro ⟨text, htext, hvisible, -⟩
    rwa [Bytes.ofString_injective htext]
  · exact fun h => ⟨t, rfl, h, fun htimeout => absurd htimeout hkey⟩

end EnvironmentSettings

namespace FileSettings

theorem validate_iff {s : FileSettings} : s.validate = .ok () ↔
    (∀ c ∈ s.counts, c.2 ≠ some 0) ∧ (∀ p ∈ s.paths, ∀ path ∈ p.2, path.bytes ≠ []) ∧
      ∀ name ∈ s.scope.namePrefix, ¬ AllBlank name.toList := by
  unfold validate
  cases hcount : s.counts.find? (·.2 == some 0) with
  | some c =>
    have hzero : c.2 = some 0 := by simpa using List.find?_some hcount
    exact iff_of_false nofun fun h => h.1 c (List.mem_of_find?_eq_some hcount) hzero
  | none =>
    have hcounts : ∀ c ∈ s.counts, c.2 ≠ some 0 := by simpa using hcount
    rw [and_iff_right hcounts]
    cases hpath : s.paths.find? fun p => p.2.any (·.bytes.isEmpty) with
    | some p =>
      have hempty : ∃ path, p.2 = some path ∧ path.bytes = [] := by
        simpa [Option.any_eq_true] using List.find?_some hpath
      obtain ⟨path, hp, hbytes⟩ := hempty
      exact iff_of_false nofun fun h =>
        h.1 p (List.mem_of_find?_eq_some hpath) path hp hbytes
    | none =>
      have hpaths : ∀ p ∈ s.paths, ∀ path ∈ p.2, path.bytes ≠ [] := by
        intro p hp path hmem hbytes
        have hnot := List.find?_eq_none.mp hpath p hp
        rw [Option.mem_def.mp hmem] at hnot
        exact hnot (by simp [hbytes])
      rw [and_iff_right hpaths]
      cases s.scope.namePrefix with
      | none => exact iff_of_true rfl nofun
      | some name =>
        rw [Option.any_some]
        by_cases hblank : AllBlank name.toList
        · have htrue := Text.blank_iff.mpr hblank
          simp [htrue, hblank]
        · have hfalse := mt Text.blank_iff.mp hblank
          simp [hfalse, hblank]

namespace Worded

/-- What a file refuses for a setting. -/
def Refuses : Worded → String → Prop
  | scopePrefix, t => AllBlank t.toList
  | _, t => t = ""

theorem refuses_empty (w : Worded) : w.Refuses "" := by
  cases w with
  | scopePrefix => exact nofun
  | _ => rfl

theorem validate_words {s : FileSettings} : s.validate = .ok () ↔
    (∀ c ∈ s.counts, c.2 ≠ some 0) ∧
      ∀ (w : Worded) (t : String), w.given s = some (Bytes.ofString t) → ¬ w.Refuses t := by
  have hdirectory {found : Option Path} : (∀ path ∈ found, path.bytes ≠ []) ↔
      ∀ t, found.map (·.bytes) = some (Bytes.ofString t) → t ≠ "" := by
    constructor
    · rintro h t ht rfl
      obtain ⟨path, hpath, hbytes⟩ := Option.map_eq_some_iff.mp ht
      exact h path hpath hbytes
    · intro h path hpath hbytes
      refine h "" ?_ rfl
      rw [Option.mem_def.mp hpath, Option.map_some, hbytes]
      rfl
  have hname {found : Option String} : (∀ name ∈ found, ¬ AllBlank name.toList) ↔
      ∀ t, found.map Bytes.ofString = some (Bytes.ofString t) → ¬ AllBlank t.toList := by
    constructor
    · intro h t ht
      obtain ⟨name, hfound, hbytes⟩ := Option.map_eq_some_iff.mp ht
      exact Bytes.ofString_injective hbytes ▸ h name hfound
    · intro h name hfound
      exact h name (congrArg _ (Option.mem_def.mp hfound))
  rw [validate_iff]
  simp only [paths, List.forall_mem_cons, hdirectory, hname]
  refine and_congr_right' ⟨?_, fun h => ?_⟩
  · rintro ⟨⟨hsrcDir, hqtDir, hscopeRoot, hsummaryDir, -⟩, hprefix⟩ w
    cases w with
    | srcDir => exact hsrcDir
    | qtDir => exact hqtDir
    | scopeRoot => exact hscopeRoot
    | summaryDir => exact hsummaryDir
    | scopePrefix => exact hprefix
  · exact ⟨⟨h .srcDir, h .qtDir, h .scopeRoot, h .summaryDir, nofun⟩, h .scopePrefix⟩

theorem given_only_iff {w v : Worded} {t u : String} :
    v.given (w.only t) = some (Bytes.ofString u) ↔ v = w ∧ u = t := by
  constructor
  · intro h
    have hsame : v = w := by
      by_contra hne
      cases v <;> cases w <;> first | exact hne rfl | cases h
    subst hsame
    rw [given_only] at h
    exact ⟨rfl, (Bytes.ofString_injective (Option.some.inj h)).symm⟩
  · rintro ⟨rfl, rfl⟩
    exact v.given_only u

/-- The file layer accepts this text for a setting. -/
def Accepts (w : Worded) (t : String) : Prop :=
  ∃ text s, parse text = .ok s ∧ w.given s = some (Bytes.ofString t)

theorem accepts_iff {w : Worded} {t : String} : w.Accepts t ↔ ¬ w.Refuses t := by
  constructor
  · rintro ⟨text, s, hparse, hgiven⟩
    exact (validate_words.mp (parse_validate hparse)).2 w t hgiven
  · intro h
    have hsome : t ≠ "" := by
      rintro rfl
      exact h w.refuses_empty
    have hcounts : ∀ c ∈ (w.only t).counts, c.2 ≠ some 0 := by
      cases w <;> simp [only, counts, empty]
    have hvalid : (w.only t).validate = .ok () := by
      refine validate_words.mpr ⟨hcounts, fun v u hgiven => ?_⟩
      obtain ⟨rfl, rfl⟩ := given_only_iff.mp hgiven
      exact h
    exact ⟨w.document t, w.only t, w.parse_only hsome hvalid, w.given_only t⟩

theorem given_text {text : String} {s : FileSettings} (h : parse text = .ok s) {w : Worded}
    {raw : Bytes} (hgiven : w.given s = some raw) : ∃ t, raw = Bytes.ofString t := by
  obtain ⟨tree, -, hfits⟩ := parse_fits h
  have hpath {p : Path} (hp : s.settingOf w.sectionName w.key = some (.path p)) :
      ∃ t, p.bytes = Bytes.ofString t := by
    obtain ⟨l, -, -, hsays⟩ := hfits.leaf_behind hp
    cases hvalue : l.value with
    | string t =>
      rw [hvalue] at hsays
      exact ⟨t, congrArg Path.bytes hsays⟩
    | _ =>
      rw [hvalue] at hsays
      exact hsays.elim
  have hdirectory (found : Option Path)
      (hfound : s.settingOf w.sectionName w.key = found.map .path)
      (hraw : found.map (·.bytes) = some raw) : ∃ t, raw = Bytes.ofString t := by
    obtain ⟨p, hp, rfl⟩ := Option.map_eq_some_iff.mp hraw
    exact hpath (hfound.trans (congrArg _ hp))
  cases w with
  | srcDir => exact hdirectory s.binaries.srcDir rfl hgiven
  | qtDir => exact hdirectory s.binaries.qtDir rfl hgiven
  | scopeRoot => exact hdirectory s.scope.root rfl hgiven
  | summaryDir => exact hdirectory s.summary.dir rfl hgiven
  | scopePrefix =>
    obtain ⟨name, -, rfl⟩ := Option.map_eq_some_iff.mp hgiven
    exact ⟨name, rfl⟩

/-- The variable for the same setting; the prefix has none. -/
def counterpart : Worded → Option EnvironmentKey
  | srcDir => some .srcDir
  | qtDir => some .qtDir
  | scopeRoot => some .scopeRoot
  | summaryDir => some .summaryDir
  | scopePrefix => none

theorem refuses_of_counterpart {w : Worded} {key : EnvironmentKey} (h : w.counterpart = some key)
    {t : String} : w.Refuses t ↔ t = "" := by
  cases w with
  | scopePrefix => cases h
  | _ => exact Iff.rfl

/-- The environment refuses blank directories, empty or not. -/
theorem counterpart_accepts_iff {w : Worded} {key : EnvironmentKey} (h : w.counterpart = some key)
    {t : String} :
    EnvironmentSettings.Accepts key (Bytes.ofString t) ↔ ¬ AllBlank t.toList := by
  have hasked : key ∈ EnvironmentSettings.asked ∧ key ≠ .timeoutSeconds := by
    cases w with
    | scopePrefix => cases h
    | _ =>
      cases h
      decide
  rw [EnvironmentSettings.accepts_iff hasked.1, EnvironmentSettings.fits_text_iff hasked.2]

end Worded

def NoneBlank (s : FileSettings) : Prop :=
  ∀ (w : Worded) (t : String), w.given s = some (Bytes.ofString t) → ¬ AllBlank t.toList

theorem noneBlank_iff {text : String} {s : FileSettings} (h : parse text = .ok s) :
    NoneBlank s ↔ ∀ (w : Worded) key raw, w.counterpart = some key → w.given s = some raw →
      EnvironmentSettings.Accepts key raw := by
  constructor
  · intro hnone w key raw hkey hgiven
    obtain ⟨t, rfl⟩ := Worded.given_text h hgiven
    exact (Worded.counterpart_accepts_iff hkey).mpr (hnone w t hgiven)
  · intro haccepts w t hgiven
    cases hkey : w.counterpart with
    | some key => exact (Worded.counterpart_accepts_iff hkey).mp (haccepts w key _ hkey hgiven)
    | none =>
      obtain rfl : w = .scopePrefix := by
        cases w with
        | scopePrefix => rfl
        | _ => cases hkey
      exact (Worded.validate_words.mp (parse_validate h)).2 .scopePrefix t hgiven

/-- A file that is taken sets no directory to the empty text and no prefix to blanks. It sets
nothing to blanks exactly if the environment would accept all its directories: of the texts for a
directory the two layers treat the runs of one or more blanks differently, and no others. -/
theorem blanks_tell_layers_apart (text t : String) :
    (∀ s, parse text = .ok s →
      (∀ w : Worded, w.given s = some (Bytes.ofString t) →
        t ≠ "" ∧ (w = .scopePrefix → ¬ AllBlank t.toList)) ∧
      (NoneBlank s ↔ ∀ (w : Worded) key raw, w.counterpart = some key → w.given s = some raw →
        EnvironmentSettings.Accepts key raw)) ∧
    (Worded.scopePrefix.Accepts t ↔ ¬ AllBlank t.toList) ∧
    ∀ (w : Worded) key, w.counterpart = some key →
      (w.Accepts t ↔ t ≠ "") ∧
      (EnvironmentSettings.Accepts key (Bytes.ofString t) ↔ ¬ AllBlank t.toList) ∧
      ((w.Accepts t ↔ EnvironmentSettings.Accepts key (Bytes.ofString t)) ↔
        (AllBlank t.toList → t = "")) := by
  refine ⟨fun s h => ⟨fun w hgiven => ⟨?_, ?_⟩, noneBlank_iff h⟩, Worded.accepts_iff,
    fun w key hkey => ?_⟩
  · rintro rfl
    exact (Worded.validate_words.mp (parse_validate h)).2 w "" hgiven w.refuses_empty
  · rintro rfl
    exact (Worded.validate_words.mp (parse_validate h)).2 .scopePrefix t hgiven
  · have hfile : w.Accepts t ↔ t ≠ "" := by
      rw [Worded.accepts_iff, Worded.refuses_of_counterpart hkey]
    have henvironment := Worded.counterpart_accepts_iff hkey (t := t)
    refine ⟨hfile, henvironment, ?_⟩
    rw [hfile, henvironment]
    constructor
    · exact fun h hblank => by_contra fun hsome => h.mp hsome hblank
    · rintro h
      refine ⟨fun hsome hblank => hsome (h hblank), ?_⟩
      rintro hvisible rfl
      exact hvisible nofun

/-- A blank source directory is taken from a file and not from the environment. -/
theorem blank_directory_taken :
    ∃ s, parse "[binaries]\nsrc_dir = \" \"\n" = .ok s ∧
      Worded.srcDir.given s = some (Bytes.ofString " ") ∧ ¬ NoneBlank s ∧
      Worded.srcDir.counterpart = some .srcDir ∧
      ¬ (Worded.srcDir.Accepts " " ↔
        EnvironmentSettings.Accepts .srcDir (Bytes.ofString " ")) := by
  have hparse : parse "[binaries]\nsrc_dir = \" \"\n" = .ok (Worded.srcDir.only " ") := by
    decide +kernel
  have hgiven := Worded.srcDir.given_only " "
  have hblank : AllBlank " ".toList := by decide
  have hkey : Worded.srcDir.counterpart = some .srcDir := rfl
  refine ⟨_, hparse, hgiven, fun h => h .srcDir " " hgiven hblank, hkey, fun h => ?_⟩
  exact (Worded.counterpart_accepts_iff hkey).mp (h.mp ⟨_, _, hparse, hgiven⟩) hblank

end FileSettings

end SmokeBench
