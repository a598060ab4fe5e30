import SmokeBench.Proofs.PathStems
import SmokeBench.Proofs.Walks

/-! What becomes of a tree of files when something is made or stored. It changes in one place, where
the path leads. Below a root with nothing but directories and files paths lead along their own
names, so a directory is only ever made on the way to the path that was asked for, and a file only
stored there; the paths that are tried on the way up end at the root and above it, where nothing is
missing. -/

namespace SmokeBench

open Bytes (slash dot)

namespace Machine.FileTree

variable {t t' : FileTree} {cwd l : Location} {last : Bool} {path content : Bytes} {place : Place}
  {e : Entry} {mode : Nat}

section Paths

/-- A path that can be looked up at all. -/
def Askable (path : Bytes) : Prop := path.contains 0 = false ∧ path ≠ [] ∧ path.length < pathLimit

def start (cwd : Location) (path : Bytes) : Location :=
  if path.head? = some slash then [] else cwd

theorem pieces_append (a b : Bytes) : pieces (a ++ slash :: b) = pieces a ++ pieces b :=
  Bytes.splitOn_append_cons slash a b

theorem pieces_eq (p : Path) : pieces p.bytes = p.pieces := Bytes.splitOn_eq slash p.bytes

theorem pieces_ne_nil (b : Bytes) : pieces b ≠ [] := Bytes.splitOn_ne_nil slash b

theorem start_append (a b : Bytes) : start cwd (a ++ slash :: b) = start cwd (a ++ [slash]) := by
  unfold start
  rw [List.head?_append, List.head?_append]
  rfl

theorem start_front {a : Bytes} (ha : a ≠ []) (b : Bytes) : start cwd (a ++ b) = start cwd a := by
  unfold start
  rw [List.head?_append_of_ne_nil _ ha]

theorem resolve_of_askable (h : Askable path) :
    t.resolve cwd last path = t.walk last linkLimit (start cwd path) (pieces path) := by
  obtain ⟨hnul, hempty, hlong⟩ := h
  unfold resolve
  rw [if_neg (by rw [hnul]; decide), if_neg (by simpa using hempty), if_neg (Nat.not_le.mpr hlong)]
  rfl

theorem askable_of_resolve (h : t.resolve cwd last path = .ok place) : Askable path := by
  unfold resolve at h
  by_cases hnul : path.contains 0 = true
  · rw [if_pos hnul] at h
    cases h
  by_cases hempty : path.isEmpty = true
  · rw [if_neg hnul, if_pos hempty] at h
    cases h
  by_cases hlong : pathLimit ≤ path.length
  · rw [if_neg hnul, if_neg hempty, if_pos hlong] at h
    cases h
  exact ⟨by simpa using hnul, by simpa using hempty, Nat.not_le.mp hlong⟩

theorem resolve_ok_iff : t.resolve cwd last path = .ok place ↔
    Askable path ∧ Walks t last linkLimit (start cwd path) (pieces path) place := by
  rw [← walk_ok_iff]
  constructor
  · intro h
    have hask := askable_of_resolve h
    exact ⟨hask, by rwa [← resolve_of_askable hask]⟩
  · rintro ⟨hask, hwalk⟩
    rwa [resolve_of_askable hask]

theorem lookUp_ok_iff :
    t.lookUp cwd last path = .ok (l, e) ↔ t.resolve cwd last path = .ok (.found l e) := by
  unfold lookUp
  split <;> simp_all

/-- Where a path led to in a tree, it leads to in any tree that has kept the way. -/
theorem lookUp_kept (h : t.resolve cwd last path = .ok place) (hkeeps : t.Keeps t')
    (hgoal : t'.at? place.goal = some e) (hplain : ∀ target, e ≠ .link target)
    (hdir : ∀ dir name, place = .absent dir name true → ∃ mode, e = .directory mode) :
    t'.lookUp cwd true path = .ok (place.goal, e) := by
  obtain ⟨hask, hwalk⟩ := resolve_ok_iff.mp h
  exact lookUp_ok_iff.mpr (resolve_ok_iff.mpr ⟨hask, hwalk.kept hkeeps hgoal hplain hdir⟩)

theorem ne_nil_of_at? (h : t.at? l = none) : l ≠ [] := by
  rintro rfl
  cases h

theorem lookUp_of_metadata {m : Metadata} (h : t.metadata cwd path = .ok m)
    (hkind : m.kind = .directory) :
    ∃ l mode, t.lookUp cwd true path = .ok (l, .directory mode) := by
  unfold metadata at h
  cases hfound : t.lookUp cwd true path with
  | error e =>
    rw [hfound] at h
    cases h
  | ok found =>
    obtain ⟨l, e⟩ := found
    rw [hfound] at h
    obtain rfl : metadataOf e = m := Except.ok.inj h
    cases e with
    | directory mode => exact ⟨l, mode, rfl⟩
    | _ => cases hkind

end Paths

section Changes

theorem makeDir_ok (h : t.makeDir cwd path mode = .ok t') : ∃ dir name b,
    t.resolve cwd false path = .ok (.absent dir name b) ∧
      t' = t.put (dir ++ [name]) (.directory mode) := by
  unfold makeDir at h
  split at h
  · cases h
  · cases h
  · rename_i dir name b hresolve
    exact ⟨dir, name, b, hresolve, (Except.ok.inj h).symm⟩

theorem lookUp_of_makeDir (h : t.makeDir cwd path mode = .ok t') :
    ∃ l, t'.lookUp cwd true path = .ok (l, .directory mode) := by
  obtain ⟨dir, name, b, hresolve, rfl⟩ := makeDir_ok h
  have hnone := (resolve_ok_iff.mp hresolve).2.none
  have hne := ne_nil_of_at? hnone
  refine ⟨dir ++ [name], lookUp_kept hresolve (keeps_put hne ?_) ?_ (by simp)
    fun _ _ _ => ⟨mode, rfl⟩⟩
  · rw [hnone]
    simp
  · rw [Place.goal, at?_put hne, if_pos rfl]

/-- A file has this content now, and nothing else has changed. If there was one before, it is still
that file, and else it has the next number. -/
structure Written (t t' : FileTree) (l : Location) (content : Bytes) : Prop where
  file : ∃ serial mode, t'.at? l = some (.file serial mode content) ∧
    (t.at? l = none ∧ serial = t.nextSerial ∧ serial < t'.nextSerial ∨
      ∃ old, t.at? l = some (.file serial mode old))
  others : ∀ l', l' ≠ l → t'.at? l' = t.at? l'
  later : t.nextSerial ≤ t'.nextSerial

theorem Written.keeps (h : t.Written t' l content) : t.Keeps t' := by
  intro l' e there hway
  rw [h.others, there]
  rintro rfl
  obtain ⟨serial, mode, -, ⟨hnone, -⟩ | ⟨old, hold⟩⟩ := h.file
  · rw [hnone] at there
    cases there
  · rw [hold] at there
    cases there
    rcases hway with ⟨_, hway⟩ | ⟨_, hway⟩ <;> cases hway

theorem Written.not_dir (h : t.Written t' l content) : t.at? l ≠ some (.directory mode) := by
  intro hdir
  obtain ⟨serial, mode', -, ⟨hnone, -⟩ | ⟨old, hold⟩⟩ := h.file
  · rw [hnone] at hdir
    cases hdir
  · rw [hold] at hdir
    cases hdir

theorem nextSerial_put : (t.put l e).nextSerial = t.nextSerial := by
  unfold put
  split <;> rfl

theorem store_ok (h : t.store cwd path content = .ok t') : ∃ place,
    t.resolve cwd true path = .ok place ∧ ((∃ l kind, place = .found l (.device kind)) ∨
      t.Written t' place.goal content ∧ ∀ dir name, place ≠ .absent dir name true) := by
  unfold store openForWriting at h
  cases hresolve : t.resolve cwd true path with
  | error e =>
    rw [hresolve] at h
    cases h
  | ok place =>
    refine ⟨place, rfl, ?_⟩
    rw [hresolve] at h
    have hwalk := (resolve_ok_iff.mp hresolve).2
    cases place with
    | absent dir name b =>
      cases b with
      | true => cases h
      | false =>
        have hnone := hwalk.none
        have hne := ne_nil_of_at? hnone
        have hopened (n : Nat) : FileTree.at?
            { t.put (dir ++ [name]) (.file t.nextSerial fileMode []) with nextSerial := n }
            (dir ++ [name]) = some (.file t.nextSerial fileMode []) := by
          change (t.put _ _).at? _ = _
          rw [at?_put hne, if_pos rfl]
        dsimp only at h
        rw [if_neg Bool.false_ne_true] at h
        dsimp only at h
        rw [hopened] at h
        cases h
        refine .inr ⟨⟨⟨t.nextSerial, fileMode, ?_, .inl ⟨hnone, rfl, ?_⟩⟩, fun l' hl' => ?_, ?_⟩,
          by simp⟩
        · rw [Place.goal, at?_put hne, if_pos rfl]
        · rw [nextSerial_put]
          exact Nat.lt_succ_self _
        · rw [Place.goal] at hl'
          rw [at?_put hne, if_neg hl']
          change (t.put _ _).at? _ = _
          rw [at?_put hne, if_neg hl']
        · rw [nextSerial_put]
          exact Nat.le_succ _
    | found l e =>
      have hthere := hwalk.there
      cases e with
      | device kind => exact .inl ⟨l, kind, rfl⟩
      | file serial mode old =>
        have hne : l ≠ [] := by
          rintro rfl
          cases hthere
        dsimp only at h
        rw [if_pos rfl, at?_put hne, if_pos rfl] at h
        cases h
        refine .inr ⟨⟨⟨serial, mode, ?_, .inr ⟨old, hthere⟩⟩, fun l' hl' => ?_, ?_⟩, by simp⟩
        · rw [Place.goal, at?_put hne, if_pos rfl]
        · rw [Place.goal] at hl'
          rw [at?_put hne, if_neg hl', at?_put hne, if_neg hl']
        · exact Nat.le_of_eq (nextSerial_put.trans nextSerial_put).symm
      | _ => cases h

theorem lookUp_of_written (h : t.resolve cwd true path = .ok place)
    (hwritten : t.Written t' place.goal content)
    (hplace : ∀ dir name, place ≠ .absent dir name true) :
    ∃ serial mode, t'.lookUp cwd true path = .ok (place.goal, .file serial mode content) := by
  obtain ⟨serial, mode, hfile, -⟩ := hwritten.file
  exact ⟨serial, mode, lookUp_kept h hwritten.keeps hfile (by simp) fun dir name heq =>
    absurd heq (hplace dir name)⟩

/-- A file that has another name as well. -/
def Shared (t : FileTree) (l : Location) : Prop :=
  ∃ serial mode content, t.at? l = some (.file serial mode content) ∧
    ∃ l' mode' content', l' ≠ l ∧ t.at? l' = some (.file serial mode' content')

def Numbered (t : FileTree) : Prop :=
  ∀ l serial mode content, t.at? l = some (.file serial mode content) → serial < t.nextSerial

theorem Numbered.put_directory (h : t.Numbered) (hl : l ≠ []) :
    (t.put l (.directory mode)).Numbered := by
  intro l' serial mode' content hfile
  rw [nextSerial_put]
  rw [at?_put hl] at hfile
  split at hfile
  · cases hfile
  · exact h l' serial mode' content hfile

theorem Written.before (h : t.Written t' l content) {serial : Nat} {l' : Location}
    {content' : Bytes} (hfile : t'.at? l' = some (.file serial mode content')) :
    (∃ mode old, t.at? l' = some (.file serial mode old)) ∨ l' = l ∧ serial = t.nextSerial := by
  by_cases heq : l' = l
  · obtain ⟨serial', mode', hnew, hold⟩ := h.file
    rw [heq, hnew] at hfile
    cases hfile
    rcases hold with ⟨-, hserial, -⟩ | ⟨old, hold⟩
    · exact .inr ⟨heq, hserial⟩
    · exact .inl ⟨mode, old, heq ▸ hold⟩
  · rw [h.others l' heq] at hfile
    exact .inl ⟨mode, content', hfile⟩

theorem Written.shared (h : t.Written t' l content) (hnumbered : t.Numbered) {l' : Location}
    (hshared : t'.Shared l') : t.Shared l' := by
  obtain ⟨serial, mode₁, content₁, h₁, l₂, mode₂, content₂, hne, h₂⟩ := hshared
  -- the new file has a number that no other one has
  rcases h.before h₁ with ⟨mode₁, old₁, h₁⟩ | ⟨rfl, rfl⟩ <;>
    rcases h.before h₂ with ⟨mode₂, old₂, h₂⟩ | ⟨rfl, hserial⟩
  · exact ⟨serial, mode₁, old₁, h₁, l₂, mode₂, old₂, hne, h₂⟩
  · exact absurd (hnumbered _ _ _ _ h₁) (hserial ▸ Nat.lt_irrefl _)
  · exact absurd (hnumbered _ _ _ _ h₂) (Nat.lt_irrefl _)
  · exact absurd rfl hne

theorem Written.numbered (h : t.Written t' l content) (hnumbered : t.Numbered) : t'.Numbered := by
  intro l' serial mode content' hfile
  rcases h.before hfile with ⟨mode', old, hold⟩ | ⟨rfl, -⟩
  · exact Nat.lt_of_lt_of_le (hnumbered l' _ _ _ hold) h.later
  · obtain ⟨serial', mode', hnew, ⟨-, -, hlt⟩ | ⟨old, hold⟩⟩ := h.file
    · rw [hnew] at hfile
      cases hfile
      exact hlt
    · rw [hnew] at hfile
      cases hfile
      exact Nat.lt_of_lt_of_le (hnumbered _ _ _ _ hold) h.later

end Changes

section Below

variable {top : Location} {root p : Path} {names : List Bytes}

/-- The path leads to a directory that has only directories and regular files below it, none of them
under a second name. -/
structure Housed (t : FileTree) (cwd : Location) (root : Path) (top : Location) : Prop where
  found : ∃ mode, t.lookUp cwd true root.bytes = .ok (top, .directory mode)
  plain : ∀ l e, Below top l → t.at? l = some e → Plain e
  sole : ∀ l, Below top l → ¬ t.Shared l

namespace Housed

variable (h : t.Housed cwd root top)
include h

theorem bytes_ne_nil : root.bytes ≠ [] := by
  obtain ⟨mode, hfound⟩ := h.found
  exact (askable_of_resolve (lookUp_ok_iff.mp hfound)).2.1

theorem stem_found : ∃ mode, Walks t true linkLimit (start cwd (root.stem ++ [slash]))
    (pieces root.stem) (.found top (.directory mode)) := by
  obtain ⟨mode, hfound⟩ := h.found
  have hwalk := (resolve_ok_iff.mp (lookUp_ok_iff.mp hfound)).2
  refine ⟨mode, ?_⟩
  rcases root.bytes_stem with hstem | hstem
  · rw [← hstem, start_front h.bytes_ne_nil]
    exact hwalk
  · rw [hstem, pieces_append] at hwalk
    obtain ⟨l, mode', hfront⟩ := hwalk.through (pieces_ne_nil [])
    cases hwalk.unique hfront.trail
    exact hfront

/-- A path that goes on from the root leads along its own names, through directories. -/
theorem lands {more : Path}
    (hresolve : t.resolve cwd last (root.stem ++ slash :: more.bytes) = .ok place) (hup : [dot, dot] ∉ more.pieces) :
    place.goal = top ++ more.pieces.filter (· ∉ Path.signs) ∧
      ∀ ns, ns <+: more.pieces.filter (· ∉ Path.signs) →
        ns ≠ more.pieces.filter (· ∉ Path.signs) →
          ∃ mode, t.at? (top ++ ns) = some (.directory mode) := by
  obtain ⟨mode, hstem⟩ := h.stem_found
  obtain ⟨links', hbeyond⟩ := hstem.beyond
  have hwalk := (resolve_ok_iff.mp hresolve).2
  rw [pieces_append, start_append, ← walk_ok_iff, hbeyond _ _ (pieces_ne_nil _), walk_ok_iff,
    pieces_eq] at hwalk
  exact hwalk.plain h.plain hup

theorem bytes_join {relative : Path} (hplain : ¬ relative.Strays) :
    (root.join relative).bytes = root.stem ++ slash :: relative.bytes :=
  Path.bytes_join h.bytes_ne_nil (Bool.eq_false_iff.mpr fun habs => hplain (.inl habs))

theorem lands_join {relative : Path} (hplain : ¬ relative.Strays)
    (hresolve : t.resolve cwd last (root.join relative).bytes = .ok place) :
    place.goal = top ++ relative.names ∧ ∀ ns, ns <+: relative.names → ns ≠ relative.names →
      ∃ mode, t.at? (top ++ ns) = some (.directory mode) := by
  rw [h.bytes_join hplain] at hresolve
  rw [Path.names_of_not_strays hplain]
  exact h.lands hresolve fun hup => hplain (.inr hup)

theorem front_found {more : Bytes} (hne : p.bytes ≠ [])
    (hmore : root.stem ++ [slash] = p.bytes ++ slash :: more) :
    ∃ l mode, Walks t true linkLimit (start cwd p.bytes) (pieces p.bytes)
      (.found l (.directory mode)) := by
  obtain ⟨mode, hstem⟩ := h.stem_found
  have hwhole := hstem.trail
  rw [show [[]] = pieces [] from rfl, ← pieces_append, hmore, pieces_append,
    start_front hne] at hwhole
  exact hwhole.through (pieces_ne_nil more)

/-- A directory is only made below the root, on the way along the names. -/
theorem makes (hp : root.Reaches names p) (hmade : t.makeDir cwd p.bytes mode = .ok t') :
    ∃ ns, ns ≠ [] ∧ ns <+: names ∧ t.at? (top ++ ns) = none ∧
      t' = t.put (top ++ ns) (.directory mode) := by
  obtain ⟨dir, name, b, hresolve, rfl⟩ := makeDir_ok hmade
  obtain ⟨⟨-, hne, -⟩, hwalk⟩ := resolve_ok_iff.mp hresolve
  -- where there is something nothing is made
  have hsolid {l : Location} {e : Entry} (hfound : Walks t true linkLimit (start cwd p.bytes)
      (pieces p.bytes) (.found l e)) : False := by
    cases hfound.unique hwalk.follows
  rcases hp with hempty | hslash | ⟨more, hmore⟩ | ⟨more, hbytes, hup, hnames⟩
  · exact absurd hempty hne
  · rw [hslash, show start cwd [slash] = [] from if_pos rfl] at hsolid
    exact (hsolid (walks_idle rfl (by decide))).elim
  · obtain ⟨l, mode', hfound⟩ := h.front_found hne hmore
    exact (hsolid hfound).elim
  · rw [hbytes] at hresolve
    obtain ⟨hgoal, -⟩ := h.lands hresolve hup
    rw [Place.goal] at hgoal
    have hnone := hwalk.none
    rw [hgoal] at hnone ⊢
    refine ⟨_, ?_, hnames, hnone, rfl⟩
    rintro hnil
    obtain ⟨mode', hstem⟩ := h.stem_found
    rw [hnil, List.append_nil, hstem.there] at hnone
    cases hnone

theorem put_directory {ns : List Bytes} (hnone : t.at? (top ++ ns) = none) :
    (t.put (top ++ ns) (.directory mode)).Housed cwd root top where
  found := by
    obtain ⟨mode', hfound⟩ := h.found
    have hresolve := lookUp_ok_iff.mp hfound
    have hkeeps : t.Keeps (t.put (top ++ ns) (.directory mode)) :=
      keeps_put (ne_nil_of_at? hnone) fun e he => by rw [hnone] at he; cases he
    have htop := (resolve_ok_iff.mp hresolve).2.there
    exact ⟨mode', lookUp_kept hresolve hkeeps (hkeeps.dir htop) (by simp) (by simp)⟩
  plain l e hl hthere := by
    rw [at?_put (ne_nil_of_at? hnone)] at hthere
    split at hthere
    · cases hthere
      trivial
    · exact h.plain l e hl hthere
  sole l hl := by
    rintro ⟨serial, mode', content, hthere, l', mode'', content', hne, hthere'⟩
    rw [at?_put (ne_nil_of_at? hnone)] at hthere hthere'
    split at hthere
    · cases hthere
    split at hthere'
    · cases hthere'
    exact h.sole l hl ⟨serial, mode', content, hthere, l', mode'', content', hne, hthere'⟩

theorem written {ns : List Bytes} (hnumbered : t.Numbered)
    (hwritten : t.Written t' (top ++ ns) content) : t'.Housed cwd root top where
  found := by
    obtain ⟨mode', hfound⟩ := h.found
    have hresolve := lookUp_ok_iff.mp hfound
    have htop := (resolve_ok_iff.mp hresolve).2.there
    exact ⟨mode', lookUp_kept hresolve hwritten.keeps (hwritten.keeps.dir htop) (by simp) (by simp)⟩
  plain l e hl hthere := by
    by_cases heq : l = top ++ ns
    · obtain ⟨serial, mode', hfile, -⟩ := hwritten.file
      rw [heq, hfile] at hthere
      cases hthere
      trivial
    · rw [hwritten.others l heq] at hthere
      exact h.plain l e hl hthere
  sole l hl hshared := h.sole l hl (hwritten.shared hnumbered hshared)

theorem top_dir : ∃ mode, t.at? top = some (.directory mode) := by
  obtain ⟨mode, hstem⟩ := h.stem_found
  exact ⟨mode, hstem.there⟩

theorem not_device (ns : List Bytes) {kind : Machine.Device} :
    t.at? (top ++ ns) ≠ some (.device kind) := by
  intro hdevice
  by_cases hns : ns = []
  · rw [hns, List.append_nil] at hdevice
    obtain ⟨mode', hdir⟩ := h.top_dir
    rw [hdir] at hdevice
    cases hdevice
  · exact h.plain _ _ ⟨ns, hns, rfl⟩ hdevice

theorem not_shared {relative : Path} (hplain : ¬ relative.Strays)
    (hfound : t.lookUp cwd last (root.join relative).bytes = .ok (l, e)) : ¬ t.Shared l := by
  obtain ⟨hgoal, -⟩ := h.lands_join hplain (lookUp_ok_iff.mp hfound)
  rw [Place.goal] at hgoal
  subst hgoal
  by_cases hns : relative.names = []
  · rw [hns, List.append_nil]
    rintro ⟨serial, mode, content, hfile, -⟩
    obtain ⟨mode', hdir⟩ := h.top_dir
    rw [hdir] at hfile
    cases hfile
  · exact h.sole _ ⟨_, hns, rfl⟩

theorem stores {relative : Path} (hplain : ¬ relative.Strays)
    (hstored : t.store cwd (root.join relative).bytes content = .ok t') :
    relative.names ≠ [] ∧ t.Written t' (top ++ relative.names) content ∧
      (∃ serial mode, t'.lookUp cwd true (root.join relative).bytes =
        .ok (top ++ relative.names, .file serial mode content)) ∧
      ∀ ns, ns <+: relative.names → ns ≠ relative.names →
        ∃ mode, t'.at? (top ++ ns) = some (.directory mode) := by
  obtain ⟨place, hresolve, hstored⟩ := store_ok hstored
  obtain ⟨hgoal, hway⟩ := h.lands_join hplain hresolve
  rcases hstored with ⟨l, kind, rfl⟩ | ⟨hwritten, hplace⟩
  · have hdevice := (resolve_ok_iff.mp hresolve).2.there
    rw [Place.goal] at hgoal
    rw [hgoal] at hdevice
    exact absurd hdevice (h.not_device _)
  · have hfound := lookUp_of_written hresolve hwritten hplace
    rw [hgoal] at hwritten hfound
    refine ⟨fun hnil => ?_, hwritten, hfound, fun ns hns hne => ?_⟩
    · rw [hnil, List.append_nil] at hwritten
      obtain ⟨mode, hdir⟩ := h.top_dir
      exact hwritten.not_dir hdir
    · obtain ⟨mode, hdir⟩ := hway ns hns hne
      exact ⟨mode, hwritten.keeps.dir hdir⟩

end Housed

/-- Directories were made along the names below a location, and nothing else has changed. -/
structure Dug (t t' : FileTree) (top : Location) (names : List Bytes) : Prop where
  kept : ∀ l e, t.at? l = some e → t'.at? l = some e
  made : ∀ l, t.at? l = none → t'.at? l = none ∨
    ∃ ns mode, ns ≠ [] ∧ ns <+: names ∧ l = top ++ ns ∧ t'.at? l = some (.directory mode)

theorem at?_outside (hkept : ∀ e, t.at? l = some e → t'.at? l = some e)
    (hmade : t.at? l = none → t'.at? l = none ∨
      ∃ ns mode, ns ≠ [] ∧ ns <+: names ∧ l = top ++ ns ∧ t'.at? l = some (.directory mode))
    (hl : ¬ Below top l) : t'.at? l = t.at? l := by
  cases hthere : t.at? l with
  | some e => exact hkept e hthere
  | none =>
    rcases hmade hthere with hnone | ⟨ns, mode, hns, -, rfl, -⟩
    · exact hnone
    · exact absurd ⟨ns, hns, rfl⟩ hl

namespace Dug

theorem refl (t : FileTree) (top : Location) (names : List Bytes) : t.Dug t top names :=
  ⟨fun _ _ h => h, fun _ h => .inl h⟩

theorem put {ns : List Bytes} (h : t.Dug t' top names) (hns : ns ≠ []) (hnames : ns <+: names)
    (hnone : t'.at? (top ++ ns) = none) :
    t.Dug (t'.put (top ++ ns) (.directory mode)) top names where
  kept l e hthere := by
    have hthere' := h.kept l e hthere
    rw [at?_put (ne_nil_of_at? hnone), if_neg, hthere']
    rintro rfl
    rw [hnone] at hthere'
    cases hthere'
  made l hl := by
    rw [at?_put (ne_nil_of_at? hnone)]
    split_ifs with heq
    · exact .inr ⟨ns, mode, hns, hnames, heq, rfl⟩
    · exact h.made l hl

theorem outside (h : t.Dug t' top names) (hl : ¬ Below top l) : t'.at? l = t.at? l :=
  at?_outside (h.kept l) (h.made l) hl

theorem mono {names' : List Bytes} (h : t.Dug t' top names) (hnames : names <+: names') :
    t.Dug t' top names' where
  kept := h.kept
  made l hl := (h.made l hl).imp_right fun ⟨ns, mode, hns, hmore, heq, hdir⟩ =>
    ⟨ns, mode, hns, hmore.trans hnames, heq, hdir⟩

/-- The last of the names is not touched while only the way to it is made. -/
theorem at_last (h : t.Dug t' top names.dropLast) :
    t'.at? (top ++ names) = t.at? (top ++ names) := by
  cases hthere : t.at? (top ++ names) with
  | some e => exact h.kept _ e hthere
  | none =>
    rcases h.made _ hthere with hnone | ⟨ns, mode, hns, hmore, heq, -⟩
    · exact hnone
    · obtain rfl := List.append_cancel_left heq
      have hlength := hmore.length_le
      rw [List.length_dropLast] at hlength
      exact absurd (List.eq_nil_of_length_eq_zero (by omega)) hns

end Dug

/-- Directories were made along the names below a location, and at the last name a file was made or
given new content, which is the front of this one at least. Nothing else has changed. -/
structure Laid (t t' : FileTree) (top : Location) (names : List Bytes) (content : Bytes) :
    Prop where
  kept : ∀ l e, l ≠ top ++ names → t.at? l = some e → t'.at? l = some e
  made : ∀ l, l ≠ top ++ names → t.at? l = none → t'.at? l = none ∨
    ∃ ns mode, ns ≠ [] ∧ ns <+: names ∧ l = top ++ ns ∧ t'.at? l = some (.directory mode)
  file : t'.at? (top ++ names) = t.at? (top ++ names) ∨
    names ≠ [] ∧ ∃ serial mode part, part <+: content ∧
      t'.at? (top ++ names) = some (.file serial mode part) ∧
      (t.at? (top ++ names) = none ∨ ∃ old, t.at? (top ++ names) = some (.file serial mode old))

theorem Dug.laid (h : t.Dug t' top names.dropLast) :
    t.Laid t' top names content where
  kept l e _ := h.kept l e
  made l _ := (h.mono (List.dropLast_prefix _)).made l
  file := .inl h.at_last

theorem Dug.written {part : Bytes} {t'' : FileTree} (h : t.Dug t' top names.dropLast)
    (hwritten : t'.Written t'' (top ++ names) part) (hnames : names ≠ [])
    (hpart : part <+: content) : t.Laid t'' top names content where
  kept l e hl hthere := (hwritten.others l hl).trans (h.kept l e hthere)
  made l hl hnone := by
    rw [hwritten.others l hl]
    exact (h.mono (List.dropLast_prefix _)).made l hnone
  file := by
    obtain ⟨serial, mode, hfile, hold⟩ := hwritten.file
    rw [h.at_last] at hold
    exact .inr ⟨hnames, serial, mode, part, hpart, hfile, hold.imp_left And.left⟩

theorem Laid.outside (h : t.Laid t' top names content) (hl : ¬ Below top l) :
    t'.at? l = t.at? l := by
  by_cases hlast : l = top ++ names
  · subst hlast
    rcases h.file with hsame | ⟨hnames, -⟩
    · exact hsame
    · exact absurd ⟨names, hnames, rfl⟩ hl
  · exact at?_outside (fun e => h.kept l e hlast) (h.made l hlast) hl

end Below

end Machine.FileTree

end SmokeBench
