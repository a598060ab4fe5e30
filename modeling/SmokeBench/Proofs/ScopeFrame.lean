import SmokeBench.Machine.Image
import SmokeBench.Proofs.Disks

/-! What filling a scope leaves alone. The requests that make a directory for a path, or the way to
a file, change nothing but to make directories along the names of the path, and a file is stored at
the last of them. It is the same for every disk, however much of it fails. -/

namespace SmokeBench

open Bytes (slash dot)
open Machine (FileTree Location Entry)
open Machine.FileTree
open Dialogue

namespace Disk

variable {σ : Type} {host : Host σ} (disk : Disk host) {root p : Path} {top : Location}
  {names : List Bytes} {s₀ s : σ}

/-- Since a state the root has stayed what it was, and nothing was done but to make directories
along the names. -/
structure Digs (root : Path) (top : Location) (names : List Bytes) (s₀ s : σ) : Prop where
  housed : (disk.tree s).Housed (disk.cwd s) root top
  dug : (disk.tree s₀).Dug (disk.tree s) top names
  numbered : (disk.tree s₀).Numbered → (disk.tree s).Numbered

section Digs

variable {disk}

theorem Digs.refl (h : (disk.tree s).Housed (disk.cwd s) root top) :
    disk.Digs root top names s s :=
  ⟨h, .refl _ _ _, id⟩

theorem Digs.same {s' : σ} (h : disk.Digs root top names s₀ s) (htree : disk.tree s' = disk.tree s)
    (hcwd : disk.cwd s' = disk.cwd s) : disk.Digs root top names s₀ s' where
  housed := by
    rw [htree, hcwd]
    exact h.housed
  dug := htree ▸ h.dug
  numbered := htree ▸ h.numbered

theorem Digs.metadata (h : disk.Digs root top names s₀ s) (p : Path) :
    disk.Digs root top names s₀ (host.answer (.metadata p) s).2 :=
  h.same (disk.looked p s) (disk.rests (.metadata p) s rfl)

theorem Digs.notMade (h : disk.Digs root top names s₀ s) {e : IoError}
    (he : (host.answer (.makeDir p) s).1 = .error e) :
    disk.Digs root top names s₀ (host.answer (.makeDir p) s).2 :=
  h.same (disk.notMade p s e he) (disk.rests (.makeDir p) s rfl)

theorem Digs.makeDir (h : disk.Digs root top names s₀ s) (hp : root.Reaches names p) :
    disk.Digs root top names s₀ (host.answer (.makeDir p) s).2 := by
  cases hreply : (host.answer (.makeDir p) s).1 with
  | error e => exact h.notMade hreply
  | ok _ =>
    obtain ⟨mode, hmade⟩ := disk.made p s hreply
    obtain ⟨ns, hns, hnames, hnone, htree⟩ := h.housed.makes hp hmade
    exact {
      housed := by
        rw [htree, disk.rests (.makeDir p) s rfl]
        exact h.housed.put_directory hnone
      dug := by
        rw [htree]
        exact h.dug.put hns hnames hnone
      numbered := fun hnumbered => by
        rw [htree]
        exact (h.numbered hnumbered).put_directory (ne_nil_of_at? hnone) }

theorem Digs.makeDirsWithin (h : disk.Digs root top names s₀ s)
    (hp : ∀ q, p.ClimbsTo q → root.Reaches names q) (depth : Nat) :
    disk.Digs root top names s₀ ((makeDirsWithin depth p).run host s).2 := by
  refine (makeDirsWithin_digs depth .here).invariant (I := disk.Digs root top names s₀) ?_ h
  rintro r s' ⟨q, hq, rfl | rfl⟩ hdigs
  · exact hdigs.makeDir (hp q hq)
  · exact hdigs.metadata q

/-- A path that could not be made has not been touched, only those above it. -/
theorem Digs.makeDirs_error (h : disk.Digs root top names s₀ s)
    (hup : ∀ above, p.parent = some above → ∀ q, above.ClimbsTo q → root.Reaches names q) {s' : σ}
    {e : IoError} (hrun : (makeDirs p).run host s = (.error e, s')) :
    disk.Digs root top names s₀ s' := by
  have htried {s s' : σ} {e e' : IoError} (h : disk.Digs root top names s₀ s)
      (hrun : ((do return if ← isDirectory p then .ok () else .error e' :
        Dialogue (Except IoError Unit)).run host s) = (.error e, s')) :
      disk.Digs root top names s₀ s' := by
    rw [run_bind, run_pure, Prod.mk.injEq] at hrun
    obtain ⟨-, rfl⟩ := hrun
    unfold isDirectory
    rw [run_bind, run_ask]
    split <;> exact h.metadata p
  -- the path itself is tried twice, in vain both times, and in between what is above it is made
  unfold makeDirs SmokeBench.makeDirsWithin at hrun
  split at hrun
  · cases hrun
  · rw [run_bind, run_ask] at hrun
    split at hrun
    · cases hrun
    · rename_i hreply
      have hagain := h.notMade hreply
      split at hrun
      · rename_i depth above hdepth habove
        have hmade := hagain.makeDirsWithin (hup above habove) depth
        rw [run_bind] at hrun
        split at hrun
        · cases hrun
          exact hmade
        · rw [run_bind, run_ask] at hrun
          split at hrun
          · cases hrun
          · rename_i hreply'
            exact htried (hmade.notMade hreply') hrun
      · cases hrun
        exact hagain
    · rename_i hreply
      exact htried (h.notMade hreply) hrun

end Digs

end Disk

namespace Scope

variable {σ : Type} {host : Host σ} (disk : Disk host) (scope : Scope) (top : Location)
  (relative : Path)

/-- What making a directory below a root comes to: directories along the names of the path, where
nothing was, and in the end all of them. -/
structure MakesDir (s : σ) (reply : Except ScopeError Path) (s' : σ) : Prop where
  outside : ∀ l, ¬ Below top l → (disk.tree s').at? l = (disk.tree s).at? l
  dug : (disk.tree s).Dug (disk.tree s') top relative.names
  escaped : ∀ p, reply = .error (.escape p) → s' = s
  failed : ∀ e, reply = .error e → (e = .escape relative ∨ ∃ p cause, e = .prepare p cause) ∧
    (disk.tree s).Dug (disk.tree s') top relative.names.dropLast
  done : ∀ p, reply = .ok p → p = scope.root.join relative ∧
    (∃ mode, (disk.tree s').lookUp (disk.cwd s') true p.bytes =
      .ok (top ++ relative.names, .directory mode)) ∧
    ∀ ns, ns <+: relative.names → ∃ mode, (disk.tree s').at? (top ++ ns) = some (.directory mode)

/-- What storing a file below a root comes to: directories along the names that lead to it, where
nothing was, and at the last name the file or, if that failed, no more than the front of it. -/
structure StoresFile (content : Bytes) (s : σ) (reply : Except ScopeError Path) (s' : σ) :
    Prop where
  outside : ∀ l, ¬ Below top l → (disk.tree s').at? l = (disk.tree s).at? l
  laid : (disk.tree s).Laid (disk.tree s') top relative.names content
  escaped : ∀ p, reply = .error (.escape p) → s' = s
  failed : ∀ e, reply = .error e → e = .escape relative ∨ ∃ p cause, e = .prepare p cause
  done : ∀ p, reply = .ok p → p = scope.root.join relative ∧
    (∃ serial mode, (disk.tree s').lookUp (disk.cwd s') true p.bytes =
      .ok (top ++ relative.names, .file serial mode content)) ∧
    ∀ ns, ns <+: relative.names → ns ≠ relative.names →
      ∃ mode, (disk.tree s').at? (top ++ ns) = some (.directory mode)

variable {disk scope top relative} {s s' : σ} {content : Bytes}

theorem MakesDir.refused : scope.MakesDir disk top relative s (.error (.escape relative)) s where
  outside _ _ := rfl
  dug := .refl _ _ _
  escaped _ _ := rfl
  failed _ he := ⟨.inl (Except.error.inj he).symm, .refl _ _ _⟩
  done _ h := nomatch h

theorem MakesDir.prepared (hdug : (disk.tree s).Dug (disk.tree s') top relative.names.dropLast)
    (p : Path) (cause : IoError) :
    scope.MakesDir disk top relative s (.error (.prepare p cause)) s' where
  outside _ := hdug.outside
  dug := hdug.mono (List.dropLast_prefix _)
  escaped _ he := nomatch he
  failed _ he := ⟨.inr ⟨p, cause, (Except.error.inj he).symm⟩, hdug⟩
  done _ h := nomatch h

theorem StoresFile.refused :
    scope.StoresFile disk top relative content s (.error (.escape relative)) s where
  outside _ _ := rfl
  laid := Dug.laid (.refl _ _ _)
  escaped _ _ := rfl
  failed _ he := .inl (Except.error.inj he).symm
  done _ h := nomatch h

theorem StoresFile.prepared
    (hlaid : (disk.tree s).Laid (disk.tree s') top relative.names content) (p : Path)
    (cause : IoError) :
    scope.StoresFile disk top relative content s (.error (.prepare p cause)) s' where
  outside _ := hlaid.outside
  laid := hlaid
  escaped _ he := nomatch he
  failed _ he := .inr ⟨p, cause, (Except.error.inj he).symm⟩
  done _ h := nomatch h

theorem makeParent_error {p : Path} {e : ScopeError}
    (h : ((makeParent p).run host s).1 = .error e) : ∃ p cause, e = .prepare p cause := by
  unfold makeParent at h
  split at h
  · cases h
  · rw [run_bind] at h
    split at h
    · cases h
    · exact ⟨_, _, (Except.error.inj h).symm⟩

section Plain

variable (h : (disk.tree s).Housed (disk.cwd s) scope.root top) (hplain : ¬ relative.Strays)
include h hplain

theorem reaches_target {q : Path} (hq : (scope.root.join relative).ClimbsTo q) :
    scope.root.Reaches relative.names q := by
  rcases hq.fronts with rfl | hfronts
  · exact Path.reaches_join h.bytes_ne_nil hplain
  · exact (Path.reaches_of_fronts h.bytes_ne_nil hplain hfronts).mono (List.dropLast_prefix _)

theorem reaches_parent {above q : Path} (hup : (scope.root.join relative).parent = some above)
    (hq : above.ClimbsTo q) : scope.root.Reaches relative.names.dropLast q :=
  Path.reaches_of_fronts h.bytes_ne_nil hplain ((Path.fronts_parent hup).climb hq)

theorem digs_parent : disk.Digs scope.root top relative.names.dropLast s
    ((makeParent (scope.root.join relative)).run host s).2 := by
  unfold makeParent
  cases hup : (scope.root.join relative).parent with
  | none => exact .refl h
  | some above =>
    have hdigs : disk.Digs scope.root top relative.names.dropLast s
        ((makeDirs above).run host s).2 :=
      Disk.Digs.makeDirsWithin (.refl h) (fun _ => reaches_parent h hplain hup) _
    dsimp only
    rw [run_bind]
    split <;> exact hdigs

omit h in
theorem MakesDir.finished (hdigs : disk.Digs scope.root top relative.names s s')
    (hleads : disk.Leads s' (scope.root.join relative)) :
    scope.MakesDir disk top relative s (.ok (scope.root.join relative)) s' where
  outside _ := hdigs.dug.outside
  dug := hdigs.dug
  escaped _ he := nomatch he
  failed _ he := nomatch he
  done p hp := by
    obtain rfl := Except.ok.inj hp
    obtain ⟨l, mode, hfound⟩ := hleads
    have hresolve := lookUp_ok_iff.mp hfound
    obtain ⟨hgoal, hway⟩ := hdigs.housed.lands_join hplain hresolve
    obtain rfl : l = top ++ relative.names := hgoal
    refine ⟨rfl, ⟨mode, hfound⟩, fun ns hns => ?_⟩
    by_cases hne : ns = relative.names
    · exact ⟨mode, hne ▸ (resolve_ok_iff.mp hresolve).2.there⟩
    · exact hway ns hns hne

theorem createDir_makes : scope.MakesDir disk top relative s
    ((scope.createDir relative).run host s).1 ((scope.createDir relative).run host s).2 := by
  have hne : (scope.root.join relative).bytes ≠ [] := by
    rw [h.bytes_join hplain]
    simp
  unfold createDir
  rw [path_of_not_strays hplain]
  dsimp only
  rw [run_bind]
  cases hmade : ((makeDirs (scope.root.join relative)).run host s).1 with
  | ok _ =>
    have hdigs : disk.Digs scope.root top relative.names s
        ((makeDirs (scope.root.join relative)).run host s).2 :=
      Disk.Digs.makeDirsWithin (.refl h) (fun _ => reaches_target h hplain) _
    exact .finished hplain hdigs (disk.leads_of_makeDirs hne (Prod.ext hmade rfl))
  | error cause =>
    have hdigs : disk.Digs scope.root top relative.names.dropLast s
        ((makeDirs (scope.root.join relative)).run host s).2 :=
      Disk.Digs.makeDirs_error (.refl h) (fun _ hup _ => reaches_parent h hplain hup)
        (Prod.ext hmade rfl)
    exact .prepared hdigs.dug _ _

omit h in
theorem StoresFile.finished (hdigs : disk.Digs scope.root top relative.names.dropLast s s')
    {s'' : σ} (hstored : (disk.tree s').store (disk.cwd s') (scope.root.join relative).bytes
      content = .ok (disk.tree s'')) (hcwd : disk.cwd s'' = disk.cwd s') :
    scope.StoresFile disk top relative content s (.ok (scope.root.join relative)) s'' := by
  obtain ⟨hnames, hwritten, hfound, hway⟩ := hdigs.housed.stores hplain hstored
  have hlaid := hdigs.dug.written hwritten hnames (List.prefix_refl content)
  exact {
    outside := fun _ => hlaid.outside
    laid := hlaid
    escaped := fun _ he => nomatch he
    failed := fun _ he => nomatch he
    done := fun p hp => by
      obtain rfl := Except.ok.inj hp
      rw [hcwd]
      exact ⟨rfl, hfound, hway⟩ }

omit h in
theorem StoresFile.stopped (hdigs : disk.Digs scope.root top relative.names.dropLast s s')
    {s'' : σ} {part : Bytes} (hpart : part <+: content) (p : Path) (cause : IoError)
    (hstored : (disk.tree s').store (disk.cwd s') (scope.root.join relative).bytes part =
      .ok (disk.tree s'')) :
    scope.StoresFile disk top relative content s (.error (.prepare p cause)) s'' := by
  obtain ⟨hnames, hwritten, -, -⟩ := hdigs.housed.stores hplain hstored
  exact .prepared (hdigs.dug.written hwritten hnames hpart) p cause

theorem writeFile_stores (content : Bytes) : scope.StoresFile disk top relative content s
    ((scope.writeFile relative content).run host s).1
    ((scope.writeFile relative content).run host s).2 := by
  have hdigs := digs_parent h hplain
  unfold writeFile
  rw [path_of_not_strays hplain]
  dsimp only
  rw [run_bind]
  cases hmade : ((makeParent (scope.root.join relative)).run host s).1 with
  | error e =>
    obtain ⟨p, cause, rfl⟩ := makeParent_error hmade
    exact .prepared hdigs.dug.laid p cause
  | ok _ =>
    dsimp only
    rw [run_bind, run_ask]
    generalize ((makeParent (scope.root.join relative)).run host s).2 = s' at hdigs ⊢
    have hsole (l : Location) (e : Entry) (hfound : (disk.tree s').lookUp (disk.cwd s') true
        (scope.root.join relative).bytes = .ok (l, e)) := hdigs.housed.not_shared hplain hfound
    cases hreply : (host.answer (.store (scope.root.join relative) content) s').1 with
    | ok _ =>
      exact .finished hplain hdigs (disk.stored _ _ _ hsole hreply) (disk.rests (.store _ _) s' rfl)
    | error cause =>
      rcases disk.notStored _ _ _ cause hsole hreply with hsame | ⟨part, hpart, hstored⟩
      · exact .prepared (hsame ▸ hdigs.dug.laid) _ _
      · exact .stopped hplain hdigs hpart _ _ hstored

end Plain

/-- Whatever the disk is like and whatever of it fails, below a root that holds only directories and
files of one name each nothing is lost: directories come to be along the names of a path, a file
comes to be or is written at its own name, and outside of the root all stays as it is. -/
theorem fills_below_root (disk : Disk host) (scope : Scope) (top : Location) (s : σ)
    (h : (disk.tree s).Housed (disk.cwd s) scope.root top) (relative : Path) :
    scope.MakesDir disk top relative s ((scope.createDir relative).run host s).1
        ((scope.createDir relative).run host s).2 ∧
      ∀ content, scope.StoresFile disk top relative content s
        ((scope.writeFile relative content).run host s).1
        ((scope.writeFile relative content).run host s).2 := by
  by_cases hstrays : relative.Strays
  · refine ⟨?_, fun content => ?_⟩
    · rw [(refuses_of_strays hstrays).createDir]
      exact .refused
    · rw [(refuses_of_strays hstrays).writeFile]
      exact .refused
  · exact ⟨createDir_makes h hstrays, writeFile_stores h hstrays⟩

end Scope

namespace Machine

theorem FileTree.mem_of_at? {t : FileTree} {l : Location} {e : Entry} (hl : l ≠ [])
    (h : t.at? l = some e) : (l, e) ∈ t.entries := by
  rw [at?_cons hl, Option.map_eq_some_iff] at h
  obtain ⟨p, hp, rfl⟩ := h
  obtain rfl : p.1 = l := by simpa using List.find?_some hp
  exact List.mem_of_find?_eq_some hp

theorem FileTree.mem_of_file {t : FileTree} {l : Location} {serial mode : Nat} {content : Bytes}
    (h : t.at? l = some (.file serial mode content)) :
    (l, .file serial mode content) ∈ t.entries := by
  refine mem_of_at? ?_ h
  rintro rfl
  cases h

def lodging : Machine :=
  { boot [] [] (.ofString "/") false with
    tree := ⟨[([name "tmp"], .directory 0o777), ([name "tmp", name "s"], .directory 0o700),
      ([name "tmp", name "s", name "log"], .file 1 0o644 (name "old"))], 2⟩ }

theorem lodging_resolve (rest : List Bytes) {last : Bool} {path : Bytes} (hask : Askable path)
    (hpieces : pieces path = [] :: name "tmp" :: name "s" :: rest)
    (hhead : path.head? = some slash) :
    lodging.tree.resolve [] last path =
      lodging.tree.walk last linkLimit [name "tmp", name "s"] rest := by
  have hroot : lodging.tree.at? [] = some (.directory 0o755) := rfl
  have htmp : lodging.tree.at? [name "tmp"] = some (.directory 0o777) := by decide +kernel
  have hs : lodging.tree.at? [name "tmp", name "s"] = some (.directory 0o700) := by decide +kernel
  rw [resolve_of_askable hask, hpieces, start, if_pos hhead, walk_stay hroot (.inl rfl),
    walk_into hroot ⟨by decide, by decide⟩ htmp (by simp)]
  exact walk_into htmp ⟨by decide, by decide⟩ hs (by simp)

theorem lodging_housed :
    lodging.tree.Housed lodging.cwd (.ofString "/tmp/s") [name "tmp", name "s"] where
  found := by
    refine ⟨0o700, lookUp_ok_iff.mpr ((lodging_resolve [] ⟨?_, ?_, ?_⟩ ?_ ?_).trans ?_)⟩
    · decide +kernel
    · decide +kernel
    · decide +kernel
    · decide +kernel
    · decide +kernel
    · exact walk_found (by decide +kernel)
  plain l e hl hthere := by
    have hmem := mem_of_at? (by obtain ⟨ns, -, rfl⟩ := hl; simp) hthere
    simp only [lodging, List.mem_cons, List.not_mem_nil, or_false, Prod.mk.injEq] at hmem
    rcases hmem with ⟨-, rfl⟩ | ⟨-, rfl⟩ | ⟨-, rfl⟩ <;> trivial
  sole l hl := by
    rintro ⟨serial, mode, content, hthere, l', mode', content', hne, hthere'⟩
    have hmem := mem_of_file hthere
    have hmem' := mem_of_file hthere'
    simp [lodging] at hmem hmem'
    exact hne (hmem'.1.trans hmem.1.symm)

end Machine

theorem Machine.lodging_made :
    (Machine.host.answer (.makeDir (.ofString "/tmp/s/./d")) Machine.lodging).1 = .ok () := by
  have hresolve : lodging.tree.resolve [] false (Path.ofString "/tmp/s/./d").bytes =
      .ok (.absent [name "tmp", name "s"] (name "d") false) := by
    have hs : lodging.tree.at? [name "tmp", name "s"] = some (.directory 0o700) := by decide +kernel
    have hd : lodging.tree.at? ([name "tmp", name "s"] ++ [name "d"]) = none := by decide +kernel
    rw [lodging_resolve [[dot], name "d"], walk_stay hs (.inr rfl),
      walk_name hs ⟨by decide, by decide⟩, hd]
    · rfl
    · exact ⟨by decide +kernel, by decide +kernel, by decide +kernel⟩
    · decide +kernel
    · decide +kernel
  change (lodging.changed (lodging.tree.makeDir [] _ scopeMode)).1 = _
  rw [makeDir, hresolve]
  rfl

/-- A directory is made, and a file that is in the way of another one stays. -/
theorem Scope.fills_below_root_tmp :
    let scope : Scope := ⟨.ofString "/tmp/s", true⟩
    let top := [Machine.name "tmp", Machine.name "s"]
    let made := (scope.createDir (.ofString "./d")).run Machine.host Machine.lodging
    let kept := (scope.writeFile (.ofString "log/x") [0x6e]).run Machine.host Machine.lodging
    Machine.lodging.tree.Housed Machine.lodging.cwd scope.root top ∧
      made.1 = .ok (.ofString "/tmp/s/./d") ∧
      (∃ mode, made.2.tree.at? (top ++ [Machine.name "d"]) = some (.directory mode)) ∧
      (∀ p, kept.1 ≠ .ok p) ∧
      kept.2.tree.at? (top ++ [Machine.name "log"]) = some (.file 1 0o644 (Machine.name "old")) := by
  intro scope top made kept
  obtain ⟨hmakes, -⟩ := fills_below_root Machine.disk scope top Machine.lodging
    Machine.lodging_housed (.ofString "./d")
  obtain ⟨-, hstores⟩ := fills_below_root Machine.disk scope top Machine.lodging
    Machine.lodging_housed (.ofString "log/x")
  have hmade : made.1 = .ok (.ofString "/tmp/s/./d") := by
    change ((scope.createDir _).run _ _).1 = _
    have hjoin : scope.root.join (.ofString "./d") = .ofString "/tmp/s/./d" := by decide +kernel
    unfold createDir makeDirs makeDirsWithin
    rw [path_of_not_strays (by decide +kernel), hjoin]
    dsimp only
    rw [run_bind, if_neg (by decide +kernel), run_bind, run_ask, Machine.lodging_made]
    rfl
  have hlog : kept.2.tree.at? (top ++ [Machine.name "log"]) =
      some (.file 1 0o644 (Machine.name "old")) :=
    (hstores [0x6e]).laid.kept _ _ (by decide +kernel) (by decide +kernel)
  refine ⟨Machine.lodging_housed, hmade, ?_, fun p hp => ?_, hlog⟩
  · exact (hmakes.done _ hmade).2.2 [Machine.name "d"] (by decide +kernel)
  · obtain ⟨-, -, hway⟩ := (hstores [0x6e]).done p hp
    obtain ⟨mode, hdir⟩ := hway [Machine.name "log"] (by decide +kernel) (by decide +kernel)
    cases hlog.symm.trans hdir

namespace Scenario

variable {σ : Type} {host : Host σ} (disk : Disk host) {scope : Scope} {top : Location}
  {steps : List SetupStep} {s₀ s : σ}

def Targets (top : Location) (steps : List SetupStep) (l : Location) : Prop :=
  ∃ relative content, .writeFile relative content ∈ steps ∧ l = top ++ relative.names

/-- Since a state nothing outside of a root has changed, and nothing was lost below but what these
steps write; and the root is fit for more. -/
structure Spares (scope : Scope) (top : Location) (steps : List SetupStep) (s₀ s : σ) : Prop where
  housed : (disk.tree s).Housed (disk.cwd s) scope.root top
  numbered : (disk.tree s).Numbered
  outside : ∀ l, ¬ Below top l → (disk.tree s).at? l = (disk.tree s₀).at? l
  kept : ∀ l e, ¬ Targets top steps l → (disk.tree s₀).at? l = some e → (disk.tree s).at? l = some e

variable {disk}

theorem Spares.same {s' : σ} (h : Spares disk scope top steps s₀ s)
    (htree : disk.tree s' = disk.tree s) (hcwd : disk.cwd s' = disk.cwd s) :
    Spares disk scope top steps s₀ s' where
  housed := by
    rw [htree, hcwd]
    exact h.housed
  numbered := htree ▸ h.numbered
  outside := htree ▸ h.outside
  kept := htree ▸ h.kept

theorem Spares.makeDir (h : Spares disk scope top steps s₀ s) {p : Path} {names : List Bytes}
    (hp : scope.root.Reaches names p) :
    Spares disk scope top steps s₀ (host.answer (.makeDir p) s).2 := by
  have hdigs : disk.Digs scope.root top names s (host.answer (.makeDir p) s).2 :=
    Disk.Digs.makeDir (.refl h.housed) hp
  exact {
    housed := hdigs.housed
    numbered := hdigs.numbered h.numbered
    outside := fun l hl => (hdigs.dug.outside hl).trans (h.outside l hl)
    kept := fun l e hl hthere => hdigs.dug.kept l e (h.kept l e hl hthere) }

theorem Spares.store (h : Spares disk scope top steps s₀ s) {relative : Path} {content : Bytes}
    (hstep : .writeFile relative content ∈ steps) (hplain : ¬ relative.Strays) :
    Spares disk scope top steps s₀
      (host.answer (.store (scope.root.join relative) content) s).2 := by
  have hcwd := disk.rests (.store (scope.root.join relative) content) s rfl
  have hsole (l : Location) (e : Entry) (hfound : (disk.tree s).lookUp (disk.cwd s) true
      (scope.root.join relative).bytes = .ok (l, e)) := h.housed.not_shared hplain hfound
  have hstored {part : Bytes} (hstored : (disk.tree s).store (disk.cwd s)
      (scope.root.join relative).bytes part =
        .ok (disk.tree (host.answer (.store (scope.root.join relative) content) s).2)) :
      Spares disk scope top steps s₀
        (host.answer (.store (scope.root.join relative) content) s).2 := by
    obtain ⟨hnames, hwritten, -, -⟩ := h.housed.stores hplain hstored
    have hothers {l : Location} (hl : l ≠ top ++ relative.names) := hwritten.others l hl
    exact {
      housed := by
        rw [hcwd]
        exact h.housed.written h.numbered hwritten
      numbered := hwritten.numbered h.numbered
      outside := fun l hl =>
        (hothers fun heq => hl ⟨_, hnames, heq⟩).trans (h.outside l hl)
      kept := fun l e hl hthere =>
        (hothers fun heq => hl ⟨relative, content, hstep, heq⟩).trans (h.kept l e hl hthere) }
  cases hreply : (host.answer (.store (scope.root.join relative) content) s).1 with
  | ok _ => exact hstored (disk.stored _ _ _ hsole hreply)
  | error cause =>
    rcases disk.notStored _ _ _ cause hsole hreply with hsame | ⟨part, -, hpart⟩
    · exact h.same hsame hcwd
    · exact hstored hpart

theorem Spares.answer (h : Spares disk scope top steps s₀ s) {r : Request} {step : SetupStep}
    (hstep : step ∈ steps) (hr : r.Performs scope step) :
    Spares disk scope top steps s₀ (host.answer r s).2 := by
  obtain ⟨p, hpath, hr⟩ := hr
  by_cases hstrays : step.relative.Strays
  · rw [Scope.path_of_strays hstrays] at hpath
    cases hpath
  rw [Scope.path_of_not_strays hstrays] at hpath
  obtain rfl := Except.ok.inj hpath
  rcases hr with ⟨q, hq, rfl | rfl⟩ | ⟨content, hcontent, rfl⟩
  · exact h.makeDir (Scope.reaches_target h.housed hstrays hq)
  · exact h.same (disk.looked q s) (disk.rests (.metadata q) s rfl)
  · exact h.store (hcontent ▸ hstep) hstrays

/-- However far filling a scope gets, it has spared all but what its steps write. -/
theorem prepare_spares (hhoused : (disk.tree s).Housed (disk.cwd s) scope.root top)
    (hnumbered : (disk.tree s).Numbered) (steps : List SetupStep) :
    Spares disk scope top steps s ((prepare scope steps).run host s).2 := by
  refine (prepare_performs scope steps).invariant (I := Spares disk scope top steps s) ?_
    ⟨hhoused, hnumbered, fun _ _ => rfl, fun _ _ _ h => h⟩
  rintro r s' ⟨step, hstep, hr⟩ hspares
  exact hspares.answer hstep hr

end Scenario

end SmokeBench
