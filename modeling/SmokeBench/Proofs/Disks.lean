import SmokeBench.Machine.Host
import SmokeBench.Proofs.TreeChanges

/-! Hosts with a tree of files behind them. A request to make a directory or to store a file changes
the tree as far as it is reported to, for whatever reason it fails; a directory that was reported as
made is there. -/

namespace SmokeBench

open Machine (FileTree Location)

/-- A host with a tree of files behind it. Whether a request to make or to store something succeeds
is up to the host: a disk may be full, or a directory not be writable. What it reports as done was
done to the tree; what failed has left the tree alone, but that the front of a file may have been
stored. Of files with several names nothing is said. -/
structure Disk {σ : Type} (host : Host σ) where
  tree : σ → FileTree
  cwd : σ → Location
  rests : ∀ r s, r.fills → cwd (host.answer r s).2 = cwd s
  looked : ∀ p s, tree (host.answer (.metadata p) s).2 = tree s
  told : ∀ p s m, (host.answer (.metadata p) s).1 = .ok m →
    (tree s).metadata (cwd s) p.bytes = .ok m
  made : ∀ p s, (host.answer (.makeDir p) s).1 = .ok () →
    ∃ mode, (tree s).makeDir (cwd s) p.bytes mode = .ok (tree (host.answer (.makeDir p) s).2)
  notMade : ∀ p s e, (host.answer (.makeDir p) s).1 = .error e →
    tree (host.answer (.makeDir p) s).2 = tree s
  stored : ∀ p content s,
    (∀ l e, (tree s).lookUp (cwd s) true p.bytes = .ok (l, e) → ¬ (tree s).Shared l) →
    (host.answer (.store p content) s).1 = .ok () →
    (tree s).store (cwd s) p.bytes content = .ok (tree (host.answer (.store p content) s).2)
  notStored : ∀ p content s e,
    (∀ l e, (tree s).lookUp (cwd s) true p.bytes = .ok (l, e) → ¬ (tree s).Shared l) →
    (host.answer (.store p content) s).1 = .error e →
    tree (host.answer (.store p content) s).2 = tree s ∨ ∃ part, part <+: content ∧
      (tree s).store (cwd s) p.bytes part = .ok (tree (host.answer (.store p content) s).2)

namespace Machine

theorem changed_ok {m : Machine} {r : Except IoError FileTree} (h : (m.changed r).1 = .ok ()) :
    r = .ok (m.changed r).2.tree := by
  cases r with
  | ok t => rfl
  | error e => cases h

theorem changed_error {m : Machine} {r : Except IoError FileTree} {e : IoError}
    (h : (m.changed r).1 = .error e) : (m.changed r).2 = m := by
  cases r with
  | ok t => cases h
  | error e => rfl

theorem changed_cwd (m : Machine) (r : Except IoError FileTree) : (m.changed r).2.cwd = m.cwd := by
  cases r <;> rfl

def disk : Disk host where
  tree := Machine.tree
  cwd := Machine.cwd
  rests r s h := by
    cases r with
    | metadata p => rfl
    | makeDir p => exact changed_cwd _ _
    | store p content => exact changed_cwd _ _
    | _ => cases h
  looked p s := rfl
  told p s m h := h
  made p s h := ⟨scopeMode, changed_ok h⟩
  notMade p s e h := congrArg Machine.tree (changed_error h)
  stored p content s _ h := changed_ok h
  notStored p content s e _ h := .inl (congrArg Machine.tree (changed_error h))

end Machine

namespace Disk

open Dialogue

variable {σ : Type} {host : Host σ} (disk : Disk host) {s : σ} {p : Path}

def Leads (s : σ) (p : Path) : Prop :=
  ∃ l mode, (disk.tree s).lookUp (disk.cwd s) true p.bytes = .ok (l, .directory mode)

theorem leads_of_made (h : (host.answer (.makeDir p) s).1 = .ok ()) :
    disk.Leads (host.answer (.makeDir p) s).2 p := by
  obtain ⟨mode, hmake⟩ := disk.made p s h
  obtain ⟨l, hl⟩ := FileTree.lookUp_of_makeDir hmake
  exact ⟨l, mode, by rwa [disk.rests (.makeDir p) s rfl]⟩

theorem leads_of_isDirectory {s' : σ} (h : (isDirectory p).run host s = (true, s')) :
    disk.Leads s' p := by
  unfold isDirectory at h
  rw [run_bind, run_ask] at h
  split at h
  · rename_i m hm
    rw [run_pure, Prod.mk.injEq, beq_iff_eq] at h
    obtain ⟨hkind, rfl⟩ := h
    obtain ⟨l, mode, hl⟩ := FileTree.lookUp_of_metadata (disk.told p s m hm) hkind
    exact ⟨l, mode, by rwa [disk.looked, disk.rests (.metadata p) s rfl]⟩
  · cases h

theorem leads_of_makeDirs {s' : σ} (hne : p.bytes ≠ [])
    (h : (makeDirs p).run host s = (.ok (), s')) : disk.Leads s' p := by
  have htried {s s' : σ} {e : IoError} (h : ((do
      return if ← isDirectory p then .ok () else .error e :
        Dialogue (Except IoError Unit)).run host s) = (.ok (), s')) : disk.Leads s' p := by
    rw [run_bind, run_pure, Prod.mk.injEq] at h
    obtain ⟨hdir, rfl⟩ := h
    refine disk.leads_of_isDirectory (s := s) (Prod.ext ?_ rfl)
    by_contra hnot
    rw [if_neg hnot] at hdir
    cases hdir
  unfold makeDirs makeDirsWithin at h
  rw [if_neg (by simpa using hne), run_bind, run_ask] at h
  split at h
  · rename_i hmade
    cases h
    exact disk.leads_of_made hmade
  · split at h
    · rw [run_bind] at h
      split at h
      · cases h
      · rw [run_bind, run_ask] at h
        split at h
        · rename_i hmade
          cases h
          exact disk.leads_of_made hmade
        · exact htried h
    · cases h
  · exact htried h

end Disk

end SmokeBench
