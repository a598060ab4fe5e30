import SmokeBench.Proofs.Encoding
import SmokeBench.Proofs.Messages
import SmokeBench.Proofs.ScopeLife
import SmokeBench.Proofs.ScopePaths
import SmokeBench.Settings.File

/-! Where a new scope lies. The prefix of its name is joined to the directory for scopes as it is, so
it is read as a path: what stands before its last separator leads away from that directory, and only
the rest begins the name. The scope lies in the directory it was made for, under the whole prefix and
the random letters, exactly if the prefix has no separator. -/

namespace SmokeBench

open Dialogue

def RandomName (suffix : String) : Prop :=
  suffix.length = 6 ∧ suffix.toList.all Char.isAlphanum

instance (suffix : String) : Decidable (RandomName suffix) :=
  inferInstanceAs (Decidable (_ ∧ _))

/-- Replies as the system gives them where a name is drawn and where the bench runs. -/
def Request.Regular : (r : Request) → r.Reply → Prop
  | .randomSuffix, suffix => RandomName suffix
  | .workingDir, reply => ∀ path, reply = .ok path → path.isAbsolute
  | _, _ => True

namespace Bytes

theorem slash_mem_ofString_iff (s : String) : slash ∈ ofString s ↔ '/' ∈ s.toList :=
  mem_ofString_iff (by decide) (by decide) (by decide) s

theorem length_le_ofString (s : String) : s.length ≤ (ofString s).length := by
  rw [ofString, List.length_flatMap, ← String.length_toList]
  induction s.toList with
  | nil => exact Nat.le_refl _
  | cons c rest ih =>
    have hone : 1 ≤ (String.utf8EncodeChar c).length := by
      rw [String.length_utf8EncodeChar]
      exact c.utf8Size_pos
    rw [List.length_cons, List.map_cons, List.sum_cons]
    omega

end Bytes

theorem RandomName.slash_not_mem {suffix : String} (h : RandomName suffix) :
    Bytes.slash ∉ Bytes.ofString suffix := by
  rw [Bytes.slash_mem_ofString_iff]
  exact fun hmem => absurd (List.all_eq_true.mp h.2 _ hmem) (by decide)

theorem RandomName.length {suffix : String} (h : RandomName suffix) :
    6 ≤ (Bytes.ofString suffix).length := h.1 ▸ Bytes.length_le_ofString suffix

namespace Path

open Bytes (slash dot)

theorem slash_not_mem_of_normal {p : Path} {name : Bytes} (h : .normal name ∈ p.components) :
    slash ∉ name := by
  rw [components_eq, List.mem_append, body_eq, List.mem_filterMap] at h
  rcases h with hlead | ⟨x, hx, hname⟩
  · rcases mem_lead hlead with h | h <;> cases h
  · rcases componentOf_cases x with ⟨hc, -⟩ | ⟨hc, -⟩ | ⟨hc, -⟩ <;> rw [hc] at hname <;> cases hname
    exact Text.sep_not_mem_of_mem_splitOn hx

theorem body_of_name {name : Bytes} (hslash : slash ∉ name) (hlong : 2 < name.length) :
    body name = [.normal name] := by
  have hsign : name ∉ signs := by
    intro hmem
    simp only [signs, List.mem_cons, List.not_mem_nil, or_false] at hmem
    rcases hmem with rfl | rfl | rfl <;> exact absurd hlong (by decide)
  rw [body_eq, pieces, List.splitOn_eq_singleton hslash, List.filterMap_cons]
  rcases componentOf_cases name with ⟨-, h⟩ | ⟨-, h⟩ | ⟨hc, -⟩
  · exact absurd (by rcases h with h | h <;> simp [signs, h]) hsign
  · exact absurd (by simp [signs, h]) hsign
  · rw [hc]
    rfl

end Path

namespace Scope

variable {σ : Type} {host : Host σ}

/-- The directory that scopes are made in for a parent: the parent itself, found from where the
bench runs if it is relative. -/
def Grounds (parent base : Path) : Prop :=
  base.isAbsolute ∧ (base = parent ∨ ∃ dir : Path, dir.isAbsolute ∧ base = dir.join parent)

/-- Where a scope with this prefix lies. What stands before the last separator of the prefix leads
away from the base, and the rest begins its name; it is a child of the base under the whole name
if and only if there is no separator. -/
structure Named (namePrefix suffix : String) (base root : Path) : Prop where
  joined : root = base.join (.ofString (namePrefix ++ suffix))
  child : root.components = base.components ++ [.normal (Bytes.ofString (namePrefix ++ suffix))] ↔
    '/' ∉ namePrefix.toList
  cut : ∃ front tail, Bytes.ofString namePrefix = front ++ tail ∧ Bytes.slash ∉ tail ∧
    (front = [] ∨ ∃ init, front = init ++ [Bytes.slash]) ∧
    root.components =
      (base.join ⟨front⟩).components ++ [.normal (tail ++ Bytes.ofString suffix)]

theorem named {base : Path} {namePrefix suffix : String} (hbase : base.isAbsolute)
    (hsuffix : RandomName suffix) :
    Named namePrefix suffix base (base.join (.ofString (namePrefix ++ suffix))) := by
  obtain ⟨front, tail, hcut, htail, hfront⟩ := Path.exists_cut (Bytes.ofString namePrefix)
  have hname : Bytes.ofString (namePrefix ++ suffix) = front ++ (tail ++ Bytes.ofString suffix) := by
    rw [Bytes.ofString_append, hcut, List.append_assoc]
  have hslash : Bytes.slash ∉ tail ++ Bytes.ofString suffix := by
    rw [List.mem_append, not_or]
    exact ⟨htail, hsuffix.slash_not_mem⟩
  have hlong : 2 < (tail ++ Bytes.ofString suffix).length := by
    have hsix := hsuffix.length
    rw [List.length_append]
    omega
  have hcomponents : (base.join (.ofString (namePrefix ++ suffix))).components =
      (base.join ⟨front⟩).components ++ [.normal (tail ++ Bytes.ofString suffix)] := by
    rw [Path.ofString, hname, Path.components_join_cut hbase hslash hfront,
      Path.body_of_name hslash hlong]
  refine ⟨rfl, ?_, front, tail, hcut, htail, hfront, hcomponents⟩
  rw [← Bytes.slash_mem_ofString_iff]
  constructor
  · intro hchild hmem
    have hlast : .normal (Bytes.ofString (namePrefix ++ suffix)) ∈
        (base.join (.ofString (namePrefix ++ suffix))).components := by
      rw [hchild]
      exact List.mem_append_right _ (List.mem_singleton_self _)
    have hnot := Path.slash_not_mem_of_normal hlast
    rw [Bytes.ofString_append] at hnot
    exact hnot (List.mem_append_left _ hmem)
  · intro hnot
    have hnil : front = [] := by
      rcases hfront with hnil | ⟨init, rfl⟩
      · exact hnil
      · exact absurd (by rw [hcut]; simp) hnot
    subst hnil
    rw [hcomponents, hname, Path.components_join (Path.bytes_ne_nil hbase) rfl, Path.body_nil,
      List.append_nil]
    rfl

def Drawn (base : Path) (namePrefix : String) (made : Except IoError Path) : Prop :=
  ∀ root, made = .ok root → ∃ suffix, RandomName suffix ∧
    root = base.join (.ofString (namePrefix ++ suffix))

theorem createIn_draws (base : Path) (namePrefix : String) (attempts : Nat) :
    (createIn base namePrefix attempts).Gives (Drawn base namePrefix) Request.Regular := by
  induction attempts with
  | zero =>
    intro root heq
    cases heq
  | succ attempts ih =>
    unfold createIn
    refine Gives.bind (Gives.ask fun suffix hsuffix => hsuffix) fun suffix hsuffix => ?_
    refine Gives.bind (Gives.anything _) fun reply _ => ?_
    split
    · refine .pure fun root heq => ?_
      exact ⟨suffix, hsuffix, (Except.ok.inj heq).symm⟩
    · exact ih
    · refine .pure fun root heq => ?_
      cases heq

theorem anchor_grounds (parent : Path) :
    (anchor parent).Gives (fun found => ∀ base, found = .ok base → Grounds parent base)
      Request.Regular := by
  unfold anchor
  split
  · rename_i habs
    refine .pure fun base heq => ?_
    cases heq
    exact ⟨habs, .inl rfl⟩
  · refine Gives.bind (Gives.ask fun reply hreply => hreply) fun reply hreply => ?_
    split
    · refine .pure fun base heq => ?_
      cases heq
      have hdir := hreply _ rfl
      exact ⟨Path.isAbsolute_join hdir parent, .inr ⟨_, hdir, rfl⟩⟩
    · exact .pure nofun

theorem baseOf_grounds (parent : Path) :
    (baseOf (some parent)).Gives (fun found => ∀ base, found.2 = .ok base → Grounds parent base)
      Request.Regular := by
  simp only [baseOf, pure_bind]
  exact (anchor_grounds parent).bind fun found h => .pure h

theorem create_draws (parent : Path) (namePrefix : String) :
    (create (some parent) namePrefix).Gives (fun made => ∀ scope, made = .ok scope →
      ∃ base, Grounds parent base ∧ Drawn base namePrefix (.ok scope.root)) Request.Regular := by
  rw [create_eq]
  refine (baseOf_grounds parent).bind fun found hground => ?_
  cases hbase : found.2 with
  | error e => exact .pure nofun
  | ok base =>
    refine (createIn_draws base namePrefix _).map fun made hdrawn scope heq => ?_
    cases made with
    | error e => cases heq
    | ok root =>
      cases heq
      exact ⟨base, hground base hbase, hdrawn⟩

/-- A scope that was created lies where its prefix leads from the directory it was made for. -/
theorem create_named (hhost : ∀ r s, Request.Regular r (host.answer r s).1) {parent : Path}
    {namePrefix : String} {st : σ} {scope : Scope}
    (hcreated : ((create (some parent) namePrefix).run host st).1 = .ok scope) :
    ⟨.makeDir scope.root, .ok ()⟩ ∈ (create (some parent) namePrefix).journal host st ∧
    ∃ base suffix, Grounds parent base ∧ RandomName suffix ∧
      Named namePrefix suffix base scope.root := by
  constructor
  · rcases create_yields host (some parent) namePrefix st with
      ⟨root, j, -, hmade⟩ | ⟨e, j, -, hfailed⟩
    · obtain rfl := Except.ok.inj (hmade.result.symm.trans hcreated)
      rw [hmade.journal]
      exact List.mem_append_right _ (List.mem_singleton_self _)
    · cases hfailed.result.symm.trans hcreated
  · obtain ⟨base, hbase, hdrawn⟩ :=
      (create_draws parent namePrefix).run host hhost st scope hcreated
    obtain ⟨suffix, hsuffix, hroot⟩ := hdrawn _ rfl
    refine ⟨base, suffix, hbase, hsuffix, ?_⟩
    rw [hroot]
    exact named hbase.1 hsuffix

end Scope

def Host.drawing : Host Unit where
  answer r s := match r with
    | .metadata _ => (.ok ⟨.directory, 0⟩, s)
    | .makeDir _ => (.ok (), s)
    | .randomSuffix => ("aB3dE9", s)
    | .workingDir => (.ok (.ofString "/home/bench"), s)
    | r => Host.still.answer r s

theorem Host.drawing_regular (r : Request) (s : Unit) : r.Regular (Host.drawing.answer r s).1 := by
  cases r with
  | randomSuffix => exact (by decide : RandomName "aB3dE9")
  | workingDir =>
    intro path heq
    cases heq
    decide
  | _ => trivial

namespace Scope

theorem create_named_drawing :
    ((create (some (.ofString "scopes")) "lcc/it_").run .drawing ()).1 =
      .ok ⟨.ofString "/home/bench/scopes/lcc/it_aB3dE9", true⟩ ∧
    ∃ base suffix, Grounds (.ofString "scopes") base ∧ RandomName suffix ∧
      Named "lcc/it_" suffix base (.ofString "/home/bench/scopes/lcc/it_aB3dE9") := by
  have hcreated : ((create (some (.ofString "scopes")) "lcc/it_").run .drawing ()).1 =
      .ok ⟨.ofString "/home/bench/scopes/lcc/it_aB3dE9", true⟩ := by
    decide +kernel
  exact ⟨hcreated, (create_named Host.drawing_regular hcreated).2⟩

/-- A settings file may name scopes so that they are made beside the directory for scopes. -/
theorem created_beside_parent :
    (∃ settings, FileSettings.parse "[scope]\nprefix = \"../lcc_\"\n" = .ok settings ∧
      settings.scope.namePrefix = some "../lcc_") ∧
    (∀ r s, Request.Regular r (Host.drawing.answer r s).1) ∧
    ((isDirectory (.ofString "/tmp/scopes")).run .drawing ()).1 = true ∧
    ∃ scope, ((create (some (.ofString "/tmp/scopes")) "../lcc_").run .drawing ()).1 = .ok scope ∧
      ¬ ∃ name, scope.root.components =
        (Path.ofString "/tmp/scopes").components ++ [.normal name] := by
  refine ⟨⟨{ FileSettings.empty with scope := ⟨none, some "../lcc_"⟩ }, by decide +kernel, rfl⟩,
    Host.drawing_regular, rfl, ⟨.ofString "/tmp/scopes/../lcc_aB3dE9", true⟩, by decide +kernel, ?_⟩
  rintro ⟨name, hchild⟩
  have hlength := congrArg List.length hchild
  rw [List.length_append, List.length_singleton] at hlength
  exact absurd hlength (by decide)

end Scope

end SmokeBench
