import Mathlib.Data.List.Basic
import SmokeBench.Scope

/-! The components of joined paths and of parents. A path is cut at its separators, so what a joined
path is made of can be read off its two parts; the parent of a path has all components but the
last. -/

namespace SmokeBench

namespace Bytes

theorem foldl_splitStep (sep : UInt8) (b cur : Bytes) (cut : List Bytes) :
    ((b.foldl (splitStep sep) (cur, cut)).1.reverse ::
        (b.foldl (splitStep sep) (cur, cut)).2).reverse =
      cut.reverse ++ List.splitOnPPrepend (· == sep) b cur := by
  induction b generalizing cur cut with
  | nil => simp
  | cons c rest ih =>
    rw [List.foldl_cons]
    cases h : c == sep with
    | true =>
      rw [splitStep, h, if_pos rfl, ih, List.splitOnPPrepend_cons_pos (p := (· == sep)) h]
      simp
    | false =>
      rw [splitStep, h, if_neg (by simp), ih, List.splitOnPPrepend_cons_neg (p := (· == sep)) h]

theorem splitOn_eq (sep : UInt8) (b : Bytes) : splitOn sep b = List.splitOn sep b :=
  foldl_splitStep sep b [] []

theorem splitOn_append_cons (sep : UInt8) (a b : Bytes) :
    splitOn sep (a ++ sep :: b) = splitOn sep a ++ splitOn sep b := by
  simp only [splitOn_eq, List.splitOn_append_cons_self]

theorem splitOn_of_not_mem {sep : UInt8} {b : Bytes} (h : sep ∉ b) : splitOn sep b = [b] := by
  rw [splitOn_eq, List.splitOn_eq_singleton h]

theorem splitOn_ne_nil (sep : UInt8) (b : Bytes) : splitOn sep b ≠ [] := by
  rw [splitOn_eq]
  exact List.splitOn_ne_nil _ _

end Bytes

namespace Path

open Bytes (slash dot)

/-- The components that do not hang on how a path starts. -/
def body (b : Bytes) : List Component := (Bytes.splitOn slash b).filterMap componentOf

/-- The component that only the start of a path can have. -/
def lead (b : Bytes) : List Component :=
  if b.head? == some slash then [.root]
  else if (Bytes.splitOn slash b).head? = some [dot] then [.current]
  else []

theorem components_eq (b : Bytes) : components ⟨b⟩ = lead b ++ body b := by
  unfold components lead body isAbsolute
  dsimp only
  split_ifs <;> rfl

@[simp] theorem body_nil : body [] = [] := rfl

@[simp] theorem body_dot : body [dot] = [] := by decide

theorem body_append (a b : Bytes) : body (a ++ slash :: b) = body a ++ body b := by
  unfold body
  rw [Bytes.splitOn_append_cons, List.filterMap_append]

theorem body_name {b : Bytes} (hslash : slash ∉ b) (hnil : b ≠ []) (hdot : b ≠ [dot]) :
    ∃ c, body b = [c] := by
  unfold body componentOf
  rw [Bytes.splitOn_of_not_mem hslash]
  by_cases h : b = [dot, dot]
  · exact ⟨.parent, by simp [h]⟩
  · exact ⟨.normal b, by simp [hnil, hdot, h]⟩

theorem lead_append {a : Bytes} (h : a ≠ []) (b : Bytes) : lead (a ++ slash :: b) = lead a := by
  obtain ⟨piece, rest, hpieces⟩ := List.exists_cons_of_ne_nil (Bytes.splitOn_ne_nil slash a)
  unfold lead
  rw [List.head?_append_of_ne_nil _ h, Bytes.splitOn_append_cons, hpieces]
  rfl

theorem components_append (a b : Bytes) :
    components ⟨a ++ slash :: b⟩ = components ⟨a ++ [slash]⟩ ++ body b := by
  have hlead : lead (a ++ slash :: b) = lead (a ++ [slash]) := by
    cases a with
    | nil => rfl
    | cons c rest => rw [lead_append (by simp), lead_append (by simp)]
  rw [components_eq, components_eq, hlead, body_append, body_append, body_nil, List.append_nil,
    List.append_assoc]

theorem components_trailing {a : Bytes} (h : a ≠ []) :
    components ⟨a ++ [slash]⟩ = components ⟨a⟩ := by
  rw [components_eq, components_eq, lead_append h, body_append, body_nil, List.append_nil]

theorem components_join {p q : Path} (hp : p.bytes ≠ []) (hq : q.isAbsolute = false) :
    (p.join q).components = p.components ++ body q.bytes := by
  obtain ⟨p⟩ := p
  obtain ⟨init, last, rfl⟩ : ∃ init last, p = init ++ [last] :=
    ⟨p.dropLast, p.getLast hp, (List.dropLast_append_getLast hp).symm⟩
  unfold join
  rw [hq, List.getLast?_append]
  simp only [Bool.false_eq_true, if_false, List.getLast?_singleton, Option.some_or]
  by_cases h : last = slash
  · rw [if_pos h, h, List.append_assoc, List.singleton_append, components_append]
  · rw [if_neg h, components_append, components_trailing (by simp)]

theorem components_trimTail (b : Bytes) :
    components ⟨(trimTail b).reverse⟩ = components ⟨b.reverse⟩ := by
  fun_induction trimTail b with
  | case1 => rfl
  | case2 c => rfl
  | case3 d rest ih => rw [ih, List.reverse_cons (a := slash), components_trailing (by simp)]
  | case4 c d rest hslash hdot ih =>
    rw [ih, hdot.1, hdot.2]
    simp only [List.reverse_cons, List.append_assoc, List.singleton_append]
    rw [components_append _ [dot], body_dot, List.append_nil]
  | case5 c d rest hslash hdot => rfl

theorem trimTail_shape (b : Bytes) :
    trimTail b = [] ∨ (∃ c, trimTail b = [c]) ∨
      ∃ c d rest, trimTail b = c :: d :: rest ∧ c ≠ slash ∧ ¬(c = dot ∧ d = slash) := by
  fun_induction trimTail b with
  | case1 => exact .inl rfl
  | case2 c => exact .inr (.inl ⟨c, rfl⟩)
  | case3 d rest ih => exact ih
  | case4 c d rest hslash hdot ih => exact ih
  | case5 c d rest hslash hdot => exact .inr (.inr ⟨c, d, rest, rfl, hslash, hdot⟩)

/-- A reversed path is cut at its last separator, if it has one. -/
theorem cut_last (t : Bytes) :
    (slash ∉ t ∧ t.dropWhile (· != slash) = []) ∨
      ∃ name rest, slash ∉ name ∧ t = name ++ slash :: rest ∧
        t.dropWhile (· != slash) = slash :: rest := by
  induction t with
  | nil => exact .inl ⟨List.not_mem_nil, rfl⟩
  | cons c t ih =>
    by_cases hc : c = slash
    · exact .inr ⟨[], t, List.not_mem_nil, by rw [hc]; rfl, by simp [hc]⟩
    · have hdrop : (c :: t).dropWhile (· != slash) = t.dropWhile (· != slash) := by simp [hc]
      have hnot (name : Bytes) (h : slash ∉ name) : slash ∉ c :: name := by simp [h, Ne.symm hc]
      rw [hdrop]
      rcases ih with ⟨hmem, hnil⟩ | ⟨name, rest, hmem, heq, hrest⟩
      · exact .inl ⟨hnot t hmem, hnil⟩
      · exact .inr ⟨c :: name, rest, hnot name hmem, by rw [heq]; rfl, hrest⟩

theorem dropLast_components {b : Bytes} (h : slash ∉ b) : (components ⟨b⟩).dropLast = [] := by
  have hhead : b.head? ≠ some slash := fun hh => h (List.mem_of_mem_head? hh)
  rw [components_eq, lead, if_neg (by simpa using hhead), Bytes.splitOn_of_not_mem h]
  by_cases hdot : b = [dot]
  · rw [hdot]
    rfl
  · rw [if_neg (by simpa using hdot), List.nil_append]
    by_cases hnil : b = []
    · rw [hnil]
      rfl
    · obtain ⟨c, hc⟩ := body_name h hnil hdot
      rw [hc]
      rfl

theorem components_parent {p above : Path} (h : p.parent = some above) :
    above.components = p.components.dropLast := by
  obtain ⟨b⟩ := p
  have hsame : components ⟨b⟩ = components ⟨(trimTail b.reverse).reverse⟩ := by
    rw [components_trimTail, List.reverse_reverse]
  unfold parent at h
  dsimp only at h
  split at h
  · cases h
  · cases h
  · rename_i last hroot hlast
    cases h
    rw [components_trimTail]
    rcases cut_last (trimTail b.reverse) with ⟨hmem, hdrop⟩ | ⟨name, rest, hmem, heq, hdrop⟩
    · rw [hdrop, hsame, dropLast_components (by simpa using hmem)]
      rfl
    · have hcut : (trimTail b.reverse).reverse = rest.reverse ++ slash :: name.reverse := by
        rw [heq]; simp
      rw [hdrop, hsame, hcut, components_append, List.reverse_cons]
      have hshape := trimTail_shape b.reverse
      have hnil : name ≠ [] := by
        rintro rfl
        rw [heq, List.nil_append] at hshape
        rcases hshape with hempty | ⟨c, hone⟩ | ⟨c, d, more, htwo, hslash, -⟩
        · cases hempty
        · cases hone
          rw [hsame, hcut] at hlast
          exact hroot (Option.some.inj hlast).symm
        · cases htwo
          exact hslash rfl
      have hdot : name ≠ [dot] := by
        rintro rfl
        rw [heq] at hshape
        rcases hshape with hempty | ⟨c, hone⟩ | ⟨c, d, more, htwo, -, hpair⟩
        · cases hempty
        · cases hone
        · cases htwo
          exact hpair ⟨rfl, rfl⟩
      obtain ⟨c, hc⟩ := body_name (b := name.reverse) (by simpa using hmem) (by simpa using hnil)
        (by simpa using hdot)
      rw [hc, List.dropLast_concat]

theorem bytes_ne_nil {p : Path} (h : p.isAbsolute) : p.bytes ≠ [] := by
  intro hnil
  rw [isAbsolute, hnil] at h
  cases h

theorem isAbsolute_join {p : Path} (h : p.isAbsolute) (q : Path) : (p.join q).isAbsolute := by
  have hne := bytes_ne_nil h
  have hhead (rest : Bytes) : (⟨p.bytes ++ rest⟩ : Path).isAbsolute := by
    rw [isAbsolute, List.head?_append_of_ne_nil _ hne]
    exact h
  unfold join
  split_ifs with hq
  · exact hq
  · split
    · rename_i hlast
      exact absurd (List.getLast?_eq_none_iff.mp hlast) hne
    · split_ifs
      · exact hhead _
      · exact hhead _

theorem exists_cut (b : Bytes) : ∃ front tail, b = front ++ tail ∧ slash ∉ tail ∧
    (front = [] ∨ ∃ init, front = init ++ [slash]) := by
  rcases cut_last b.reverse with ⟨hmem, -⟩ | ⟨name, rest, hmem, heq, -⟩
  · exact ⟨[], b, rfl, by simpa using hmem, .inl rfl⟩
  · refine ⟨rest.reverse ++ [slash], name.reverse, ?_, by simpa using hmem, .inr ⟨_, rfl⟩⟩
    rw [← List.reverse_reverse b, heq]
    simp

theorem components_join_cut {base : Path} (hbase : base.isAbsolute) {front tail : Bytes}
    (hslash : slash ∉ tail) (hfront : front = [] ∨ ∃ init, front = init ++ [slash]) :
    (base.join ⟨front ++ tail⟩).components = (base.join ⟨front⟩).components ++ body tail := by
  have hne := bytes_ne_nil hbase
  rcases hfront with rfl | ⟨init, rfl⟩
  · have htail : (⟨tail⟩ : Path).isAbsolute = false := by
      rw [isAbsolute, beq_eq_false_iff_ne]
      exact fun hhead => hslash (List.mem_of_mem_head? hhead)
    rw [List.nil_append, components_join hne htail, components_join hne rfl, body_nil,
      List.append_nil]
  · have hsame : (⟨init ++ [slash] ++ tail⟩ : Path).isAbsolute =
        (⟨init ++ [slash]⟩ : Path).isAbsolute := by
      rw [isAbsolute, List.head?_append_of_ne_nil _ (by simp)]
      rfl
    by_cases habs : (⟨init ++ [slash]⟩ : Path).isAbsolute
    · rw [join, join, if_pos (hsame.trans habs), if_pos habs, List.append_assoc,
        List.singleton_append, components_append]
    · rw [Bool.not_eq_true] at habs
      rw [components_join hne (hsame.trans habs), components_join hne habs, List.append_assoc,
        List.singleton_append, body_append, body_append, body_nil, List.append_nil,
        List.append_assoc]

theorem join_cancel {p q r : Path} (hq : q.isAbsolute = false) (hr : r.isAbsolute = false)
    (h : p.join q = p.join r) : q = r := by
  obtain ⟨q⟩ := q
  obtain ⟨r⟩ := r
  unfold join at h
  rw [hq, hr] at h
  simp only [Bool.false_eq_true, if_false] at h
  split at h
  · exact h
  · split_ifs at h
    · rw [List.append_cancel_left (mk.inj h)]
    · rw [(List.cons.inj (List.append_cancel_left (mk.inj h))).2]

/-- A path that leads from another one on, without going up. -/
def Inside (p q : Path) : Prop :=
  ∃ rest, q.components = p.components ++ rest ∧ ∀ c ∈ rest, c ≠ .root ∧ c ≠ .parent

namespace Inside

theorem refl (p : Path) : p.Inside p := ⟨[], by simp, by simp⟩

/-- The parent is still inside, unless the path has the components of the outer one. -/
theorem parent {p q above : Path} (h : p.Inside q) (hup : q.parent = some above) :
    q.components = p.components ∨ p.Inside above := by
  obtain ⟨rest, heq, hplain⟩ := h
  rcases List.eq_nil_or_concat rest with rfl | ⟨init, last, rfl⟩
  · exact .inl (by rw [heq, List.append_nil])
  · refine .inr ⟨init, ?_, fun c hc => hplain c (by simp [hc])⟩
    rw [components_parent hup, heq, List.concat_eq_append, ← List.append_assoc,
      List.dropLast_concat]

end Inside

/-- A path that leads to another one or from it on. -/
def Along (p q : Path) : Prop := q.components <+: p.components ∨ p.Inside q

theorem Inside.parent_along {p q above : Path} (h : p.Inside q) (hup : q.parent = some above) :
    p.Along above := by
  rcases h.parent hup with hsame | hinside
  · left
    rw [components_parent hup, hsame]
    exact List.dropLast_prefix _
  · exact .inr hinside

end Path

/-- A path that does not escape stays inside the root it is joined to. -/
theorem Scope.path_inside {s : Scope} {relative path : Path} (h : s.path relative = .ok path) :
    s.root.Inside path := by
  unfold Scope.path at h
  split at h
  · cases h
  · rename_i hescapes
    cases h
    have hplain : ∀ c ∈ relative.components, c ≠ .root ∧ c ≠ .parent := by
      intro c hc
      have hno := List.any_eq_false.mp (Bool.not_eq_true _ ▸ hescapes) c hc
      cases c <;> simp_all
    have hrel : relative.isAbsolute = false := by
      by_contra habs
      have hmem : Path.Component.root ∈ relative.components := by
        unfold Path.components
        rw [if_pos (by simpa using habs)]
        exact List.mem_cons_self
      exact (hplain _ hmem).1 rfl
    by_cases hempty : s.root.bytes = []
    · have hroot : s.root = ⟨[]⟩ := by rw [← hempty]
      refine ⟨relative.components, ?_, hplain⟩
      rw [hroot, Path.join, hrel]
      rfl
    · refine ⟨Path.body relative.bytes, Path.components_join hempty hrel, fun c hc => ?_⟩
      refine hplain c ?_
      rw [Path.components_eq]
      exact List.mem_append_right _ hc

end SmokeBench
