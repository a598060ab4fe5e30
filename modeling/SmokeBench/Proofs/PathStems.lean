import SmokeBench.Proofs.Places

/-! Where paths stand in one another as bytes. A parent is the front of its path up to a separator,
and what is joined to a path stands behind one. So the paths that are tried on the way up from a
path below a root either lead on from the root along some of the same names, or they stand in the
root. -/

namespace SmokeBench

open Bytes (slash dot)

namespace Path

variable {p q above target root relative : Path}

section Parents

theorem eq_nil_of_trimTail {rest : Bytes} (h : trimTail (slash :: rest) = slash :: rest) :
    rest = [] := by
  rcases trimTail_shape (slash :: rest) with hnil | ⟨c, hone⟩ | ⟨c, d, more, htwo, hc, -⟩
  · rw [h] at hnil
    cases hnil
  · rw [h] at hone
    exact (List.cons.inj hone).2
  · rw [h] at htwo
    exact absurd (List.cons.inj htwo).1.symm hc

/-- What is trimmed from the end of a path starts with a separator. -/
theorem trimTail_cut (b : Bytes) :
    trimTail b = b ∨ trimTail b = [slash] ∨ ∃ cut, b = cut ++ slash :: trimTail b := by
  fun_induction trimTail b with
  | case1 => exact .inl rfl
  | case2 c => exact .inl rfl
  | case3 d rest ih =>
    rcases ih with hsame | hslash | ⟨cut, hcut⟩
    · exact .inr (.inr ⟨[], by rw [hsame, List.nil_append]⟩)
    · exact .inr (.inl hslash)
    · exact .inr (.inr ⟨slash :: cut, congrArg (slash :: ·) hcut⟩)
  | case4 c d rest hslash hdot ih =>
    obtain ⟨rfl, rfl⟩ := hdot
    rcases ih with hsame | hslash | ⟨cut, hcut⟩
    · exact .inr (.inl (by rw [hsame, eq_nil_of_trimTail hsame]))
    · exact .inr (.inl hslash)
    · exact .inr (.inr ⟨dot :: cut, congrArg (dot :: ·) hcut⟩)
  | case5 c d rest hslash hdot => exact .inl rfl

/-- A path stands at the front of another one, which has more components behind a separator; or it
is no more than a start. -/
def Fronts (target p : Path) : Prop :=
  p.bytes = [] ∨ p.bytes = [slash] ∨
    ∃ more, target.bytes = p.bytes ++ slash :: more ∧ body more ≠ []

/-- The bytes of a parent stand before a separator, or they are next to nothing. -/
theorem bytes_parent (h : p.parent = some above) :
    above.bytes = [] ∨ above.bytes = [slash] ∨ ∃ more, p.bytes = above.bytes ++ slash :: more := by
  obtain ⟨b⟩ := p
  unfold parent at h
  dsimp only at h ⊢
  split at h
  · cases h
  · cases h
  cases h
  dsimp only
  generalize habove : trimTail ((trimTail b.reverse).dropWhile (· != slash)) = up
  suffices hmore : up = [] ∨ up = [slash] ∨ ∃ cut, b.reverse = cut ++ slash :: up by
    rcases hmore with rfl | rfl | ⟨cut, hcut⟩
    · exact .inl rfl
    · exact .inr (.inl rfl)
    · exact .inr (.inr ⟨cut.reverse, List.reverse_injective (by rw [hcut]; simp)⟩)
  subst habove
  rcases cut_last (trimTail b.reverse) with ⟨-, hdrop⟩ | ⟨name, rest, -, hname, hdrop⟩
  · exact .inl (by rw [hdrop]; rfl)
  rw [hdrop]
  rcases trimTail_cut (slash :: rest) with hsame | hslash | ⟨cut, hcut⟩
  · exact .inr (.inl (by rw [hsame, eq_nil_of_trimTail hsame]))
  · exact .inr (.inl hslash)
  rw [hcut] at hname
  rcases trimTail_cut b.reverse with hsame | hslash | ⟨tail, htail⟩
  · exact .inr (.inr ⟨name ++ cut, by rw [← hsame, hname, List.append_assoc]⟩)
  · left
    rw [hslash] at hname
    have hlength := congrArg List.length hname
    simp only [List.length_append, List.length_cons, List.length_nil] at hlength
    exact List.eq_nil_of_length_eq_zero (by omega)
  · refine .inr (.inr ⟨tail ++ slash :: (name ++ cut), ?_⟩)
    rw [hname] at htail
    rw [htail]
    simp

theorem fronts_parent (h : p.parent = some above) : p.Fronts above := by
  rcases bytes_parent h with hempty | hslash | ⟨more, hmore⟩
  · exact .inl hempty
  · exact .inr (.inl hslash)
  by_cases hempty : above.bytes = []
  · exact .inl hempty
  refine .inr (.inr ⟨more, hmore, fun hbody => ?_⟩)
  -- otherwise the parent would have as many components as the path
  have hsame : p.components = above.components := by
    obtain ⟨b⟩ := p
    dsimp only at hmore
    rw [hmore, components_append, components_trailing hempty, hbody, List.append_nil]
  have hlength := congrArg List.length (hsame.trans (components_parent h))
  rw [List.length_dropLast] at hlength
  have hnil : p.components = [] := List.eq_nil_of_length_eq_zero (by omega)
  unfold parent at h
  rw [hnil] at h
  cases h

theorem Fronts.up (h : target.Fronts p) (hup : p.parent = some above) : target.Fronts above := by
  rcases fronts_parent hup with hempty | hslash | ⟨more, hmore, hbody⟩
  · exact .inl hempty
  · exact .inr (.inl hslash)
  rcases h with hempty | hslash | ⟨more', htarget, -⟩
  · rw [hempty] at hmore
    simp at hmore
  · rw [hslash] at hmore
    have hlength := congrArg List.length hmore
    simp only [List.length_append, List.length_cons, List.length_nil] at hlength
    exact .inl (List.eq_nil_of_length_eq_zero (by omega))
  · refine .inr (.inr ⟨more ++ slash :: more', by rw [htarget, hmore]; simp, ?_⟩)
    rw [body_append]
    exact List.append_ne_nil_of_left_ne_nil hbody _

theorem ClimbsTo.fronts (h : target.ClimbsTo p) : p = target ∨ target.Fronts p := by
  induction h with
  | here => exact .inl rfl
  | up _ hup ih =>
    rcases ih with rfl | hfronts
    · exact .inr (fronts_parent hup)
    · exact .inr (hfronts.up hup)

theorem Fronts.climb (h : target.Fronts p) (hq : p.ClimbsTo q) : target.Fronts q := by
  induction hq with
  | here => exact h
  | up _ hup ih => exact ih.up hup

end Parents

section Stems

def stem (p : Path) : Bytes := if p.bytes.getLast? = some slash then p.bytes.dropLast else p.bytes

theorem bytes_stem (p : Path) : p.bytes = p.stem ∨ p.bytes = p.stem ++ [slash] := by
  unfold stem
  split_ifs with hlast
  · refine .inr ?_
    rw [List.dropLast_append_getLast? _ hlast]
  · exact .inl rfl

theorem bytes_join (hroot : root.bytes ≠ []) (hrelative : relative.isAbsolute = false) :
    (root.join relative).bytes = root.stem ++ slash :: relative.bytes := by
  unfold join stem
  rw [hrelative, if_neg Bool.false_ne_true]
  obtain ⟨init, last, hlast⟩ : ∃ init last, root.bytes = init ++ [last] :=
    ⟨_, _, (List.dropLast_append_getLast hroot).symm⟩
  rw [hlast, List.getLast?_concat]
  by_cases hslash : last = slash
  · simp [hslash]
  · simp [hslash]

theorem names_eq_of_bytes (hrelative : ¬ relative.Strays) {front more : Bytes}
    (hbytes : relative.bytes = front ++ slash :: more) :
    [dot, dot] ∉ (⟨front⟩ : Path).pieces ∧ [dot, dot] ∉ (⟨more⟩ : Path).pieces ∧
      relative.names = (⟨front⟩ : Path).pieces.filter (· ∉ signs) ++
        (⟨more⟩ : Path).pieces.filter (· ∉ signs) := by
  have hup : [dot, dot] ∉ relative.pieces := fun h => hrelative (.inr h)
  have hpieces : relative.pieces = (⟨front⟩ : Path).pieces ++ (⟨more⟩ : Path).pieces := by
    unfold pieces
    rw [hbytes, List.splitOn_append_cons_self]
  rw [hpieces, List.mem_append, not_or] at hup
  rw [names_of_not_strays hrelative, hpieces, List.filter_append]
  exact ⟨hup.1, hup.2, rfl⟩

/-- A path on the way to the root, or on from it along some of the names. -/
def Reaches (root : Path) (names : List Bytes) (p : Path) : Prop :=
  p.bytes = [] ∨ p.bytes = [slash] ∨ (∃ more, root.stem ++ [slash] = p.bytes ++ slash :: more) ∨
    ∃ more : Path, p.bytes = root.stem ++ slash :: more.bytes ∧ [dot, dot] ∉ more.pieces ∧
      more.pieces.filter (· ∉ signs) <+: names

theorem reaches_join (hroot : root.bytes ≠ []) (hrelative : ¬ relative.Strays) :
    root.Reaches relative.names (root.join relative) := by
  refine .inr (.inr (.inr ⟨relative, bytes_join hroot ?_, fun h => hrelative (.inr h), ?_⟩))
  · exact Bool.eq_false_iff.mpr fun h => hrelative (.inl h)
  · exact (names_of_not_strays hrelative) ▸ List.prefix_refl _

theorem names_ne_nil_of_body {b : Bytes} (hbody : body b ≠ []) (hup : [dot, dot] ∉ pieces ⟨b⟩) :
    (⟨b⟩ : Path).pieces.filter (· ∉ signs) ≠ [] := by
  obtain ⟨c, hc⟩ := List.exists_mem_of_ne_nil _ hbody
  rw [body_eq ⟨b⟩, List.mem_filterMap] at hc
  obtain ⟨x, hx, hcomponent⟩ := hc
  refine List.ne_nil_of_mem (List.mem_filter.mpr ⟨hx, ?_⟩)
  rcases componentOf_cases x with ⟨hnone, -⟩ | ⟨-, rfl⟩ | ⟨-, hname⟩
  · rw [hnone] at hcomponent
    cases hcomponent
  · exact absurd hx hup
  · exact decide_eq_true hname

theorem reaches_of_fronts (hroot : root.bytes ≠ []) (hrelative : ¬ relative.Strays)
    (h : (root.join relative).Fronts p) : root.Reaches relative.names.dropLast p := by
  rcases h with hempty | hslash | ⟨more, hmore, hbody⟩
  · exact .inl hempty
  · exact .inr (.inl hslash)
  rw [bytes_join hroot (Bool.eq_false_iff.mpr fun h => hrelative (.inl h))] at hmore
  rcases List.append_eq_append_iff.mp hmore with ⟨more', hp, hcons⟩ | ⟨more', hstem, hcons⟩
  · cases more' with
    | nil => exact .inr (.inr (.inl ⟨[], by rw [hp, List.append_nil]⟩))
    | cons c front =>
      obtain ⟨rfl, hbytes⟩ := List.cons.inj hcons
      obtain ⟨hup, hup', hnames⟩ := names_eq_of_bytes hrelative hbytes
      refine .inr (.inr (.inr ⟨⟨front⟩, hp, hup, ?_⟩))
      rw [hnames]
      refine Shelf.prefix_dropLast (List.prefix_append _ _) ?_
      rw [ne_eq, List.self_eq_append_right]
      exact names_ne_nil_of_body hbody hup'
  · refine .inr (.inr (.inl ?_))
    cases more' with
    | nil => exact ⟨[], by rw [hstem, List.append_nil]⟩
    | cons c rest =>
      obtain ⟨rfl, -⟩ := List.cons.inj hcons
      exact ⟨rest ++ [slash], by rw [hstem, List.append_assoc, List.cons_append]⟩

theorem Reaches.mono {names names' : List Bytes} (h : root.Reaches names p)
    (hnames : names <+: names') : root.Reaches names' p := by
  rcases h with hempty | hslash | hfront | ⟨more, hp, hup, hmore⟩
  · exact .inl hempty
  · exact .inr (.inl hslash)
  · exact .inr (.inr (.inl hfront))
  · exact .inr (.inr (.inr ⟨more, hp, hup, hmore.trans hnames⟩))

end Stems

end Path

end SmokeBench
