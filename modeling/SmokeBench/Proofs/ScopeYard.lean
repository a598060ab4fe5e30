import SmokeBench.Proofs.ScopeTenants

/-! Many scopes below one directory. Each goes on by one request at a time and in any order, and
between two requests the files may change from outside. A new scope takes a name where nothing is, so
it takes none from a scope that is there. What is removed then is below the root of the one scope that
is left, and each scope is left once. -/

namespace SmokeBench

open Dialogue

variable {σ ν : Type}

/-- What happens next: a scope is asked for, put to use or goes on by one request, or the files change
from outside. -/
inductive Move (σ : Type)
  | arrive (namePrefix : String)
  | use (i : Nat) (u : Use)
  | go (i : Nat)
  | outside (change : σ → σ)

/-- The files, and all scopes that were ever asked for. -/
structure Yard (σ : Type) where
  world : σ
  tenants : List Tenant

namespace Yard

variable (site : Site σ ν) (host : Host σ)

/-- Whether a live scope loses its root by a change from outside. -/
def robs (site : Site σ ν) (s s' : σ) (t : Tenant) : Bool :=
  t.live.any fun root => (site.node s (site.spot root)).isSome &&
    (site.node s' (site.spot root)).isNone

def step (y : Yard σ) : Move σ → Yard σ
  | .arrive namePrefix =>
    { y with tenants := y.tenants ++ [.arriving site.parent namePrefix] }
  | .use i u =>
    match y.tenants[i]? with
    | some t => { y with tenants := y.tenants.set i (t.use u) }
    | none => y
  | .go i =>
    match y.tenants[i]? with
    | some t => ⟨(t.go host y.world).2, y.tenants.set i (t.go host y.world).1⟩
    | none => y
  | .outside change =>
    ⟨change y.world, y.tenants.map fun t =>
      { t with robbed := t.robbed || robs site y.world (change y.world) t }⟩

/-- A prefix has no separator, and a new scope is not given the root of a live scope that was taken
away from outside. -/
def Allows (y : Yard σ) : Move σ → Prop
  | .arrive namePrefix => '/' ∉ namePrefix.toList
  | .go i => ∀ t ∈ y.tenants[i]?, t.live = none → ∀ root ∈ (t.go host y.world).1.live,
      ∀ u ∈ y.tenants, u.robbed → u.live ≠ some root
  | _ => True

def run (y : Yard σ) (moves : List (Move σ)) : Yard σ := moves.foldl (step site host) y

def AllowsAll : Yard σ → List (Move σ) → Prop
  | _, [] => True
  | y, m :: rest => y.Allows host m ∧ AllowsAll (y.step site host m) rest

variable {site host} {y : Yard σ}

/-- The journals are as the stages say, the roots of live scopes are there unless they were taken
away from outside, and no two live scopes have one root. -/
structure Sound (site : Site σ ν) (y : Yard σ) : Prop where
  fits : ∀ (i : Nat) (t : Tenant), y.tenants[i]? = some t → t.Fits site
  there : ∀ (i : Nat) (t : Tenant), y.tenants[i]? = some t → t.robbed = false → ∀ root,
    t.live = some root → (site.node y.world (site.spot root)).isSome
  apart : ∀ (i j : Nat) (t u : Tenant) (root : Path), i ≠ j → y.tenants[i]? = some t →
    y.tenants[j]? = some u → t.live = some root → u.live ≠ some root

theorem set_cases {ts : List Tenant} {i j : Nat} {t u : Tenant}
    (h : (ts.set i t)[j]? = some u) : (j = i ∧ u = t) ∨ (j ≠ i ∧ ts[j]? = some u) := by
  rw [List.getElem?_set] at h
  split at h
  · rename_i heq
    split at h
    · exact .inl ⟨heq.symm, (Option.some.inj h).symm⟩
    · cases h
  · rename_i hne
    exact .inr ⟨fun heq => hne heq.symm, h⟩

theorem Sound.replace (h : y.Sound site) {i : Nat} {t : Tenant} {s : σ} (hfits : t.Fits site)
    (hthere : t.robbed = false → ∀ root, t.live = some root →
      (site.node s (site.spot root)).isSome)
    (hothers : ∀ (j : Nat) (u : Tenant), j ≠ i → y.tenants[j]? = some u → u.robbed = false →
      ∀ root, u.live = some root → (site.node s (site.spot root)).isSome)
    (hapart : ∀ (j : Nat) (u : Tenant) (root : Path), j ≠ i → y.tenants[j]? = some u →
      t.live = some root → u.live ≠ some root) :
    Sound site ⟨s, y.tenants.set i t⟩ where
  fits j u hu := by
    rcases set_cases hu with ⟨-, rfl⟩ | ⟨-, hu⟩
    · exact hfits
    · exact h.fits j u hu
  there j u hu := by
    rcases set_cases hu with ⟨-, rfl⟩ | ⟨hj, hu⟩
    · exact hthere
    · exact hothers j u hj hu
  apart j k u v root hjk hu hv hroot := by
    rcases set_cases hu with ⟨hj, hut⟩ | ⟨hj, hu'⟩
    · rcases set_cases hv with ⟨hk, -⟩ | ⟨hk, hv'⟩
      · exact absurd (hj.trans hk.symm) hjk
      · exact hapart k v root hk hv' (hut ▸ hroot)
    · rcases set_cases hv with ⟨-, hvt⟩ | ⟨hk, hv'⟩
      · exact fun hlive => hapart j u root hj hu' (hvt ▸ hlive) hroot
      · exact h.apart j k u v root hjk hu' hv' hroot

theorem Sound.arrive (h : y.Sound site) {namePrefix : String}
    (hslash : '/' ∉ namePrefix.toList) : (y.step site host (.arrive namePrefix)).Sound site := by
  have hnew : (Tenant.arriving site.parent namePrefix).live = none := Tenant.arriving_live hslash
  have hcases {i : Nat} {t : Tenant}
      (ht : (y.tenants ++ [Tenant.arriving site.parent namePrefix])[i]? = some t) :
      y.tenants[i]? = some t ∨ t = .arriving site.parent namePrefix := by
    rw [List.getElem?_append] at ht
    split at ht
    · exact .inl ht
    · exact .inr (List.mem_singleton.mp (List.mem_of_getElem? ht))
  constructor
  · intro i t ht
    rcases hcases ht with ht | rfl
    · exact h.fits i t ht
    · exact Tenant.arriving_fits hslash
  · intro i t ht hrobbed root hlive
    rcases hcases ht with ht | rfl
    · exact h.there i t ht hrobbed root hlive
    · cases hnew.symm.trans hlive
  · intro i j t u root hij ht hu hroot hlive
    rcases hcases ht with ht | rfl
    · rcases hcases hu with hu | rfl
      · exact h.apart i j t u root hij ht hu hroot hlive
      · cases hnew.symm.trans hlive
    · cases hnew.symm.trans hroot

theorem step_use {i : Nat} {t : Tenant} (ht : y.tenants[i]? = some t) (u : Use) :
    y.step site host (.use i u) = { y with tenants := y.tenants.set i (t.use u) } := by
  simp only [step, ht]

theorem step_use_none {i : Nat} (hnone : y.tenants[i]? = none) (u : Use) :
    y.step site host (.use i u) = y := by
  simp only [step, hnone]

theorem step_go {i : Nat} {t : Tenant} (ht : y.tenants[i]? = some t) :
    y.step site host (.go i) =
      ⟨(t.go host y.world).2, y.tenants.set i (t.go host y.world).1⟩ := by
  simp only [step, ht]

theorem step_go_none {i : Nat} (hnone : y.tenants[i]? = none) :
    y.step site host (.go i) = y := by
  simp only [step, hnone]

theorem Sound.use (h : y.Sound site) (i : Nat) (u : Use) :
    (y.step site host (.use i u)).Sound site := by
  cases ht : y.tenants[i]? with
  | none => rwa [step_use_none ht]
  | some t =>
    rw [step_use ht]
    obtain ⟨hfits, hlive⟩ := Tenant.use_fits (h.fits i t ht) u
    have hrobbed : (t.use u).robbed = t.robbed := by
      unfold Tenant.use
      split <;> rfl
    refine h.replace hfits ?_ ?_ ?_
    · rw [hlive, hrobbed]
      exact h.there i t ht
    · exact fun j u _ hu => h.there j u hu
    · rw [hlive]
      exact fun j u root hj hu hroot => h.apart i j t u root hj.symm ht hu hroot

theorem Sound.outside (h : y.Sound site) (change : σ → σ) :
    (y.step site host (.outside change)).Sound site := by
  have hcases {i : Nat} {t : Tenant} (ht : (y.step site host (.outside change)).tenants[i]? = some t) :
      ∃ t', y.tenants[i]? = some t' ∧
        t = { t' with robbed := t'.robbed || robs site y.world (change y.world) t' } := by
    obtain ⟨t', ht', rfl⟩ := Option.map_eq_some_iff.mp (List.getElem?_map.symm.trans ht)
    exact ⟨t', ht', rfl⟩
  constructor
  · intro i t ht
    obtain ⟨t', ht', rfl⟩ := hcases ht
    exact h.fits i t' ht'
  · intro i t ht hrobbed root hlive
    obtain ⟨t', ht', rfl⟩ := hcases ht
    obtain ⟨hbefore, hkept⟩ := Bool.or_eq_false_iff.mp hrobbed
    have hthere := h.there i t' ht' hbefore root hlive
    have hlive' : t'.live = some root := hlive
    rw [robs, hlive'] at hkept
    have hstill : (site.node (change y.world) (site.spot root)).isSome := by
      simpa [hthere] using hkept
    exact hstill
  · intro i j t u root hij ht hu hroot
    obtain ⟨t', ht', rfl⟩ := hcases ht
    obtain ⟨u', hu', rfl⟩ := hcases hu
    exact h.apart i j t' u' root hij ht' hu' hroot

theorem Sound.go (kept : site.KeptBy host) (h : y.Sound site) {i : Nat}
    (hallows : y.Allows host (.go i)) : (y.step site host (.go i)).Sound site := by
  cases ht : y.tenants[i]? with
  | none => rwa [step_go_none ht]
  | some t =>
    rw [step_go ht]
    have hfits := h.fits i t ht
    obtain ⟨hturn, hnext⟩ := Tenant.go_turn kept.replies hfits y.world
    have hrobbed : (t.go host y.world).1.robbed = t.robbed := by
      unfold Tenant.go
      split <;> rfl
    cases hturn with
    | idle heq =>
      rw [heq]
      exact h.replace hfits (h.there i t ht) (fun j u _ => h.there j u)
        fun j u root hj hu hroot => h.apart i j t u root hj.symm ht hu hroot
    | worked r hr hstate hlive =>
      refine h.replace hnext ?_ ?_ ?_
      · rw [hlive, hrobbed, hstate]
        exact fun hnot root hroot => kept.stays r _ _ hr (h.there i t ht hnot root hroot)
      · rw [hstate]
        exact fun j u _ hu hnot root hroot => kept.stays r _ _ hr (h.there j u hu hnot root hroot)
      · rw [hlive]
        exact fun j u root hj hu hroot => h.apart i j t u root hj.symm ht hu hroot
    | entered root hlot hmade hstate hout hlive =>
      refine h.replace hnext ?_ ?_ ?_
      · rw [hlive, hstate]
        rintro - p ⟨⟩
        exact kept.made root _ hmade
      · rw [hstate]
        exact fun j u _ hu hnot p hp =>
          kept.stays (.makeDir root) _ _ rfl (h.there j u hu hnot p hp)
      · -- a live scope that is there has another root, and one that is not there was robbed
        rw [hlive]
        rintro j u p - hu ⟨⟩ hroot
        cases hnot : u.robbed with
        | true => exact hallows t ht hout root hlive u (List.mem_of_getElem? hu) hnot hroot
        | false =>
          have hthere := h.there j u hu hnot root hroot
          rw [kept.free root _ hmade] at hthere
          cases hthere
    | ended root rest hstage hstate hended =>
      obtain ⟨told, hended⟩ := hended
      have hlive : t.live = some root := congrArg Stage.live hstage
      have hgone : (t.go host y.world).1.live = none := congrArg Stage.live hended
      refine h.replace hnext ?_ ?_ ?_
      · rw [hgone]
        exact fun _ p hp => by cases hp
      · rw [hstate]
        intro j u hj hu hnot p hp
        have hne : root ≠ p := by
          rintro rfl
          exact h.apart i j t u root hj.symm ht hu hlive hp
        have hbelow := kept.not_below (hfits.lot hlive) ((h.fits j u hu).lot hp) hne
          (List.prefix_refl (site.spot p))
        rw [kept.removed root _ _ hbelow]
        exact h.there j u hu hnot p hp
      · rw [hgone]
        exact fun j u p _ _ hp => by cases hp

theorem Sound.step (kept : site.KeptBy host) (h : y.Sound site) {m : Move σ}
    (hallows : y.Allows host m) : (y.step site host m).Sound site := by
  cases m with
  | arrive namePrefix => exact h.arrive hallows
  | use i u => exact h.use i u
  | go i => exact h.go kept hallows
  | outside change => exact h.outside change

theorem Sound.empty (s : σ) : Sound site ⟨s, []⟩ := by
  constructor <;> simp

theorem Sound.run (kept : site.KeptBy host) (h : y.Sound site) {moves : List (Move σ)}
    (hallows : y.AllowsAll site host moves) : (y.run site host moves).Sound site := by
  induction moves generalizing y with
  | nil => exact h
  | cons m rest ih => exact ih (h.step kept hallows.1) hallows.2

def Apart (y : Yard σ) : Prop :=
  ∀ (i j : Nat) (t u : Tenant) (p q : Path), i ≠ j → y.tenants[i]? = some t →
    y.tenants[j]? = some u → t.live = some p → u.live = some q → p ≠ q

variable (site host) in
/-- What a move does to scopes and files. A scope that was left does nothing any more. One that is
being left is gone after its turn, and what is below the roots of the other live scopes is as it was.
And nothing vanishes but what is below the root of a scope that is being left, or what is taken from
outside. -/
structure Spares (y : Yard σ) (m : Move σ) : Prop where
  finished : ∀ (i : Nat) (t : Tenant) root told, y.tenants[i]? = some t → t.stage = .left root told →
    ∃ t', (y.step site host m).tenants[i]? = some t' ∧ t'.stage = t.stage ∧ t'.journal = t.journal
  others : ∀ (i : Nat) (t : Tenant) root rest, m = .go i → y.tenants[i]? = some t →
    t.stage = .leaving root rest →
    (∃ t' told, (y.step site host m).tenants[i]? = some t' ∧ t'.stage = .left root told) ∧
    ∀ (j : Nat) (u : Tenant) (p : Path), j ≠ i → y.tenants[j]? = some u → u.live = some p →
      ∀ place, site.spot p <+: place →
        site.node (y.step site host m).world place = site.node y.world place
  vanished : ∀ place, (∀ change, m ≠ .outside change) → (site.node y.world place).isSome →
    site.node (y.step site host m).world place = none →
    ∃ i t root rest, m = .go i ∧ y.tenants[i]? = some t ∧ t.stage = .leaving root rest ∧
      site.spot root <+: place

theorem left_over (m : Move σ) {i : Nat} {t : Tenant} {root : Path}
    {told : Option (Except ScopeError Unit)} (ht : y.tenants[i]? = some t)
    (hleft : t.stage = .left root told) :
    ∃ t', (y.step site host m).tenants[i]? = some t' ∧ t'.stage = t.stage ∧
      t'.journal = t.journal := by
  have hlt : i < y.tenants.length := (List.getElem?_eq_some_iff.mp ht).1
  have hset {j : Nat} {u v : Tenant} (hu : y.tenants[j]? = some u) (hsame : u.stage = t.stage → v = u) :
      ∃ t', (y.tenants.set j v)[i]? = some t' ∧ t'.stage = t.stage ∧ t'.journal = t.journal := by
    by_cases hij : j = i
    · subst hij
      obtain rfl : u = t := Option.some.inj (hu.symm.trans ht)
      refine ⟨v, List.getElem?_set_self hlt, ?_⟩
      rw [hsame rfl]
      exact ⟨rfl, rfl⟩
    · exact ⟨t, (List.getElem?_set_ne hij).trans ht, rfl, rfl⟩
  cases m with
  | arrive namePrefix => exact ⟨t, (List.getElem?_append_left hlt).trans ht, rfl, rfl⟩
  | use j u =>
    cases hu : y.tenants[j]? with
    | none => exact ⟨t, by rwa [step_use_none hu], rfl, rfl⟩
    | some v =>
      rw [step_use hu]
      exact hset hu fun hv => by rw [Tenant.use, hv, hleft]
  | go j =>
    cases hu : y.tenants[j]? with
    | none => exact ⟨t, by rwa [step_go_none hu], rfl, rfl⟩
    | some v =>
      rw [step_go hu]
      exact hset hu fun hv => by rw [Tenant.go, hv, hleft]; rfl
  | outside change =>
    exact ⟨_, (List.getElem?_map).trans (congrArg _ ht), rfl, rfl⟩

theorem Sound.spares (kept : site.KeptBy host) (h : y.Sound site) (m : Move σ) :
    y.Spares site host m where
  finished i t root told ht hleft := left_over m ht hleft
  others i t root rest hm ht hstage := by
    subst hm
    rw [step_go ht]
    have hlive : t.live = some root := congrArg Stage.live hstage
    have hlt : i < y.tenants.length := (List.getElem?_eq_some_iff.mp ht).1
    obtain ⟨hstate, told, hended⟩ := Tenant.go_leaving (h.fits i t ht) hstage host y.world
    refine ⟨⟨_, told, List.getElem?_set_self hlt, hended⟩, fun j u p hj hu hp place hplace => ?_⟩
    have hne : root ≠ p := by
      rintro rfl
      exact h.apart i j t u root hj.symm ht hu hlive hp
    rw [hstate]
    exact kept.removed root _ place
      (kept.not_below ((h.fits i t ht).lot hlive) ((h.fits j u hu).lot hp) hne hplace)
  vanished place hinside hbefore hafter := by
    have hsame (s : σ) (hs : s = y.world) (hgone : site.node s place = none) : False := by
      rw [← hs, hgone] at hbefore
      cases hbefore
    have hstays {r : Request} (hr : r.keeps)
        (hgone : site.node (host.answer r y.world).2 place = none) : False := by
      have hthere := kept.stays r _ _ hr hbefore
      rw [hgone] at hthere
      cases hthere
    cases m with
    | arrive namePrefix => exact (hsame _ rfl hafter).elim
    | outside change => exact absurd rfl (hinside change)
    | use i u =>
      cases ht : y.tenants[i]? with
      | none => exact (hsame _ (by rw [step_use_none ht]) hafter).elim
      | some t => exact (hsame _ (by rw [step_use ht]) hafter).elim
    | go i =>
      cases ht : y.tenants[i]? with
      | none => exact (hsame _ (by rw [step_go_none ht]) hafter).elim
      | some t =>
        rw [step_go ht] at hafter
        cases (Tenant.go_turn kept.replies (h.fits i t ht) y.world).1 with
        | idle heq =>
          rw [heq] at hafter
          exact (hsame _ rfl hafter).elim
        | worked r hr hstate _ => exact (hstays hr (hstate ▸ hafter)).elim
        | entered root _ _ hstate _ _ => exact (hstays (r := .makeDir root) rfl (hstate ▸ hafter)).elim
        | ended root rest hstage hstate _ =>
          refine ⟨i, t, root, rest, rfl, ht, hstage, ?_⟩
          by_contra hbelow
          dsimp only at hafter
          rw [hstate, kept.removed root _ _ hbelow] at hafter
          exact hsame _ rfl hafter

/-- However scopes below one directory are made, filled, closed and dropped, and whatever is done to
the files from outside: live scopes have roots of their own, each scope is removed once, when it is
left, and nothing else vanishes by it. -/
theorem scopes_removed_once (kept : site.KeptBy host) (s : σ) {moves : List (Move σ)}
    (hallows : AllowsAll site host ⟨s, []⟩ moves) :
    let y := run site host ⟨s, []⟩ moves
    y.Apart ∧ (∀ t ∈ y.tenants, t.RemovedOnce) ∧ ∀ m, y.Spares site host m := by
  have hsound : (run site host ⟨s, []⟩ moves).Sound site := (Sound.empty s).run kept hallows
  refine ⟨?_, ?_, fun m => hsound.spares kept m⟩
  · rintro i j t u p q hij ht hu hp hq rfl
    exact hsound.apart i j t u p hij ht hu hp hq
  · intro t ht
    obtain ⟨i, hi⟩ := List.mem_iff_getElem?.mp ht
    exact (hsound.fits i t hi).removedOnce

end Yard

/-- A shelf on which names are drawn in turn. -/
def Host.lots : Host (List Place × Nat) where
  answer r s := match r with
    | .randomSuffix => (if s.2 % 2 = 0 then "aB3dE9" else "Xy7Zw1", (s.1, s.2 + 1))
    | r => ((Host.shelf.answer r s.1).1, ((Host.shelf.answer r s.1).2, s.2))

namespace Shelf

/-- Scopes in the directory for temporary files. -/
def lots : Site (List Place × Nat) Unit where
  parent := none
  temp := none
  dir := .ofString "/"
  node s q := if There s.1 q then some () else none
  spot := Path.names

theorem node_isSome (s : List Place × Nat) (q : Place) : (lots.node s q).isSome ↔ There s.1 q := by
  by_cases h : There s.1 q <;> simp [lots, h]

theorem lots_keptBy : lots.KeptBy .lots where
  replies r s := by
    cases r with
    | randomSuffix =>
      have hdrawn : RandomName (if s.2 % 2 = 0 then "aB3dE9" else "Xy7Zw1") := by
        split <;> decide
      exact hdrawn
    | environment name => exact fun _ => rfl
    | workingDir => rfl
    | _ => trivial
  child namePrefix suffix hslash hsuffix := by
    have hbase : lots.base.isAbsolute := by decide +kernel
    have hchild := (Scope.named hbase hsuffix).child.mpr hslash
    exact (congrArg (List.filterMap _) hchild).trans List.filterMap_append
  free p s h := by
    have hnot : ¬ There s.1 p.names := put_ok h
    simp [lots, hnot]
  made p s h := (node_isSome _ _).mpr ((put_there s.1 p.names p.names).mpr (.inr ⟨h, rfl⟩))
  stays r s q hr hthere := by
    rw [node_isSome] at hthere ⊢
    cases r with
    | makeDir p => exact put_keeps p.names hthere
    | store p content => exact put_keeps p.names hthere
    | environment name => exact hthere
    | workingDir => exact hthere
    | randomSuffix => exact hthere
    | metadata p => exact hthere
    | _ => cases hr
  removed p s q h := by
    have hsame : There (clear s.1 p.names).2 q ↔ There s.1 q :=
      (clear_there s.1 p.names q).trans (and_iff_left h)
    have hafter : (Host.lots.answer (.removeTree p) s).2.1 = (clear s.1 p.names).2 := rfl
    simp only [lots, hafter, hsame]

/-- Two scopes are made in turn. The root of the first is taken away while it is live. The first is
closed and the second is dropped, and then somebody else makes a directory where the first was. -/
def crowd : List (Move (List Place × Nat)) :=
  let root := (Path.ofString "/tmp/a_aB3dE9").names
  [.arrive "a_", .arrive "b_", .go 0, .go 1, .go 0, .go 1, .go 0, .go 1,
    .outside fun s => ((clear s.1 root).2, s.2),
    .use 0 .close, .use 1 .drop, .go 0, .go 1, .outside fun s => ((put s.1 root).2, s.2), .go 0]

end Shelf

namespace Yard

instance (y : Yard σ) (host : Host σ) (m : Move σ) : Decidable (y.Allows host m) :=
  match m with
  | .arrive namePrefix => inferInstanceAs (Decidable ('/' ∉ namePrefix.toList))
  | .go i => inferInstanceAs (Decidable (∀ t ∈ y.tenants[i]?, t.live = none →
      ∀ root ∈ (t.go host y.world).1.live, ∀ u ∈ y.tenants, u.robbed → u.live ≠ some root))
  | .use _ _ => inferInstanceAs (Decidable True)
  | .outside _ => inferInstanceAs (Decidable True)

instance decidableAllowsAll (site : Site σ ν) (host : Host σ) :
    (y : Yard σ) → (moves : List (Move σ)) → Decidable (y.AllowsAll site host moves)
  | _, [] => inferInstanceAs (Decidable True)
  | y, m :: rest =>
    have := decidableAllowsAll site host (y.step site host m) rest
    inferInstanceAs (Decidable (y.Allows host m ∧ AllowsAll site host _ rest))

theorem scopes_removed_once_crowd :
    AllowsAll Shelf.lots Host.lots ⟨([[Bytes.ofString "tmp"]], 0), []⟩ Shelf.crowd ∧
    let y := run Shelf.lots Host.lots ⟨([[Bytes.ofString "tmp"]], 0), []⟩ Shelf.crowd
    y.tenants.map (·.robbed) = [true, false] ∧
    y.tenants.map (fun t => (removals t.journal).map (·.request)) =
      [[.removeTree (.ofString "/tmp/a_aB3dE9")], [.removeTree (.ofString "/tmp/b_Xy7Zw1")]] ∧
    Shelf.There y.world.1 (Path.ofString "/tmp/a_aB3dE9").names ∧
    y.Apart ∧ (∀ t ∈ y.tenants, t.RemovedOnce) ∧ ∀ m, y.Spares Shelf.lots Host.lots m := by
  have hallows : AllowsAll Shelf.lots Host.lots ⟨([[Bytes.ofString "tmp"]], 0), []⟩ Shelf.crowd := by
    decide +kernel
  exact ⟨hallows, by decide +kernel, by decide +kernel, by decide +kernel,
    scopes_removed_once Shelf.lots_keptBy _ hallows⟩

end Yard

end SmokeBench
