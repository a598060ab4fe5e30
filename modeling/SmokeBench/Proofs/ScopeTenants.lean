import SmokeBench.Proofs.Files
import SmokeBench.Proofs.ScopeNames

/-! A scope and its user, one request at a time. The scope is made, then filled and at last left, by a
close or without one. Its journal tells at each stage what was made and what was removed: nothing is
removed until the scope is left, and then its root is, once. -/

namespace SmokeBench

open Dialogue

/-- Makes nothing vanish. -/
def Request.keeps (r : Request) : Bool := r.founds || r.fills

/-- Where scopes are made: what the parent is found from, what is at each place in each state, and
the place that the root of a scope names. -/
structure Site (σ ν : Type) where
  parent : Option Path
  temp : Option Bytes
  dir : Path
  node : σ → Place → Option ν
  spot : Path → Place

variable {σ ν : Type}

namespace Site

variable (site : Site σ ν)

def base : Path :=
  site.dir.join (site.parent.getD ((site.temp.map Path.mk).getD (.ofString "/tmp")))

/-- The path of a scope with some prefix that has no separator. -/
def Lot (p : Path) : Prop :=
  ∃ namePrefix suffix, '/' ∉ namePrefix.toList ∧ RandomName suffix ∧
    p = site.base.join (.ofString (namePrefix ++ suffix))

/-- Replies as they are given at this site: it stays where it is, and names are drawn. -/
def Replies : (r : Request) → r.Reply → Prop
  | .environment name, value => name = "TMPDIR" → value = site.temp
  | .workingDir, reply => reply = .ok site.dir
  | .randomSuffix, suffix => RandomName suffix
  | _, _ => True

/-- A host answers as the system documents it: nothing is made on a name that is there, and a
removal takes nothing that is not below its path. Scopes are children of their directory. -/
structure KeptBy (host : Host σ) : Prop where
  replies : ∀ r s, site.Replies r (host.answer r s).1
  child : ∀ namePrefix suffix, '/' ∉ namePrefix.toList → RandomName suffix →
    site.spot (site.base.join (.ofString (namePrefix ++ suffix))) =
      site.spot site.base ++ [Bytes.ofString (namePrefix ++ suffix)]
  free : ∀ p s, (host.answer (.makeDir p) s).1 = .ok () → site.node s (site.spot p) = none
  made : ∀ p s, (host.answer (.makeDir p) s).1 = .ok () →
    (site.node (host.answer (.makeDir p) s).2 (site.spot p)).isSome
  stays : ∀ r s q, r.keeps → (site.node s q).isSome → (site.node (host.answer r s).2 q).isSome
  removed : ∀ p s q, ¬ site.spot p <+: q →
    site.node (host.answer (.removeTree p) s).2 q = site.node s q

variable {site}

theorem KeptBy.not_below {host : Host σ} (kept : site.KeptBy host) {p q : Path} (hp : site.Lot p)
    (hq : site.Lot q) (hne : p ≠ q) {place : Place} (hbelow : site.spot q <+: place) :
    ¬ site.spot p <+: place := by
  obtain ⟨pre, suffix, hslash, hrandom, rfl⟩ := hp
  obtain ⟨pre', suffix', hslash', hrandom', rfl⟩ := hq
  intro habove
  rw [kept.child _ _ hslash hrandom] at habove
  rw [kept.child _ _ hslash' hrandom'] at hbelow
  have hsame : site.spot site.base ++ [Bytes.ofString (pre ++ suffix)] =
      site.spot site.base ++ [Bytes.ofString (pre' ++ suffix')] :=
    (List.prefix_of_prefix_length_le habove hbelow (by simp)).eq_of_length (by simp)
  have hname : Bytes.ofString (pre ++ suffix) = Bytes.ofString (pre' ++ suffix') := by
    simpa using hsame
  exact hne (by rw [Path.ofString, Path.ofString, hname])

/-- A scope in the making: it asks for what names it, and the directory that it makes at last is its
own. -/
inductive Founding (site : Site σ ν) : Dialogue (Except ScopeError Scope) → Prop
  | failed (e : ScopeError) : Founding site (.done (.error e))
  | asks {r : Request} {k : r.Reply → Dialogue (Except ScopeError Scope)} (hr : r.keeps)
      (hdigs : r.digs = false) (rest : ∀ reply, site.Replies r reply → Founding site (k reply)) :
      Founding site (.ask r k)
  | makes {p : Path} {k : Except IoError Unit → Dialogue (Except ScopeError Scope)}
      (hlot : site.Lot p) (hmade : k (.ok ()) = .done (.ok ⟨p, true⟩))
      (rest : ∀ e, Founding site (k (.error e))) : Founding site (.ask (.makeDir p) k)

theorem Founding.bind {α : Type} {d : Dialogue α} {Q : α → Prop}
    {f : α → Dialogue (Except ScopeError Scope)}
    (honly : d.Only fun r => r.keeps ∧ r.digs = false) (hgives : d.Gives Q site.Replies)
    (hf : ∀ a, Q a → site.Founding (f a)) : site.Founding (d >>= f) := by
  induction d with
  | done a => exact hf a hgives
  | ask r k ih =>
    exact .asks honly.1.1 honly.1.2 fun reply hreply =>
      ih reply (honly.2 reply) (hgives reply hreply)

theorem createIn_founding (parent : Path) {namePrefix : String} (hslash : '/' ∉ namePrefix.toList)
    (attempts : Nat) :
    site.Founding (Scope.granted parent <$> Scope.createIn site.base namePrefix attempts) := by
  induction attempts with
  | zero => exact .failed _
  | succ attempts ih =>
    refine .asks (r := .randomSuffix) rfl rfl fun suffix hsuffix => ?_
    refine .makes ⟨namePrefix, suffix, hslash, hsuffix, rfl⟩ rfl fun e => ?_
    cases e <;> first | exact ih | exact .failed _

theorem baseOf_found :
    (Scope.baseOf site.parent).Gives (fun found => found.2 = .ok site.base) site.Replies := by
  have hbase (p : Path) : (do
      return (p, ← Scope.anchor p) : Dialogue (Path × Except IoError Path)).Gives
        (fun found => found.2 = .ok (site.dir.join p)) site.Replies := by
    refine Gives.bind (P := fun base => base = .ok (site.dir.join p)) ?_ fun base h => .pure h
    unfold Scope.anchor
    split
    · rename_i habs
      exact .pure (by rw [Path.join, if_pos habs])
    · intro reply hreply
      rw [show reply = .ok site.dir from hreply]
      rfl
  unfold Scope.baseOf base
  cases site.parent with
  | some p => exact hbase p
  | none =>
    have htemp : Scope.systemParent.Gives
        (fun p => p = (site.temp.map Path.mk).getD (.ofString "/tmp")) site.Replies := by
      intro value hvalue
      obtain rfl := hvalue rfl
      cases site.temp <;> rfl
    refine htemp.bind fun p hp => ?_
    rw [hp]
    exact hbase _

theorem create_founding {namePrefix : String}
    (hslash : '/' ∉ namePrefix.toList) :
    site.Founding (Scope.create site.parent namePrefix) := by
  rw [Scope.create_eq]
  have horients (r : Request) (hr : r.orients) : r.keeps ∧ r.digs = false := by
    cases r <;> first | exact ⟨rfl, rfl⟩ | cases hr
  refine Founding.bind ((Scope.baseOf_only site.parent).mono horients) baseOf_found
    fun found hfound => ?_
  rw [hfound]
  exact createIn_founding found.1 hslash _

end Site

/-- What the owner of a scope may do with it. Leaving it hands it over for good. -/
inductive Use
  | createDir (relative : Path)
  | writeFile (relative : Path) (content : Bytes)
  | close
  | drop

/-- How far a scope is in its life. A part that is not over is told by what is left of it; in the end
there is the root that was left, and what a close told of it. -/
inductive Stage
  | founding (rest : Dialogue (Except ScopeError Scope))
  | refused (e : ScopeError)
  | resting (scope : Scope)
  | filling (scope : Scope) (rest : Dialogue (Except ScopeError Path))
  | leaving (root : Path) (rest : Dialogue (Option (Except ScopeError Unit)))
  | left (root : Path) (told : Option (Except ScopeError Unit))

namespace Stage

/-- A part that is over gives way to what it came to. -/
def settle : Stage → Stage
  | founding (.done (.ok scope)) => resting scope
  | founding (.done (.error e)) => refused e
  | filling scope (.done _) => resting scope
  | leaving root (.done told) => left root told
  | stage => stage

def live : Stage → Option Path
  | resting scope | filling scope _ => some scope.root
  | leaving root _ => some root
  | founding _ | refused _ | left _ _ => none

/-- The next request, and how the reply to it is taken. -/
def pending : Stage → Option ((r : Request) × (r.Reply → Stage))
  | founding (.ask r k) => some ⟨r, fun reply => (founding (k reply)).settle⟩
  | filling scope (.ask r k) => some ⟨r, fun reply => (filling scope (k reply)).settle⟩
  | leaving root (.ask r k) => some ⟨r, fun reply => (leaving root (k reply)).settle⟩
  | _ => none

end Stage

/-- A scope that was closed is still dropped. -/
def Scope.closing (scope : Scope) : Dialogue (Option (Except ScopeError Unit)) := do
  let (told, closed) ← scope.close
  discard closed.drop
  return some told

def Scope.dropping (scope : Scope) : Dialogue (Option (Except ScopeError Unit)) := do
  discard scope.drop
  return none

def Use.begin (scope : Scope) : Use → Stage
  | createDir relative => (Stage.filling scope (scope.createDir relative)).settle
  | writeFile relative content => (Stage.filling scope (scope.writeFile relative content)).settle
  | close => (Stage.leaving scope.root scope.closing).settle
  | drop => (Stage.leaving scope.root scope.dropping).settle

/-- A scope with its owner: what the owner has asked for, and whether the root was taken away from
outside while the scope was live. -/
structure Tenant where
  stage : Stage
  robbed : Bool
  journal : List Exchange

namespace Tenant

def live (t : Tenant) : Option Path := t.stage.live

def arriving (parent : Option Path) (namePrefix : String) : Tenant :=
  ⟨(Stage.founding (Scope.create parent namePrefix)).settle, false, []⟩

/-- Only a scope that is not in use can be put to use. -/
def use (t : Tenant) (u : Use) : Tenant :=
  match t.stage with
  | .resting scope => { t with stage := u.begin scope }
  | _ => t

/-- Puts the next request, if there is one. -/
def go (host : Host σ) (t : Tenant) (s : σ) : Tenant × σ :=
  match t.stage.pending with
  | some ⟨r, next⟩ =>
    let (reply, s') := host.answer r s
    ({ t with stage := next reply, journal := t.journal ++ [⟨r, reply⟩] }, s')
  | none => (t, s)

end Tenant

def removals (j : List Exchange) : List Exchange := j.filter (·.request.removes)

theorem removals_keep {r : Request} (hr : r.keeps) (j : List Exchange) (reply : r.Reply) :
    removals (j ++ [⟨r, reply⟩]) = removals j := by
  have hnot : r.removes = false := by cases r <;> first | rfl | cases hr
  simp [removals, hnot]

theorem removals_remove (j : List Exchange) (root : Path) (reply : Except IoError Unit) :
    removals (j ++ [⟨.removeTree root, reply⟩]) = removals j ++ [⟨.removeTree root, reply⟩] := by
  rw [removals, List.filter_append]
  rfl

/-- What a close tells of the removal: it went well if the root is removed or was not there. -/
def TellsOf (reply : Except IoError Unit) (told : Option (Except ScopeError Unit)) : Prop :=
  ∀ result, told = some result → (result = .ok () ↔ reply = .ok () ∨ reply = .error .notFound)

/-- A scope in its last part asks for its removal and for nothing else. -/
def Leaves (root : Path) (rest : Dialogue (Option (Except ScopeError Unit))) : Prop :=
  ∃ k : Except IoError Unit → Dialogue (Option (Except ScopeError Unit)),
    rest = .ask (.removeTree root) k ∧ ∀ reply, ∃ told, k reply = .done told ∧ TellsOf reply told

theorem Scope.closing_leaves {scope : Scope} (hheld : scope.held) :
    Leaves scope.root scope.closing := by
  obtain ⟨root, held⟩ := scope
  obtain rfl : held = true := hheld
  refine ⟨_, rfl, fun reply => ?_⟩
  rcases reply with e | ⟨⟩
  · by_cases hgone : e = .notFound
    · subst hgone
      exact ⟨some (.ok ()), rfl, fun result heq => by simp [← Option.some.inj heq]⟩
    · refine ⟨some (.error (.remove root e)), by cases e <;> first | rfl | exact absurd rfl hgone,
        fun result heq => ?_⟩
      simp [← Option.some.inj heq, hgone]
  · exact ⟨some (.ok ()), rfl, fun result heq => by simp [← Option.some.inj heq]⟩

theorem Scope.dropping_leaves {scope : Scope} (hheld : scope.held) :
    Leaves scope.root scope.dropping := by
  obtain ⟨root, held⟩ := scope
  obtain rfl : held = true := hheld
  refine ⟨_, rfl, fun reply => ⟨none, ?_, fun result heq => by cases heq⟩⟩
  rcases reply with e | ⟨⟩
  · cases e <;> rfl
  · rfl

/-- What the journal of a scope tells at each stage: once it is live its root was made, and the root
was removed if and only if the scope is left. -/
inductive Stage.Fits (site : Site σ ν) (j : List Exchange) : Stage → Prop
  | founding {rest : Dialogue (Except ScopeError Scope)} (h : site.Founding rest)
      (hnone : removals j = []) : Fits site j (.founding rest)
  | refused (e : ScopeError) (hnone : removals j = []) : Fits site j (.refused e)
  | resting {scope : Scope} (hheld : scope.held) (hlot : site.Lot scope.root)
      (hmade : ⟨.makeDir scope.root, .ok ()⟩ ∈ j) (hnone : removals j = []) :
      Fits site j (.resting scope)
  | filling {scope : Scope} {rest : Dialogue (Except ScopeError Path)} (hheld : scope.held)
      (hlot : site.Lot scope.root) (hfills : rest.Only (Request.fills ·))
      (hmade : ⟨.makeDir scope.root, .ok ()⟩ ∈ j) (hnone : removals j = []) :
      Fits site j (.filling scope rest)
  | leaving {root : Path} {rest : Dialogue (Option (Except ScopeError Unit))}
      (hlot : site.Lot root) (hleaves : Leaves root rest) (hmade : ⟨.makeDir root, .ok ()⟩ ∈ j)
      (hnone : removals j = []) : Fits site j (.leaving root rest)
  | left {root : Path} {told : Option (Except ScopeError Unit)} (reply : Except IoError Unit)
      (htells : TellsOf reply told) (hmade : ⟨.makeDir root, .ok ()⟩ ∈ j)
      (hone : removals j = [⟨.removeTree root, reply⟩]) : Fits site j (.left root told)

namespace Stage

variable {site : Site σ ν} {host : Host σ} {j : List Exchange} {stage : Stage}

theorem Fits.settle (h : stage.Fits site j) : stage.settle.Fits site j := by
  cases h with
  | @founding rest h hnone =>
    cases h with
    | failed e => exact .refused e hnone
    | asks hr hdigs rest => exact .founding (.asks hr hdigs rest) hnone
    | makes hlot hmade rest => exact .founding (.makes hlot hmade rest) hnone
  | refused e hnone => exact .refused e hnone
  | resting hheld hlot hmade hnone => exact .resting hheld hlot hmade hnone
  | @filling scope rest hheld hlot hfills hmade hnone =>
    cases rest with
    | done made => exact .resting hheld hlot hmade hnone
    | ask r k => exact .filling hheld hlot hfills hmade hnone
  | leaving hlot hleaves hmade hnone =>
    obtain ⟨k, rfl, hk⟩ := hleaves
    exact .leaving hlot ⟨k, rfl, hk⟩ hmade hnone
  | left reply htells hmade hone => exact .left reply htells hmade hone

theorem Fits.settle_live (h : stage.Fits site j) : stage.settle.live = stage.live := by
  cases h with
  | founding h hnone => cases h <;> rfl
  | @filling scope rest _ _ _ _ _ => cases rest <;> rfl
  | leaving _ hleaves _ _ =>
    obtain ⟨k, rfl, -⟩ := hleaves
    rfl
  | _ => rfl

theorem Fits.lot (h : stage.Fits site j) {root : Path} (hlive : stage.live = some root) :
    site.Lot root := by
  cases h <;> first | cases hlive; assumption | cases hlive

end Stage

namespace Tenant

variable {site : Site σ ν} {host : Host σ} {t : Tenant}

/-- The journal of a scope is as its stage says. -/
def Fits (site : Site σ ν) (t : Tenant) : Prop := t.stage.Fits site t.journal

theorem arriving_fits {namePrefix : String} (hslash : '/' ∉ namePrefix.toList) :
    (arriving site.parent namePrefix).Fits site :=
  Stage.Fits.settle (.founding (Site.create_founding hslash) rfl)

theorem arriving_live {namePrefix : String} (hslash : '/' ∉ namePrefix.toList) :
    (arriving site.parent namePrefix).live = none := by
  have hfits : (Stage.founding (Scope.create site.parent namePrefix)).Fits site [] :=
    .founding (Site.create_founding hslash) rfl
  exact hfits.settle_live

theorem use_fits (h : t.Fits site) (u : Use) : (t.use u).Fits site ∧ (t.use u).live = t.live := by
  obtain ⟨stage, robbed, j⟩ := t
  cases h with
  | @resting scope hheld hlot hmade hnone =>
    have hsettled {begun : Stage} (hbegun : begun.Fits site j) (hlive : begun.live = some scope.root) :
        begun.settle.Fits site j ∧ begun.settle.live = some scope.root :=
      ⟨hbegun.settle, hbegun.settle_live.trans hlive⟩
    cases u with
    | createDir relative =>
      exact hsettled (.filling hheld hlot (scope.createDir_only relative) hmade hnone) rfl
    | writeFile relative content =>
      exact hsettled (.filling hheld hlot (scope.writeFile_only relative content) hmade hnone) rfl
    | close => exact hsettled (.leaving hlot (Scope.closing_leaves hheld) hmade hnone) rfl
    | drop => exact hsettled (.leaving hlot (Scope.dropping_leaves hheld) hmade hnone) rfl
  | founding h hnone => exact ⟨.founding h hnone, rfl⟩
  | refused e hnone => exact ⟨.refused e hnone, rfl⟩
  | filling hheld hlot hfills hmade hnone => exact ⟨.filling hheld hlot hfills hmade hnone, rfl⟩
  | leaving hlot hleaves hmade hnone => exact ⟨.leaving hlot hleaves hmade hnone, rfl⟩
  | left reply htells hmade hone => exact ⟨.left reply htells hmade hone, rfl⟩

/-- What one turn of a scope can come to: nothing, a request that makes nothing vanish, its root, or
its end. -/
inductive Turn (site : Site σ ν) (host : Host σ) (t : Tenant) (s : σ) : Prop
  | idle (h : t.go host s = (t, s))
  | worked (r : Request) (hr : r.keeps) (hstate : (t.go host s).2 = (host.answer r s).2)
      (hlive : (t.go host s).1.live = t.live)
  | entered (root : Path) (hlot : site.Lot root)
      (hmade : (host.answer (.makeDir root) s).1 = .ok ())
      (hstate : (t.go host s).2 = (host.answer (.makeDir root) s).2) (hout : t.live = none)
      (hlive : (t.go host s).1.live = some root)
  | ended (root : Path) (rest : Dialogue (Option (Except ScopeError Unit)))
      (hstage : t.stage = .leaving root rest)
      (hstate : (t.go host s).2 = (host.answer (.removeTree root) s).2)
      (hended : ∃ told, (t.go host s).1.stage = .left root told)

theorem go_turn (hreplies : ∀ r s, site.Replies r (host.answer r s).1) (h : t.Fits site) (s : σ) :
    Turn site host t s ∧ (t.go host s).1.Fits site := by
  obtain ⟨stage, robbed, j⟩ := t
  cases h with
  | @founding rest h hnone =>
    cases h with
    | failed e => exact ⟨.idle rfl, .founding (.failed e) hnone⟩
    | @asks r k hr hdigs rest =>
      have hnext : (Stage.founding (k (host.answer r s).1)).Fits site
          (j ++ [⟨r, (host.answer r s).1⟩]) :=
        .founding (rest _ (hreplies r s)) ((removals_keep hr j _).trans hnone)
      exact ⟨.worked r hr rfl hnext.settle_live, hnext.settle⟩
    | @makes p k hlot hmade rest =>
      rcases hreply : (host.answer (.makeDir p) s).1 with e | ⟨⟩
      · have hnext : (Stage.founding (k (host.answer (.makeDir p) s).1)).Fits site
            (j ++ [⟨.makeDir p, (host.answer (.makeDir p) s).1⟩]) :=
          .founding (hreply ▸ rest e) ((removals_keep rfl j _).trans hnone)
        exact ⟨.worked (.makeDir p) rfl rfl hnext.settle_live, hnext.settle⟩
      · have hstage : (Stage.founding (k (host.answer (.makeDir p) s).1)).settle =
            .resting ⟨p, true⟩ := by rw [hreply, hmade]; rfl
        have hnext : (Stage.resting ⟨p, true⟩).Fits site
            (j ++ [⟨.makeDir p, (host.answer (.makeDir p) s).1⟩]) :=
          .resting rfl hlot (by rw [hreply]; exact List.mem_append_right _ (List.mem_singleton_self _))
            ((removals_keep rfl j _).trans hnone)
        refine ⟨.entered p hlot hreply rfl rfl (congrArg Stage.live hstage), ?_⟩
        rwa [← hstage] at hnext
  | refused e hnone => exact ⟨.idle rfl, .refused e hnone⟩
  | resting hheld hlot hmade hnone => exact ⟨.idle rfl, .resting hheld hlot hmade hnone⟩
  | @filling scope rest hheld hlot hfills hmade hnone =>
    cases rest with
    | done made => exact ⟨.idle rfl, .filling hheld hlot hfills hmade hnone⟩
    | ask r k =>
      have hr : r.keeps := by rw [Request.keeps, hfills.1, Bool.or_true]
      have hnext : (Stage.filling scope (k (host.answer r s).1)).Fits site
          (j ++ [⟨r, (host.answer r s).1⟩]) :=
        .filling hheld hlot (hfills.2 _) (List.mem_append_left _ hmade)
          ((removals_keep hr j _).trans hnone)
      exact ⟨.worked r hr rfl hnext.settle_live, hnext.settle⟩
  | @leaving root rest hlot hleaves hmade hnone =>
    obtain ⟨k, rfl, hk⟩ := hleaves
    obtain ⟨told, htold, htells⟩ := hk (host.answer (.removeTree root) s).1
    have hstage : (Stage.leaving root (k (host.answer (.removeTree root) s).1)).settle =
        .left root told := by rw [htold]; rfl
    have hnext : (Stage.left root told).Fits site
        (j ++ [⟨.removeTree root, (host.answer (.removeTree root) s).1⟩]) :=
      .left _ htells (List.mem_append_left _ hmade)
        ((removals_remove j root _).trans (congrArg (· ++ _) hnone))
    refine ⟨.ended root _ rfl rfl ⟨told, hstage⟩, ?_⟩
    rwa [← hstage] at hnext
  | left reply htells hmade hone => exact ⟨.idle rfl, .left reply htells hmade hone⟩

/-- The turn of a scope that is being left is its last. -/
theorem go_leaving (h : t.Fits site) {root : Path}
    {rest : Dialogue (Option (Except ScopeError Unit))} (hstage : t.stage = .leaving root rest)
    (host : Host σ) (s : σ) : (t.go host s).2 = (host.answer (.removeTree root) s).2 ∧
      ∃ told, (t.go host s).1.stage = .left root told := by
  obtain ⟨stage, robbed, j⟩ := t
  obtain rfl : stage = .leaving root rest := hstage
  cases h with
  | leaving hlot hleaves hmade hnone =>
    obtain ⟨k, rfl, hk⟩ := hleaves
    obtain ⟨told, htold, -⟩ := hk (host.answer (.removeTree root) s).1
    refine ⟨rfl, told, ?_⟩
    have hlast : (Stage.leaving root (k (host.answer (.removeTree root) s).1)).settle =
        .left root told := by rw [htold]; rfl
    exact hlast

end Tenant

/-- A scope is removed once in its life, when it is left. The root that was made is removed, and a
close tells whether that went well. -/
def Tenant.RemovedOnce (t : Tenant) : Prop :=
  match t.stage with
  | .left root told => ⟨.makeDir root, .ok ()⟩ ∈ t.journal ∧
      ∃ reply, removals t.journal = [⟨.removeTree root, reply⟩] ∧ TellsOf reply told
  | _ => removals t.journal = []

theorem Tenant.Fits.removedOnce {site : Site σ ν} {t : Tenant} (h : t.Fits site) :
    t.RemovedOnce := by
  obtain ⟨stage, robbed, j⟩ := t
  cases h with
  | left reply htells hmade hone => exact ⟨hmade, reply, hone, htells⟩
  | _ => assumption

end SmokeBench
