import SmokeBench.Proofs.Lines
import SmokeBench.Proofs.Requests
import SmokeBench.Proofs.Sink

/-! What the bench tells of a failure. Its messages name paths, arguments and causes, and where none
of these has a line feed, neither has a message. A host is plain if its replies have none, and what
a dialogue comes to on such a host is found by going through its requests, whatever the replies. -/

namespace SmokeBench

open Dialogue

variable {σ α β ε : Type}

/-- A result that is as wanted, or an error that is told in one line. -/
def Told (message : ε → String) (Q : α → Prop) : Except ε α → Prop
  | .ok a => Q a
  | .error e => OneLine (message e)

/-- A reply without a line feed in what the bench may tell of it. -/
def Request.Plain : (r : Request) → r.Reply → Prop
  | .makeDir _, reply | .store _ _, reply => Told IoError.message (fun _ => True) reply
  | .spawn _ _, reply => Told IoError.message (fun _ => True) reply
  | .awaitExit _ _, reply | .pollExit _, reply => Told IoError.message (fun _ => True) reply
  | .workingDir, reply => Told IoError.message Path.OneLine reply
  | .randomSuffix, suffix => OneLine suffix
  | .environment _, value => ∀ b, value = some b → Bytes.lineFeed ∉ b
  | _, _ => True

def Host.Plain (host : Host σ) : Prop := ∀ (r : Request) s, r.Plain (host.answer r s).1

namespace Dialogue

/-- Whatever replies of this kind a dialogue gets, it comes to a result with this property. -/
def Gives (Q : α → Prop) (R : (r : Request) → r.Reply → Prop := Request.Plain) :
    Dialogue α → Prop
  | done a => Q a
  | ask r k => ∀ reply, R r reply → (k reply).Gives Q R

namespace Gives

variable {P Q : α → Prop} {S : β → Prop} {R : (r : Request) → r.Reply → Prop}

theorem pure {a : α} (h : Q a) : (Pure.pure a : Dialogue α).Gives Q R := h

theorem ask {r : Request} {Q : r.Reply → Prop} (h : ∀ reply, R r reply → Q reply) :
    (SmokeBench.ask r).Gives Q R := h

theorem bind {d : Dialogue α} {f : α → Dialogue β} (hd : d.Gives P R)
    (hf : ∀ a, P a → (f a).Gives S R) : (d >>= f).Gives S R := by
  induction d with
  | done a => exact hf a hd
  | ask r k ih => exact fun reply h => ih reply (hd reply h)

theorem map {d : Dialogue α} {f : α → β} (hd : d.Gives P R) (hf : ∀ a, P a → S (f a)) :
    (f <$> d).Gives S R := by
  rw [← bind_pure_comp]
  exact hd.bind fun a h => .pure (hf a h)

theorem mono {d : Dialogue α} (hd : d.Gives P R) (h : ∀ a, P a → Q a) : d.Gives Q R := by
  induction d with
  | done a => exact h a hd
  | ask r k ih => exact fun reply hr => ih reply (hd reply hr)

theorem anything (d : Dialogue α) : d.Gives (fun _ => True) R := by
  induction d with
  | done a => trivial
  | ask r k ih => exact fun reply _ => ih reply

theorem plain {d : Dialogue α} (hd : d.Gives Q fun _ _ => True) : d.Gives Q := by
  induction d with
  | done a => exact hd
  | ask r k ih => exact fun reply _ => ih reply (hd reply trivial)

theorem run (host : Host σ) (hhost : ∀ r s, R r (host.answer r s).1) {d : Dialogue α}
    (hd : d.Gives Q R) (s : σ) : Q (d.run host s).1 := by
  induction d generalizing s with
  | done a => exact hd
  | ask r k ih => exact ih _ (hd _ (hhost r s)) _

end Gives

end Dialogue

/-- Every error of a dialogue is told in one line. -/
abbrev Dialogue.Explains (message : ε → String) (d : Dialogue (Except ε α)) : Prop :=
  d.Gives (Told message fun _ => True)

namespace ScopeError

variable {p : Path} {cause : IoError}

theorem oneLine_create (hp : p.OneLine) (hcause : OneLine cause.message) :
    OneLine (create p cause).message := by
  unfold message
  simp only [oneLine_append]
  exact ⟨⟨⟨.chars (by decide), hp.display⟩, .chars (by decide)⟩, hcause⟩

theorem oneLine_escape (hp : p.OneLine) : OneLine (escape p).message := by
  unfold message
  simp only [oneLine_append]
  exact ⟨⟨.chars (by decide), hp.display⟩, .chars (by decide)⟩

theorem oneLine_prepare (hp : p.OneLine) (hcause : OneLine cause.message) :
    OneLine (prepare p cause).message := by
  unfold message
  simp only [oneLine_append]
  exact ⟨⟨⟨.chars (by decide), hp.display⟩, .chars (by decide)⟩, hcause⟩

end ScopeError

namespace RunError

variable {p : Path} {cause : IoError}

theorem oneLine_spawn (hp : p.OneLine) {args : List String} (hargs : ∀ a ∈ args, OneLine a)
    (hcause : OneLine cause.message) : OneLine (spawn p args cause).message := by
  have hlist : OneLine (String.intercalate " " args) :=
    oneLine_intercalate (.chars (by decide)) hargs
  unfold message
  simp only [oneLine_append]
  exact ⟨⟨⟨⟨⟨.chars (by decide), hp.display⟩, .chars (by decide)⟩, hlist⟩, .chars (by decide)⟩, hcause⟩

theorem oneLine_wait (hp : p.OneLine) (hcause : OneLine cause.message) :
    OneLine (wait p cause).message := by
  unfold message
  simp only [oneLine_append]
  exact ⟨⟨⟨.chars (by decide), hp.display⟩, .chars (by decide)⟩, hcause⟩

end RunError

namespace Scope

theorem createIn_gives {base : Path} (hbase : base.OneLine) {namePrefix : String}
    (hstem : OneLine namePrefix) (attempts : Nat) :
    (createIn base namePrefix attempts).Gives (Told IoError.message Path.OneLine) := by
  induction attempts with
  | zero => exact .pure (.chars (by decide) : OneLine "too many temporary files exist")
  | succ attempts ih =>
    refine (Gives.ask fun _ h => h).bind fun (suffix : String) (hsuffix : OneLine suffix) => ?_
    have hroot : (base.join (.ofString (namePrefix ++ suffix))).OneLine :=
      hbase.join (.ofString ((oneLine_append _ _).mpr ⟨hstem, hsuffix⟩))
    refine (Gives.ask fun _ h => h).bind fun reply hreply => ?_
    split
    · exact .pure hroot
    · exact ih
    · exact .pure hreply

theorem systemParent_gives : systemParent.Gives Path.OneLine := by
  refine (Gives.ask fun _ h => h).bind fun value hvalue => ?_
  split
  · exact .pure (hvalue _ rfl)
  · exact .pure (.ofString (.chars (by decide)))

theorem anchor_gives {p : Path} (hp : p.OneLine) :
    (anchor p).Gives (Told IoError.message Path.OneLine) := by
  unfold anchor
  split
  · exact .pure hp
  · refine (Gives.ask fun _ h => h).bind fun reply hreply => ?_
    split
    · exact .pure (Path.OneLine.join hreply hp)
    · exact .pure hreply

theorem baseOf_gives {parent : Option Path} (hparent : ∀ p, parent = some p → p.OneLine) :
    (baseOf parent).Gives fun found =>
      found.1.OneLine ∧ Told IoError.message Path.OneLine found.2 := by
  have hbase (p : Path) (hp : p.OneLine) : (do
      return (p, ← anchor p) : Dialogue (Path × Except IoError Path)).Gives fun found =>
        found.1.OneLine ∧ Told IoError.message Path.OneLine found.2 :=
    (anchor_gives hp).bind fun base h => .pure ⟨hp, h⟩
  unfold baseOf
  cases parent with
  | none => exact systemParent_gives.bind fun p h => hbase p h
  | some p => exact hbase p (hparent p rfl)

theorem create_gives {parent : Option Path} (hparent : ∀ p, parent = some p → p.OneLine)
    {namePrefix : String} (hstem : OneLine namePrefix) :
    (create parent namePrefix).Gives (Told ScopeError.message fun scope => scope.root.OneLine) := by
  have hgranted (shown : Path) (hshown : shown.OneLine) (made : Except IoError Path)
      (hmade : Told IoError.message Path.OneLine made) :
      Told ScopeError.message (fun scope => scope.root.OneLine) (granted shown made) := by
    cases made with
    | error e =>
      have hcause : OneLine e.message := hmade
      exact ScopeError.oneLine_create hshown hcause
    | ok root => exact hmade
  rw [create_eq]
  refine (baseOf_gives hparent).bind fun ⟨shown, base⟩ ⟨hshown, hbase⟩ => ?_
  refine Gives.map ?_ (hgranted shown hshown)
  cases base with
  | error e => exact .pure hbase
  | ok base => exact createIn_gives hbase hstem nameAttempts

variable {scope : Scope} {relative : Path}

theorem path_told (hroot : scope.root.OneLine) (hrelative : relative.OneLine) :
    Told ScopeError.message Path.OneLine (scope.path relative) := by
  unfold path
  split
  · exact ScopeError.oneLine_escape hrelative
  · exact hroot.join hrelative

theorem makeDirs_explains (p : Path) : (makeDirs p).Explains IoError.message := by
  have hwithin (depth : Nat) (p : Path) : (makeDirsWithin depth p).Explains IoError.message := by
    have hdir {e : IoError} (he : OneLine e.message) (q : Path) : (do
        return if ← isDirectory q then .ok () else .error e :
          Dialogue (Except IoError Unit)).Explains IoError.message := by
      refine (Gives.anything _).bind fun found _ => .pure ?_
      cases found with
      | true => trivial
      | false => exact he
    induction depth generalizing p with
    | zero =>
      unfold makeDirsWithin
      split
      · exact .pure trivial
      · refine (Gives.ask fun _ h => h).bind fun reply hreply => ?_
        split
        · exact .pure trivial
        · exact .pure (.chars (by decide) : OneLine "failed to create whole tree")
        · exact hdir hreply p
    | succ depth ih =>
      unfold makeDirsWithin
      split
      · exact .pure trivial
      · refine (Gives.ask fun _ h => h).bind fun reply hreply => ?_
        split
        · exact .pure trivial
        · split
          · rename_i above heq _
            obtain rfl := Nat.succ.inj heq
            refine (ih above).bind fun made hmade => ?_
            split
            · exact .pure hmade
            · refine (Gives.ask fun _ h => h).bind fun again hagain => ?_
              split
              · exact .pure trivial
              · exact hdir hagain p
          · exact .pure (.chars (by decide) : OneLine "failed to create whole tree")
        · exact hdir hreply p
  exact hwithin _ p

theorem createDir_explains (hroot : scope.root.OneLine) (hrelative : relative.OneLine) :
    (scope.createDir relative).Explains ScopeError.message := by
  have htold := path_told hroot hrelative
  unfold createDir
  split
  · rename_i e he
    rw [he] at htold
    exact .pure htold
  · rename_i p hp
    rw [hp] at htold
    refine (makeDirs_explains p).bind fun made hmade => ?_
    split
    · exact .pure trivial
    · exact .pure (ScopeError.oneLine_prepare htold hmade)

theorem writeFile_explains (hroot : scope.root.OneLine) (hrelative : relative.OneLine)
    (content : Bytes) : (scope.writeFile relative content).Explains ScopeError.message := by
  have hparent {p : Path} (hp : p.OneLine) : (makeParent p).Explains ScopeError.message := by
    unfold makeParent
    split
    · exact .pure trivial
    · rename_i above habove
      refine (makeDirs_explains above).bind fun made hmade => ?_
      split
      · exact .pure trivial
      · exact .pure (ScopeError.oneLine_prepare (hp.parent habove) hmade)
  have htold := path_told hroot hrelative
  unfold writeFile
  split
  · rename_i e he
    rw [he] at htold
    exact .pure htold
  · rename_i p hp
    rw [hp] at htold
    refine (hparent htold).bind fun made hmade => ?_
    split
    · exact .pure hmade
    · refine (Gives.ask fun _ h => h).bind fun stored hstored => ?_
      split
      · exact .pure trivial
      · exact .pure (ScopeError.oneLine_prepare htold hstored)

end Scope

namespace Runner

variable (r : Runner) {path : Path} {args : List String}

theorem spawn_gives (hpath : path.OneLine) (hargs : ∀ a ∈ args, OneLine a) :
    (spawn path args).Gives (Told RunError.message fun s => s.path.OneLine) := by
  refine (Gives.anything _).bind fun started _ => ?_
  refine (Gives.ask fun _ h => h).bind fun reply hreply => ?_
  split
  · exact .pure hpath
  · exact .pure (RunError.oneLine_spawn hpath hargs hreply)

theorem awaitFor_explains (s : Subject) (span : Duration) :
    (awaitFor s span).Explains IoError.message :=
  (Gives.anything _).bind fun _ _ => Gives.ask fun _ h => h

theorem giveUp_explains {s : Subject} (hs : s.path.OneLine) {e : IoError} (he : OneLine e.message) :
    (giveUp s e : Dialogue (Except RunError α)).Explains RunError.message :=
  (Gives.anything _).bind fun _ _ => .pure (RunError.oneLine_wait hs he)

theorem succeeds_explains (d : Dialogue α) :
    ((Except.ok : α → Except RunError α) <$> d).Explains RunError.message :=
  Gives.map (Gives.anything d) fun _ _ => trivial

theorem conclude_explains {s : Subject} (hs : s.path.OneLine) (timeout : Duration) :
    (r.conclude s timeout).Explains RunError.message := by
  refine (awaitFor_explains s timeout).bind fun reply hreply => ?_
  split
  · exact giveUp_explains hs hreply
  · exact succeeds_explains _
  · exact (Gives.anything _).bind fun _ _ => succeeds_explains _

theorem runBounded_explains (hpath : path.OneLine) (hargs : ∀ a ∈ args, OneLine a)
    (timeout : Duration) : (r.runBounded path args timeout).Explains RunError.message := by
  rw [runBounded_eq]
  refine (spawn_gives hpath hargs).bind fun spawned hspawned => ?_
  split
  · exact .pure hspawned
  · exact r.conclude_explains hspawned timeout

theorem escalate_explains (s : Subject) : (r.escalate s).Explains RunError.message :=
  (Gives.anything _).bind fun _ _ => succeeds_explains _

theorem stop_explains {s : Subject} (hs : s.path.OneLine) (grace : Duration) :
    (r.stop s grace).Explains RunError.message := by
  refine (Gives.ask fun _ h => h).bind fun polled hpolled => ?_
  split
  · exact giveUp_explains hs hpolled
  · exact succeeds_explains _
  · refine (Gives.anything _).bind fun asked _ => ?_
    split
    · exact r.escalate_explains s
    · refine (awaitFor_explains s grace).bind fun reply hreply => ?_
      split
      · exact giveUp_explains hs hreply
      · exact succeeds_explains _
      · exact r.escalate_explains s

end Runner

/-- The message of the verdict that a fault becomes. -/
def ScenarioFault.telling (name : String) (f : ScenarioFault) : String := (f.verdict name).message

namespace ScenarioFault

variable {name : String} (hname : OneLine name)

include hname

theorem oneLine_scope {e : ScopeError} (he : OneLine e.message) :
    OneLine ((scope e).telling name) := by
  unfold telling verdict
  simp only [Verdict.fail, oneLine_append]
  exact ⟨⟨hname, .chars (by decide)⟩, he⟩

theorem oneLine_run {e : RunError} (he : OneLine e.message) : OneLine ((run e).telling name) := by
  unfold telling verdict
  simp only [Verdict.fail, oneLine_append]
  exact ⟨⟨hname, .chars (by decide)⟩, he⟩

end ScenarioFault

def SetupStep.path : SetupStep → Path
  | createDir p => p
  | writeFile p _ => p

/-- A scenario without a line feed in what is told of it, and whose evaluator never panics, never
prints and judges a run by verdicts of one kind. -/
structure Scenario.Tame (s : Scenario) (Q : RunResult → List Verdict → Prop) : Prop where
  sectionName : OneLine s.sectionName
  name : OneLine s.name
  binary : OneLine s.binary.name
  path : s.binary.path.OneLine
  args : ∀ a ∈ s.args, OneLine a
  setup : ∀ step ∈ s.setup, step.path.OneLine
  watch : ∀ p ∈ s.watch, p.OneLine
  silent : s.Judges Request.Silent
  judges : ∀ mode evaluate, s.action = .run mode evaluate → ∀ e : Evidence, e.name = s.name →
    e.binary = s.binary → (∀ p, e.scope = some p → p.OneLine) →
    (evaluate e).Gives (fun r => ∃ vs, r = .ok vs ∧ Q e.run vs) fun _ _ => True

namespace Scenario

variable {s : Scenario} {Q : RunResult → List Verdict → Prop} {Fine : Verdict → Prop}
  {bench : Bench}

theorem prepare_explains {name : String} (hname : OneLine name) {scope : Scope}
    (hroot : scope.root.OneLine) {steps : List SetupStep}
    (hsteps : ∀ step ∈ steps, step.path.OneLine) :
    (prepare scope steps).Explains (ScenarioFault.telling name) := by
  induction steps with
  | nil => exact .pure trivial
  | cons step rest ih =>
    have hpath := hsteps step (by simp)
    have hrest := ih fun step h => hsteps step (by simp [h])
    unfold prepare
    cases step with
    | createDir path =>
      refine (Scope.createDir_explains hroot hpath).bind fun made hmade => ?_
      dsimp only
      split
      · exact hrest
      · exact .pure (ScenarioFault.oneLine_scope hname hmade)
    | writeFile path content =>
      refine (Scope.writeFile_explains hroot hpath content).bind fun made hmade => ?_
      dsimp only
      split
      · exact hrest
      · exact .pure (ScenarioFault.oneLine_scope hname hmade)

theorem watchPaths_told {scope : Scope} (hroot : scope.root.OneLine) {watch : List Path}
    (hwatch : ∀ p ∈ watch, p.OneLine) :
    Told ScopeError.message (fun _ => True) (watchPaths scope watch) := by
  unfold watchPaths
  induction watch with
  | nil => trivial
  | cons p rest ih =>
    have hpath := Scope.path_told hroot (hwatch p (by simp))
    have hrest := ih fun p h => hwatch p (by simp [h])
    rw [List.mapM_cons]
    cases hp : scope.path p with
    | error e =>
      rw [hp] at hpath
      exact hpath
    | ok path =>
      cases hps : rest.mapM scope.path with
      | error e =>
        rw [hps] at hrest
        exact hrest
      | ok paths => trivial

theorem renderArgs_oneLine (hargs : ∀ a ∈ s.args, OneLine a) {root : Option Path}
    (hroot : ∀ p, root = some p → p.OneLine) : ∀ a ∈ s.renderArgs root, OneLine a := by
  cases root with
  | none => exact hargs
  | some p =>
    intro a ha
    obtain ⟨b, hb, rfl⟩ := List.mem_map.mp ha
    exact Text.oneLine_replaceToken (hroot p rfl).display (hargs b hb)

theorem subjectRun_explains (h : s.Tame Q) {scope : Option Scope}
    (hscope : ∀ r, scope.map (·.root) = some r → r.OneLine) (mode : RunMode) :
    (s.subjectRun bench scope mode).Explains (ScenarioFault.telling s.name) := by
  have hargs := renderArgs_oneLine h.args hscope
  unfold subjectRun
  cases mode with
  | bounded =>
    refine (bench.runner.runBounded_explains h.path hargs s.timeout).bind fun ran hran => ?_
    split
    · exact .pure trivial
    · exact .pure (ScenarioFault.oneLine_run h.name hran)
  | supervised grace =>
    dsimp only
    unfold supervise
    dsimp only
    split
    · rename_i e he
      refine .pure (ScenarioFault.oneLine_scope h.name ?_)
      cases scope with
      | none => cases he
      | some scope =>
        have htold := watchPaths_told (hscope _ rfl) h.watch
        have hescaped : watchPaths scope s.watch = .error e := he
        rw [hescaped] at htold
        exact htold
    · refine (Runner.spawn_gives h.path hargs).bind fun spawned hspawned => ?_
      split
      · exact .pure (ScenarioFault.oneLine_run h.name hspawned)
      · refine (Gives.anything _).bind fun observation _ => ?_
        refine (bench.runner.stop_explains hspawned grace).bind fun stopped hstopped => ?_
        split
        · exact .pure trivial
        · exact .pure (ScenarioFault.oneLine_run h.name hstopped)

/-- The verdicts of a scenario that was driven, or a fault that is told in one line. -/
abbrev Judged (s : Scenario) (Fine : Verdict → Prop) :
    Except ScenarioFault (List Verdict) → Prop :=
  Told (ScenarioFault.telling s.name) fun vs => ∀ v ∈ vs, Fine v

variable (hQ : ∀ run vs, Q run vs → ∀ v ∈ vs, Fine v)

include hQ

theorem work_gives (h : s.Tame Q) {mode : RunMode} {evaluate : Evaluator}
    (haction : s.action = .run mode evaluate) {scope : Option Scope}
    (hscope : ∀ r, scope.map (·.root) = some r → r.OneLine) :
    (s.work bench scope mode evaluate).Gives (s.Judged Fine) := by
  refine (subjectRun_explains h hscope mode).bind fun ran hran => ?_
  split
  · exact .pure hran
  · refine (h.judges mode evaluate haction _ rfl rfl hscope).plain.bind fun judged hjudged => ?_
    obtain ⟨vs, rfl, hvs⟩ := hjudged
    exact .pure (hQ _ _ hvs)

theorem driveIsolated_gives (h : s.Tame Q) {mode : RunMode} {evaluate : Evaluator}
    (haction : s.action = .run mode evaluate)
    (hparent : ∀ p, bench.scopeParent = some p → p.OneLine) (hstem : OneLine bench.scopePrefix) :
    (s.driveIsolated bench mode evaluate).Gives (s.Judged Fine) := by
  unfold driveIsolated
  split
  · refine (Scope.create_gives hparent hstem).bind fun made hmade => ?_
    split
    · exact .pure (ScenarioFault.oneLine_scope h.name hmade)
    · rename_i scope
      have hroot (r : Path) (hr : (some scope).map (·.root) = some r) : r.OneLine := by
        cases hr
        exact hmade
      refine Gives.bind (P := s.Judged Fine) ?_ fun result hresult =>
        (Gives.anything _).bind fun _ _ => .pure hresult
      rw [drive_some]
      refine (prepare_explains h.name hmade h.setup).bind fun prepared hprepared => ?_
      split
      · exact .pure hprepared
      · exact work_gives hQ h haction hroot
  · rw [drive_none]
    exact work_gives hQ h haction fun r hr => by cases hr

/-- The verdicts of a scenario are those of its evaluator, or the bench tells in one line why there
are none. -/
theorem execute_gives (h : s.Tame Q) (hfine : ∀ v : Verdict, OneLine v.message → Fine v)
    (hparent : ∀ p, bench.scopeParent = some p → p.OneLine) (hstem : OneLine bench.scopePrefix)
    (available : Availability) :
    (s.execute bench available).Gives fun vs => ∀ v ∈ vs, Fine v := by
  have hone {v : Verdict} (hv : OneLine v.message) : ∀ w ∈ [v], Fine w := fun w hw => by
    rw [List.mem_singleton.mp hw]
    exact hfine v hv
  unfold execute
  split
  · refine .pure (hone ?_)
    cases available <;> simp only [locateVerdict, Verdict.pass, Verdict.fail, oneLine_append]
    · exact ⟨⟨h.binary, .chars (by decide)⟩, h.path.display⟩
    · exact ⟨h.binary, .chars (by decide)⟩
    · exact ⟨h.binary, .chars (by decide)⟩
  · rename_i mode evaluate haction
    split
    · refine (driveIsolated_gives hQ h haction hparent hstem).bind fun result hresult => .pure ?_
      unfold verdictsOf
      split
      · refine hone ?_
        simp only [Verdict.info, oneLine_append]
        exact ⟨h.name, .chars (by decide)⟩
      · exact hresult
      · exact hone hresult
    · refine .pure (hone ?_)
      simp only [Verdict.skip, oneLine_append]
      exact ⟨h.name, .chars (by decide)⟩

end Scenario

end SmokeBench
