import SmokeBench.Proofs.Evaluators
import SmokeBench.Proofs.HandedPaths
import SmokeBench.Proofs.Places
import SmokeBench.Proofs.ScopeNames

/-! Where a subject is sent and where the bench works. The root of a scope goes into the arguments as
the text that shows it, and into the paths of the bench as it is. The two are the same bytes for a
root that is a text, and for no other one. -/

namespace SmokeBench

open Dialogue

/-- A directory is made where the data directory is expected, a file written where the
configuration is. -/
def SetupStep.IsAt (dataDir : Path) (config : Option Path) (p : Path) : SetupStep → Prop
  | createDir _ => p = dataDir
  | writeFile _ _ => config = some p

/-- Makes, stores and looks at nothing but the data directory, what is in it, the configuration, and
what these lie in. -/
def Request.StaysAt (dataDir : Path) (config : Option Path) : Request → Prop
  | makeDir p => dataDir.ClimbsTo p ∨ ∃ c, config = some c ∧ c.ClimbsTo p
  | metadata p => dataDir.Below p ∨ dataDir.ClimbsTo p ∨ ∃ c, config = some c ∧ c.ClimbsTo p
  | store p _ => config = some p
  | load _ | entries _ | removeTree _ => False
  | _ => True

/-- What a run of a scenario in a scope does: it performs all steps before it starts the subject, it
starts it with the rendered arguments, and it works nowhere but where it should. -/
structure Scenario.WorksIn (s : Scenario) (scope : Scope) (j : List Exchange) : Prop where
  starts : started j = [] ∨ started j = [(s.binary.path, s.renderArgs (some scope.root))]
  performs : started j ≠ [] → ∀ step ∈ s.setup, Performed scope j step
  places : ∀ step ∈ s.setup, ∃ p, scope.path step.relative = .ok p ∧
    step.IsAt (s.dataDirAt scope.root) (s.configAt scope.root) p
  stays : ∀ x ∈ j, x.request.StaysAt (s.dataDirAt scope.root) (s.configAt scope.root)

/-- What a scenario must have for that. -/
structure Scenario.Consistent (s : Scenario) : Prop where
  plain : ∀ step ∈ s.setup, ¬ step.relative.Strays
  places : ∀ step ∈ s.setup, ∀ root : Path,
    step.IsAt (s.dataDirAt root) (s.configAt root) (root.join step.relative)
  watch : ∀ p ∈ s.watch, ¬ p.Strays ∧ ∀ root, (s.dataDirAt root).Below (root.join p)
  judges : ∀ mode evaluate, s.action = .run mode evaluate → ∀ (e : Evidence) root,
    e.scope = some root →
      (evaluate e).Only fun r => ∃ p, r = .metadata p ∧ (s.dataDirAt root).Below p

namespace Scenario

variable {s : Scenario} {mode : RunMode} {evaluate : Evaluator}

namespace Consistent

variable (h : s.Consistent)

include h

theorem paths (scope : Scope) {step : SetupStep} (hstep : step ∈ s.setup) :
    ∃ p, scope.path step.relative = .ok p ∧
      step.IsAt (s.dataDirAt scope.root) (s.configAt scope.root) p :=
  ⟨_, Scope.path_of_not_strays (h.plain step hstep), h.places step hstep scope.root⟩

theorem stays_of_performs {scope : Scope} {step : SetupStep} (hstep : step ∈ s.setup) {r : Request}
    (hr : r.Performs scope step) :
    r.StaysAt (s.dataDirAt scope.root) (s.configAt scope.root) := by
  obtain ⟨p, hp, hr⟩ := hr
  obtain ⟨q, hq, hplace⟩ := h.paths scope hstep
  obtain rfl : q = p := Except.ok.inj (hq.symm.trans hp)
  cases step with
  | createDir path =>
    obtain rfl : q = s.dataDirAt scope.root := hplace
    rcases hr with ⟨x, hx, rfl | rfl⟩ | ⟨content, hcontent, -⟩
    · exact .inl hx
    · exact .inr (.inl hx)
    · cases hcontent
  | writeFile path content =>
    rcases hr with ⟨x, hx, rfl | rfl⟩ | ⟨content, -, rfl⟩
    · exact .inr ⟨q, hplace, hx⟩
    · exact .inr (.inr ⟨q, hplace, hx⟩)
    · exact hplace

theorem stays_of_employs {scope : Scope} {path : Path} {args : List String} {r : Request}
    (hr : r.Employs path args (s.watched (some scope))) :
    r.StaysAt (s.dataDirAt scope.root) (s.configAt scope.root) := by
  cases r with
  | metadata p =>
    obtain ⟨q, hq, rfl⟩ := List.mem_map.mp (show p ∈ s.watch.map scope.root.join from hr)
    exact .inl ((h.watch q hq).2 scope.root)
  | makeDir _ => cases hr
  | store _ _ => cases hr
  | load _ => cases hr
  | entries _ => cases hr
  | removeTree _ => cases hr
  | _ => trivial

theorem work_stays (haction : s.action = .run mode evaluate) (bench : Bench) (scope : Scope) :
    (s.work bench (some scope) mode evaluate).Only
      (Request.StaysAt (s.dataDirAt scope.root) (s.configAt scope.root)) := by
  refine ((s.subjectRun_employs bench (some scope) mode).mono
    fun _ hr => h.stays_of_employs hr).bind fun ran => ?_
  split
  · exact only_pure _
  · have hjudges := h.judges mode evaluate haction
    refine ((hjudges _ scope.root rfl).mono ?_).bind fun judged => ?_
    · rintro _ ⟨p, rfl, hp⟩
      exact .inl hp
    · split <;> exact only_pure _

theorem drive_stays (haction : s.action = .run mode evaluate) (bench : Bench) (scope : Scope) :
    (s.drive bench (some scope) mode evaluate).Only
      (Request.StaysAt (s.dataDirAt scope.root) (s.configAt scope.root)) := by
  rw [drive_some]
  refine ((prepare_performs scope s.setup).mono ?_).bind fun prepared => ?_
  · rintro r ⟨step, hstep, hr⟩
    exact h.stays_of_performs hstep hr
  · split
    · exact only_pure _
    · exact h.work_stays haction bench scope

theorem work_starts (haction : s.action = .run mode evaluate) (bench : Bench) (scope : Scope)
    {σ : Type} (host : Host σ) (st : σ) :
    started ((s.work bench (some scope) mode evaluate).journal host st) =
      [(s.binary.path, s.renderArgs (some scope.root))] := by
  have hstarts := s.subjectRun_starts bench (some scope) mode
    (fun _ r hr => (h.watch r hr).1) host st
  unfold work
  rw [journal_bind, started_append, hstarts]
  have hrest {d : Dialogue (Except ScenarioFault (List Verdict))} (x : σ)
      (hd : d.Only fun r => r.spawns = false) :
      [(s.binary.path, s.renderArgs (some scope.root))] ++ started (d.journal host x) =
        [(s.binary.path, s.renderArgs (some scope.root))] := by
    rw [started_of_spares hd, List.append_nil]
  refine hrest _ ?_
  split
  · exact only_pure _
  · refine ((h.judges mode evaluate haction _ scope.root rfl).mono ?_).bind fun judged => ?_
    · rintro _ ⟨p, rfl, -⟩
      rfl
    · split <;> exact only_pure _

omit h in
theorem prepare_starts (scope : Scope) {σ : Type} (host : Host σ) (st : σ) :
    started ((prepare scope s.setup).journal host st) = [] := by
  refine started_of_spares ((prepare_performs scope s.setup).mono ?_) host st
  rintro r ⟨step, -, p, -, ⟨q, -, rfl | rfl⟩ | ⟨content, -, rfl⟩⟩
  · rfl
  · rfl
  · rfl

theorem worksIn (haction : s.action = .run mode evaluate) (bench : Bench) (scope : Scope)
    {σ : Type} (host : Host σ) (st : σ) :
    s.WorksIn scope ((s.drive bench (some scope) mode evaluate).journal host st) := by
  have hstays : ∀ x ∈ (s.drive bench (some scope) mode evaluate).journal host st,
      x.request.StaysAt (s.dataDirAt scope.root) (s.configAt scope.root) :=
    (h.drive_stays haction bench scope).journal st
  have hcases : (started ((s.drive bench (some scope) mode evaluate).journal host st) = []) ∨
      (started ((s.drive bench (some scope) mode evaluate).journal host st) =
        [(s.binary.path, s.renderArgs (some scope.root))] ∧ ∀ step ∈ s.setup,
          Performed scope ((s.drive bench (some scope) mode evaluate).journal host st) step) := by
    rw [drive_some, journal_bind, started_append, prepare_starts]
    cases hprepared : ((prepare scope s.setup).run host st).1 with
    | error f => exact .inl rfl
    | ok _ =>
      refine .inr ⟨h.work_starts haction bench scope host _, ?_⟩
      intro step hstep
      exact (prepare_done hprepared step hstep).append_right
  refine ⟨?_, ?_, fun step hstep => h.paths scope hstep, hstays⟩
  · exact hcases.imp_right And.left
  · intro hstarted
    exact (hcases.resolve_left hstarted).2

end Consistent

end Scenario

namespace Catalog

open Scenario

def PlainArgument (arg : String) : Prop :=
  Text.contains arg scopeToken = false ∧ handedPath arg = none

instance (arg : String) : Decidable (PlainArgument arg) := inferInstanceAs (Decidable (_ ∧ _))

variable (root : Path)

theorem handed_plain {args : List String} (h : ∀ a ∈ args, PlainArgument a) :
    handed (args.map (Text.replaceToken scopeToken root.display)) = [] := by
  rw [handed, List.filterMap_map, List.filterMap_eq_nil_iff]
  intro a ha
  obtain ⟨htoken, hpath⟩ := h a ha
  rw [Function.comp_apply, render_plain root htoken, hpath]

theorem handed_datadir {after : String} (h : '\x7b' ∉ after.toList) :
    handedPath (Text.replaceToken scopeToken root.display ("-datadir=" ++ scopeToken ++ after)) =
      some (.ofString (root.display ++ after)) := by
  rw [render_option root (by decide) h, handedPath_datadir]

theorem handed_conf {after : String} (h : '\x7b' ∉ after.toList) :
    handedPath (Text.replaceToken scopeToken root.display ("-conf=" ++ scopeToken ++ after)) =
      some (.ofString (root.display ++ after)) := by
  rw [render_option root (by decide) h, handedPath_conf]

theorem handed_root : handedPath (Text.replaceToken scopeToken root.display
    ("-datadir=" ++ scopeToken)) = some (.ofString root.display) := by
  have h := handed_datadir root (by decide : '\x7b' ∉ "".toList)
  rwa [String.append_empty, String.append_empty] at h

theorem handed_cons (arg : String) (args : List String) :
    handed (arg :: args) = (handedPath arg).toList ++ handed args := by
  rw [handed, List.filterMap_cons]
  cases handedPath arg <;> rfl

variable {s : Scenario}

theorem bare_agrees (before : List String) (hbefore : ∀ a ∈ before, PlainArgument a)
    (hargs : s.args = before ++ ["-datadir=" ++ scopeToken]) (hsetup : s.setup = []) :
    s.Agrees root ↔ root.IsText ∧ (s.setup ≠ [] → root.Open) := by
  have hhanded : handed (s.renderArgs (some root)) = [.ofString root.display] := by
    rw [renderArgs, hargs, List.map_append, handed, List.filterMap_append]
    change handed _ ++ handed _ = _
    rw [handed_plain root hbefore, List.map_singleton, handed_cons, handed_root]
    rfl
  rw [Agrees, hhanded, dataDirAt, configAt, hsetup]
  simp [Path.ofString_display_iff]

theorem judged_consistent {f : Evidence → List Verdict} {mode : RunMode}
    (haction : s.action = .run mode (judge f)) (hsetup : ∀ step ∈ s.setup, ∃ p content,
      step = .writeFile p content ∧ ¬ p.Strays ∧ ∀ root : Path, s.configAt root = some (root.join p))
    (hwatch : s.watch = []) : s.Consistent where
  plain step hstep := by
    obtain ⟨p, content, rfl, hp, -⟩ := hsetup step hstep
    exact hp
  places step hstep root := by
    obtain ⟨p, content, rfl, -, hconfig⟩ := hsetup step hstep
    exact hconfig root
  watch p hp := by
    rw [hwatch] at hp
    cases hp
  judges mode' evaluate hrun e root _ := by
    obtain ⟨-, rfl⟩ := Action.run.inj (haction.symm.trans hrun)
    exact only_pure _

/-- Something joined to the root is where the text of the root, a separator and its name lead if and
only if the root is a text that takes a separator. -/
theorem name_agrees (name : String) {after : String} (hafter : after = "/" ++ name)
    (hname : (Path.ofString name).isAbsolute = false) :
    Path.ofString (root.display ++ after) = root.join (.ofString name) ↔
      root.IsText ∧ root.Open := by
  rw [hafter, ← String.append_assoc]
  exact Path.ofString_below_iff hname

theorem config_agrees (hargs : s.args = ["-?", "-datadir=" ++ scopeToken,
      "-conf=" ++ scopeToken ++ "/" ++ configName])
    (hsetup : s.setup = [.writeFile (.ofString configName) (.ofString configContent)]) :
    s.Agrees root ↔ root.IsText ∧ (s.setup ≠ [] → root.Open) := by
  have hargs' : s.args = ["-?"] ++ ["-datadir=" ++ scopeToken,
      "-conf=" ++ scopeToken ++ ("/" ++ configName)] := by
    rw [hargs, String.append_assoc]
    rfl
  have hhanded : handed (s.renderArgs (some root)) =
      [.ofString root.display, .ofString (root.display ++ ("/" ++ configName))] := by
    rw [renderArgs, hargs', List.map_append, handed, List.filterMap_append]
    change handed _ ++ handed _ = _
    rw [handed_plain root (by decide), List.map_cons, handed_cons, handed_root, List.map_singleton,
      handed_cons, handed_conf root (by decide)]
    rfl
  have hname := name_agrees root configName rfl (by decide)
  rw [Agrees, hhanded, dataDirAt, configAt, hsetup]
  simp only [List.findSome?_cons, List.findSome?_nil, Option.toList_some, List.cons.injEq, and_true,
    hname, Path.ofString_display_iff, ne_eq, List.cons_ne_nil, not_false_eq_true, forall_const]
  constructor
  · rintro ⟨-, hboth⟩
    exact hboth
  · intro hboth
    exact ⟨hboth.1, hboth⟩

theorem inspected_agrees (extra : List String) (hextra : ∀ a ∈ extra, PlainArgument a)
    (hargs : s.args = regtestArgs extra) (hsetup : s.setup = [.createDir dataDir]) :
    s.Agrees root ↔ root.IsText ∧ (s.setup ≠ [] → root.Open) := by
  have hargs' : s.args =
      "-regtest" :: ("-datadir=" ++ scopeToken ++ "/data") :: (["-connect=0", "-listen=0"] ++ extra) :=
    hargs
  have hrest : ∀ a ∈ ["-connect=0", "-listen=0"] ++ extra, PlainArgument a := by
    intro a ha
    rcases List.mem_append.mp ha with ha | ha
    · exact (by decide : ∀ a ∈ ["-connect=0", "-listen=0"], PlainArgument a) a ha
    · exact hextra a ha
  have hfirst : handedPath (Text.replaceToken scopeToken root.display "-regtest") = none := by
    rw [render_plain root (by decide)]
    decide
  have hhanded : handed (s.renderArgs (some root)) = [.ofString (root.display ++ "/data")] := by
    rw [renderArgs, hargs', List.map_cons, List.map_cons, handed_cons, handed_cons, hfirst,
      handed_datadir root (by decide), handed_plain root hrest]
    rfl
  have hname := name_agrees root "data" (rfl : "/data" = _) (by decide)
  rw [Agrees, hhanded, dataDirAt, configAt, hsetup]
  simp only [List.findSome?_cons, List.findSome?_nil, Option.toList_none, List.cons.injEq, and_true,
    ne_eq, List.cons_ne_nil, not_false_eq_true, forall_const]
  exact hname

theorem dataPlaces_plain : ∀ p ∈ dataPlaces, ¬ p.Strays ∧ p.isAbsolute = false := by decide

theorem dataPlaces_below : ∀ p ∈ dataPlaces, dataDir.Below p := by
  simp only [dataPlaces, List.forall_mem_cons]
  refine ⟨.inl rfl, .inr ⟨Bytes.ofString "regtest", ?_⟩,
    .inr ⟨Bytes.ofString "regtest/debug.log", ?_⟩, .inr ⟨Bytes.ofString "debug.log", ?_⟩,
    .inr ⟨Bytes.ofString "regtest/litecoincashd.pid", ?_⟩, by simp⟩
  all_goals decide

theorem join_dataPlaces_below {p : Path} (hp : p ∈ dataPlaces) :
    (root.join dataDir).Below (root.join p) :=
  Path.join_below root (by decide) (dataPlaces_plain p hp).2 (dataPlaces_below p hp)

theorem inspected_consistent {f : Evidence → Dialogue (List Verdict)} (hf : LooksInside f)
    {mode : RunMode} (haction : s.action = .run mode (inspect f))
    (hsetup : s.setup = [.createDir dataDir]) (watch : List Path) (hwatch : s.watch = watch)
    (hplaces : ∀ p ∈ watch, p ∈ dataPlaces) : s.Consistent := by
  subst hwatch
  have hplace (root : Path) : s.dataDirAt root = root.join dataDir := by
    rw [dataDirAt, hsetup]
    rfl
  have hstep {step : SetupStep} (h : step ∈ s.setup) : step = .createDir dataDir := by
    rw [hsetup] at h
    exact List.mem_singleton.mp h
  refine ⟨?_, ?_, ?_, ?_⟩
  · intro step h
    rw [hstep h]
    exact (dataPlaces_plain dataDir (by decide)).1
  · intro step h root
    rw [hstep h]
    exact (hplace root).symm
  · intro p hp
    refine ⟨(dataPlaces_plain p (hplaces p hp)).1, ?_⟩
    intro root
    rw [hplace]
    exact join_dataPlaces_below root (hplaces p hp)
  · intro mode' evaluate hrun e root hscope
    obtain ⟨-, rfl⟩ := Action.run.inj (haction.symm.trans hrun)
    refine ((hf e).map _).mono ?_
    rintro _ ⟨p, hp, path, hpath, rfl⟩
    rw [Evidence.scopePath, hscope] at hpath
    obtain rfl := Option.some.inj hpath
    refine ⟨_, rfl, ?_⟩
    rw [hplace]
    exact join_dataPlaces_below root hp

/-- A scenario of the catalog with a scope: every run of it works where it should, and its subject is
sent there if and only if the root is a text, and open if something is joined to it. -/
structure Bound (s : Scenario) : Prop where
  consistent : s.Consistent
  agrees_iff : ∀ root, s.Agrees root ↔ root.IsText ∧ (s.setup ≠ [] → root.Open)

theorem argumentParsing_bound (b : Subjects) (t : Timing) :
    ∀ s ∈ argumentParsing b t, s.needsScope → Bound s := by
  simp only [argumentParsing, List.forall_mem_cons]
  refine ⟨?_, ?_, ?_, ?_, by simp⟩
  · intro hneeds
    exact absurd hneeds
      (by decide : ¬ ["--totallyinvalidoption12345"].any (Text.contains · scopeToken))
  · intro _
    refine ⟨judged_consistent rfl (fun step hstep => ?_) rfl, fun root => ?_⟩
    · cases hstep
    · exact bare_agrees root ["-regtest", "-testnet"] (by decide) rfl rfl
  · intro _
    refine ⟨judged_consistent rfl (fun step hstep => ?_) rfl, fun root => ?_⟩
    · cases hstep
    · exact bare_agrees root ["-?", "-printtoconsole"] (by decide) rfl rfl
  · intro _
    refine ⟨judged_consistent rfl (fun step hstep => ?_) rfl, fun root => ?_⟩
    · cases List.mem_singleton.mp hstep
      exact ⟨_, _, rfl, by decide, fun _ => rfl⟩
    · exact config_agrees root rfl rfl

theorem dataDirectory_bound (b : Subjects) (t : Timing) : ∀ s ∈ dataDirectory b t, Bound s := by
  simp only [dataDirectory, List.forall_mem_cons]
  refine ⟨⟨?_, ?_⟩, ⟨?_, ?_⟩, ⟨?_, ?_⟩, by simp⟩
  · exact inspected_consistent createsDataDir_inside rfl rfl [regtestDir] rfl (by decide)
  · intro root
    exact inspected_agrees root ["-server=0", "-printtoconsole"] (by decide) rfl rfl
  · exact inspected_consistent createsDebugLog_inside rfl rfl [regtestLog, rootLog] rfl (by decide)
  · intro root
    exact inspected_agrees root ["-server=0", "-debug=1"] (by decide) rfl rfl
  · exact inspected_consistent createsPidFile_inside rfl rfl [pidFile] rfl (by decide)
  · intro root
    exact inspected_agrees root ["-daemon=0", "-server=0"] (by decide) rfl rfl

theorem basicResponse_unscoped (b : Subjects) (t : Timing) :
    ∀ s ∈ basicResponse b t, ¬ s.needsScope := by
  intro s hs
  simp only [basicResponse, List.mem_append, List.mem_map] at hs
  rcases hs with (⟨x, -, rfl⟩ | ⟨x, -, rfl⟩) | ⟨x, -, rfl⟩
  · exact (by decide : ¬ ([] : List String).any (Text.contains · scopeToken))
  · exact (by decide : ¬ ["--version"].any (Text.contains · scopeToken))
  · exact (by decide : ¬ ["--help"].any (Text.contains · scopeToken))

theorem scenarios_bound (k : SuiteKind) (settings : Settings) :
    ∀ s ∈ k.scenarios settings, s.needsScope → Bound s := by
  intro s hs hneeds
  cases k with
  | binaries => exact absurd hneeds (basicResponse_unscoped _ _ s hs)
  | config => exact argumentParsing_bound _ _ s hs hneeds
  | datadir => exact dataDirectory_bound _ _ s hs

end Catalog

namespace Path

theorem open_of_drawn {namePrefix suffix : String} (h : RandomName suffix) (base : Path) :
    (base.join (.ofString (namePrefix ++ suffix))).Open := by
  obtain ⟨front, hfront⟩ := exists_join_eq base (.ofString (namePrefix ++ suffix))
  have hbytes : (base.join (.ofString (namePrefix ++ suffix))).bytes =
      front ++ Bytes.ofString namePrefix ++ Bytes.ofString suffix := by
    rw [hfront, ofString, Bytes.ofString_append, List.append_assoc]
  have hne : Bytes.ofString suffix ≠ [] := by
    intro hnil
    have hsix := h.length
    rw [hnil] at hsix
    cases hsix
  rw [Open, hbytes, List.getLast?_append_of_ne_nil _ hne]
  refine ⟨by simp [hne], ?_⟩
  intro hlast
  exact h.slash_not_mem (List.mem_of_getLast? hlast)

end Path

namespace Scope

variable {σ : Type} {host : Host σ}

theorem create_gives_open (parent : Option Path) (namePrefix : String) :
    (create parent namePrefix).Gives (fun made => ∀ scope, made = .ok scope → scope.root.Open)
      Request.Regular := by
  have hsome (p : Path) : (create (some p) namePrefix).Gives
      (fun made => ∀ scope, made = .ok scope → scope.root.Open) Request.Regular := by
    refine (create_draws p namePrefix).mono ?_
    intro made hdrawn scope hmade
    obtain ⟨base, -, hroot⟩ := hdrawn scope hmade
    obtain ⟨suffix, hsuffix, heq⟩ := hroot _ rfl
    rw [heq]
    exact Path.open_of_drawn hsuffix base
  cases parent with
  | some p => exact hsome p
  | none =>
    exact Gives.bind (Gives.anything systemParent) fun p _ => hsome p

theorem create_open (hhost : ∀ r s, Request.Regular r (host.answer r s).1) {parent : Option Path}
    {namePrefix : String} {st : σ} {scope : Scope}
    (hcreated : ((create parent namePrefix).run host st).1 = .ok scope) : scope.root.Open :=
  (create_gives_open parent namePrefix).run host hhost st scope hcreated

end Scope

/-- In every run of a scenario of the catalog in a scope the bench works at the root of the scope; the
subject is sent to the same places, byte for byte, if and only if the root is a text, and also
open where something is joined to it, as every root that was created is. -/
theorem Catalog.sends_where_it_works {k : SuiteKind} {settings : Settings} {s : Scenario}
    (hs : s ∈ k.scenarios settings) (hneeds : s.needsScope) :
    (∀ root, s.Agrees root ↔ root.IsText ∧ (s.setup ≠ [] → root.Open)) ∧
    (∀ {σ : Type} (host : Host σ) (st : σ) (parent : Option Path) (namePrefix : String)
      (scope : Scope), (∀ r x, Request.Regular r (host.answer r x).1) →
      ((Scope.create parent namePrefix).run host st).1 = .ok scope →
      (s.Agrees scope.root ↔ scope.root.IsText)) ∧
    ∀ {σ : Type} (host : Host σ) (st : σ) (bench : Bench) (scope : Scope) (mode : RunMode)
      (evaluate : Evaluator), s.action = .run mode evaluate →
      s.WorksIn scope ((s.drive bench (some scope) mode evaluate).journal host st) := by
  have hbound := scenarios_bound k settings s hs hneeds
  refine ⟨hbound.agrees_iff, ?_, ?_⟩
  · intro σ host st parent namePrefix scope hhost hcreated
    have hopen := Scope.create_open hhost hcreated
    rw [hbound.agrees_iff]
    exact and_iff_left fun _ => hopen
  · intro σ host st bench scope mode evaluate haction
    exact hbound.consistent.worksIn haction bench scope host st

namespace Catalog

def openSettings : Settings where
  srcDir := .ofString "bin"
  qtDir := .ofString "bin"
  timing := .standard
  scopeRoot := none
  scopePrefix := Bench.standardPrefix
  summaryDir := none

def configCheck : Scenario := (argumentParsing (.of openSettings) .standard)[3]

theorem configCheck_mem : configCheck ∈ SuiteKind.config.scenarios openSettings :=
  List.getElem_mem (by decide : 3 < (argumentParsing (.of openSettings) .standard).length)

theorem sends_where_it_works_tmp :
    configCheck ∈ SuiteKind.config.scenarios openSettings ∧ configCheck.needsScope ∧
    ((Scope.create none Bench.standardPrefix).run .drawing ()).1 =
      .ok ⟨.ofString "/tmp/lcc_test_aB3dE9", true⟩ ∧
    configCheck.Agrees (.ofString "/tmp/lcc_test_aB3dE9") := by
  have hneeds : configCheck.needsScope := by decide
  have hcreated : ((Scope.create none Bench.standardPrefix).run .drawing ()).1 =
      .ok ⟨.ofString "/tmp/lcc_test_aB3dE9", true⟩ := by
    decide +kernel
  obtain ⟨-, hagrees, -⟩ := sends_where_it_works configCheck_mem hneeds
  refine ⟨configCheck_mem, hneeds, hcreated, ?_⟩
  exact (hagrees .drawing () _ _ _ Host.drawing_regular hcreated).mpr (by decide)

end Catalog

/-- A host that draws names and keeps its temporary files in a directory with an odd byte. -/
def Host.odd : Host Unit where
  answer r s := match r with
    | .environment _ => (some (Bytes.ofString "/tmp/s" ++ [0xFF]), s)
    | r => Host.drawing.answer r s

theorem Host.odd_regular (r : Request) (s : Unit) : r.Regular (Host.odd.answer r s).1 := by
  cases r with
  | environment name => trivial
  | randomSuffix => exact Host.drawing_regular .randomSuffix s
  | workingDir => exact Host.drawing_regular .workingDir s
  | _ => trivial

/-- Where the directory for temporary files has a byte that is no text, the subject is sent to
another directory than the one that was made. -/
theorem Catalog.sent_beside_odd_directory :
    (∀ r s, Request.Regular r (Host.odd.answer r s).1) ∧
    configCheck ∈ SuiteKind.config.scenarios openSettings ∧ configCheck.needsScope ∧
    ∃ scope, ((Scope.create none Bench.standardPrefix).run .odd ()).1 = .ok scope ∧
      scope.root.bytes = Bytes.ofString "/tmp/s" ++ 0xFF :: Bytes.ofString "/lcc_test_aB3dE9" ∧
      handed (configCheck.renderArgs (some scope.root)) =
        [.ofString "/tmp/s\uFFFD/lcc_test_aB3dE9",
          .ofString "/tmp/s\uFFFD/lcc_test_aB3dE9/litecoincash.conf"] ∧
      ¬ configCheck.Agrees scope.root := by
  refine ⟨Host.odd_regular, configCheck_mem, by decide,
    ⟨⟨Bytes.ofString "/tmp/s" ++ 0xFF :: Bytes.ofString "/lcc_test_aB3dE9"⟩, true⟩, ?_, rfl, ?_, ?_⟩
  · decide +kernel
  · decide +kernel
  · decide +kernel

end SmokeBench
