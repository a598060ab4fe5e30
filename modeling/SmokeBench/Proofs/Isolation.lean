import SmokeBench.Proofs.Entries

/-! Two runs of suites that differ in one scenario. Whatever becomes of that scenario, the others
are reported alike, if only their own requests are answered alike. The runs share nothing but what
they know of binaries, and there they differ at most in an entry that no other scenario names. -/

namespace SmokeBench

open Dialogue

variable {σ σ' α β : Type} (host : Host σ) (host' : Host σ') (bench : Bench)

/-- As long as both journals tell the same requests they tell the same replies. -/
def Agree : List Exchange → List Exchange → Prop
  | x :: i, y :: j => x.request = y.request → x = y ∧ Agree i j
  | _, _ => True

/-- Both hosts come to one result of a dialogue, and some relation holds afterwards. -/
def Alike (d : Dialogue α) (next : α → σ → σ' → Prop) (x : σ) (x' : σ') : Prop :=
  (d.run host x).1 = (d.run host' x').1 ∧
    next (d.run host x).1 (d.run host x).2 (d.run host' x').2

namespace Scenario

variable (s : Scenario)

/-- The subject is run alike, and then the evaluator is answered alike. -/
def WorksAlike (scope : Option Scope) (mode : RunMode) (evaluate : Evaluator) : σ → σ' → Prop :=
  Alike host host' (s.subjectRun bench scope mode) fun
    | .error _, _, _ => True
    | .ok (run, observation), x, x' =>
      let e : Evidence := ⟨s.name, s.binary, run, scope.map (·.root), observation⟩
      Agree ((evaluate e).journal host x) ((evaluate e).journal host' x')

/-- The scope of a scenario is made and filled alike, and then its subject is run alike. -/
def ServedAlike (x : σ) (x' : σ') : Prop :=
  ∀ mode evaluate, s.action = .run mode evaluate →
    if s.needsScope then
      Alike host host' (Scope.create bench.scopeParent bench.scopePrefix) (fun
        | .error _, _, _ => True
        | .ok scope, y, y' => Alike host host' (prepare scope s.setup) (fun
          | .error _, _, _ => True
          | .ok (), z, z' => s.WorksAlike host host' bench (some scope) mode evaluate z z') y y') x x'
    else s.WorksAlike host host' bench none mode evaluate x x'

end Scenario

def Named (others : List Scenario) (p : Path) : Prop := ∃ o ∈ others, p.sameAs o.binary.path

/-- What two runs are answered at their stops. A probe that is for one of the others too, and all
that a kept scenario asks for, is answered alike. -/
structure Indifferent (others : List Scenario) (kept : Nat → Prop) (xs : List (Stop σ))
    (xs' : List (Stop σ')) : Prop where
  probes : ∀ (i : Nat) (x : Stop σ) (x' : Stop σ'), xs[i]? = some x → xs'[i]? = some x' →
    Named others x.scenario.binary.path →
    Agree (x.looking.journal host x.start) (x'.looking.journal host' x'.start)
  serves : ∀ (i : Nat) (x : Stop σ) (x' : Stop σ'), kept i → xs[i]? = some x → xs'[i]? = some x' →
    (x.visit host).available.present →
    x.scenario.ServedAlike host host' bench (x.visit host).start (x'.visit host').start

variable {host host' bench}

theorem Agree.refl (j : List Exchange) : Agree j j := by
  induction j with
  | nil => trivial
  | cons x j ih => exact fun _ => ⟨rfl, ih⟩

theorem Agree.run_eq {d : Dialogue α} {x : σ} {x' : σ'}
    (h : Agree (d.journal host x) (d.journal host' x')) : (d.run host x).1 = (d.run host' x').1 := by
  induction d generalizing x x' with
  | done a => rfl
  | ask r k ih =>
    obtain ⟨heq, hrest⟩ := h rfl
    have hreply : (host.answer r x).1 = (host'.answer r x').1 := by
      injection heq
    rw [Dialogue.run, Dialogue.run]
    rw [hreply] at hrest ⊢
    exact ih _ hrest

theorem Alike.bind_eq {d : Dialogue α} {f : α → Dialogue β} {next : α → σ → σ' → Prop} {x : σ}
    {x' : σ'} (h : Alike host host' d next x x')
    (hf : ∀ a y y', next a y y' → ((f a).run host y).1 = ((f a).run host' y').1) :
    ((d >>= f).run host x).1 = ((d >>= f).run host' x').1 := by
  rw [run_bind, run_bind, ← h.1]
  exact hf _ _ _ h.2

namespace Scenario

variable {s : Scenario}

theorem work_alike {scope : Option Scope} {mode : RunMode} {evaluate : Evaluator} {x : σ} {x' : σ'}
    (h : s.WorksAlike host host' bench scope mode evaluate x x') :
    ((s.work bench scope mode evaluate).run host x).1 =
      ((s.work bench scope mode evaluate).run host' x').1 := by
  refine Alike.bind_eq h fun ran y y' hran => ?_
  rcases ran with f | ⟨run, observation⟩
  · rfl
  · rw [run_bind, run_bind, Agree.run_eq hran]
    split <;> rfl

/-- A scenario that is served alike comes to the same verdicts, whatever else the hosts differ
in. Its scope is removed when they are known. -/
theorem execute_alike {available : Availability} {x : σ} {x' : σ'}
    (h : available.present → s.ServedAlike host host' bench x x') :
    ((s.execute bench available).run host x).1 = ((s.execute bench available).run host' x').1 := by
  unfold execute
  cases haction : s.action with
  | locate => rfl
  | run mode evaluate =>
    dsimp only
    by_cases hpresent : available.present
    · have hserved := h hpresent mode evaluate haction
      rw [if_pos hpresent, run_bind, run_bind]
      refine congrArg (verdictsOf s.name) ?_
      unfold driveIsolated
      by_cases hscope : s.needsScope
      · rw [if_pos hscope] at hserved ⊢
        refine hserved.bind_eq fun made y y' hmade => ?_
        rcases made with e | scope
        · rfl
        have hdrive : ((s.drive bench (some scope) mode evaluate).run host y).1 =
            ((s.drive bench (some scope) mode evaluate).run host' y').1 := by
          rw [drive_some]
          refine Alike.bind_eq hmade fun filled z z' hfilled => ?_
          rcases filled with f | ⟨⟩
          · rfl
          · exact work_alike hfilled
        dsimp only
        rw [run_bind, run_bind, hdrive, run_bind, run_bind]
        rfl
      · rw [if_neg hscope] at hserved ⊢
        rw [drive_none]
        exact work_alike hserved
    · rw [if_neg hpresent]
      rfl

end Scenario

namespace Suite

/-- What two runs know of binaries: of the same ones, and the same of those that others name. -/
def KnownAlike (others : List Scenario) : Known → Known → Prop :=
  List.Forall₂ fun e e' => e.1 = e'.1 ∧ (Named others e.1 → e.2 = e'.2)

variable {others : List Scenario}

theorem find_alike {known known' : Known} (h : KnownAlike others known known') (p : Path) :
    (known.find? (·.1.sameAs p) = none ∧ known'.find? (·.1.sameAs p) = none) ∨
    ∃ e e', known.find? (·.1.sameAs p) = some e ∧ known'.find? (·.1.sameAs p) = some e' ∧
      (Named others p → e.2 = e'.2) := by
  induction h with
  | nil => exact .inl ⟨rfl, rfl⟩
  | @cons e e' known known' hhead _ ih =>
    rw [List.find?_cons, List.find?_cons, ← hhead.1]
    cases hsame : e.1.sameAs p with
    | true =>
      refine .inr ⟨e, e', rfl, rfl, fun ⟨o, ho, hnamed⟩ => hhead.2 ⟨o, ho, ?_⟩⟩
      unfold Path.sameAs at hsame hnamed ⊢
      rw [beq_iff_eq] at hsame hnamed ⊢
      exact hsame.trans hnamed
    | false => exact ih

theorem lookUp_alike {known known' : Known} (h : KnownAlike others known known') {b : Binary}
    {x : σ} {x' : σ'} (hagree : Named others b.path →
      Agree ((lookUp known b).journal host x) ((lookUp known' b).journal host' x')) :
    (Named others b.path →
      ((lookUp known b).run host x).1.1 = ((lookUp known' b).run host' x').1.1) ∧
    KnownAlike others ((lookUp known b).run host x).1.2 ((lookUp known' b).run host' x').1.2 := by
  rcases find_alike h b.path with ⟨hnone, hnone'⟩ | ⟨e, e', hsome, hsome', heq⟩
  · simp only [lookUp, hnone, hnone'] at hagree ⊢
    have hreply (hnamed : Named others b.path) :
        (host.answer (.availability b.path) x).1 = (host'.answer (.availability b.path) x').1 := by
      have heq := ((hagree hnamed) rfl).1
      injection heq
    exact ⟨hreply, List.rel_append h (.cons ⟨rfl, hreply⟩ .nil)⟩
  · simp only [lookUp, hsome, hsome']
    exact ⟨heq, h⟩

end Suite

variable {others : List Scenario} {kept : Nat → Prop} {x : Stop σ} {x' : Stop σ'}
  {xs : List (Stop σ)} {xs' : List (Stop σ')}

namespace Indifferent

theorem tail (h : Indifferent host host' bench others kept (x :: xs) (x' :: xs')) :
    Indifferent host host' bench others (fun i => kept (i + 1)) xs xs' where
  probes i := h.probes (i + 1)
  serves i := h.serves (i + 1)

theorem looks_alike (h : Indifferent host host' bench others kept (x :: xs) (x' :: xs'))
    (hbinary : x.scenario.binary = x'.scenario.binary)
    (hknown : Suite.KnownAlike others x.known x'.known) :
    (Named others x.scenario.binary.path →
      (x.visit host).available = (x'.visit host').available) ∧
    Suite.KnownAlike others (x.learnt host) (x'.learnt host') := by
  have hagree := h.probes 0 x x' rfl rfl
  simp only [Stop.visit, Stop.learnt, Stop.looking, ← hbinary] at hagree ⊢
  exact Suite.lookUp_alike hknown hagree

theorem verdicts_eq (h : Indifferent host host' bench others kept (x :: xs) (x' :: xs'))
    (hkept : kept 0) (hsame : x.scenario = x'.scenario) (hnamed : x.scenario ∈ others)
    (hknown : Suite.KnownAlike others x.known x'.known) :
    (x.visit host).verdicts host bench = (x'.visit host').verdicts host' bench := by
  have hpath : Named others x.scenario.binary.path :=
    ⟨x.scenario, hnamed, beq_self_eq_true _⟩
  have havailable := (h.looks_alike (by rw [hsame]) hknown).1 hpath
  calc (x.visit host).verdicts host bench
      = ((x.scenario.execute bench (x.visit host).available).run host' (x'.visit host').start).1 :=
        Scenario.execute_alike (h.serves 0 x x' hkept rfl rfl)
    _ = (x'.visit host').verdicts host' bench := by
        rw [hsame, havailable]
        rfl

end Indifferent

namespace Suite

theorem entries_alike {t t' : Transcript} (ht : t = t') {scenarios : List Scenario}
    (hothers : ∀ s ∈ scenarios, s ∈ others) {known known' : Known}
    (hknown : KnownAlike others known known') {x : σ} {x' : σ'} {kept : Nat → Prop}
    (hkept : ∀ i, kept i)
    (h : Indifferent host host' bench others kept (stops host bench t known scenarios x)
      (stops host' bench t' known' scenarios x')) :
    entries host bench t known scenarios x = entries host' bench t' known' scenarios x' := by
  induction scenarios generalizing t t' known known' x x' kept with
  | nil => rfl
  | cons s rest ih =>
    have hlooks := h.looks_alike rfl hknown
    have hverdicts := h.verdicts_eq (hkept 0) rfl (hothers s (by simp)) hknown
    refine List.cons_eq_cons.mpr ⟨?_, ih rfl (fun s hs => hothers s (by simp [hs])) hlooks.2
      (fun i => hkept (i + 1)) h.tail⟩
    exact congrArg (ScenarioReport.mk s.sectionName s.name) hverdicts

theorem entries_differ {t : Transcript} {pre post : List Scenario} {a b : Scenario}
    (hsection : a.sectionName = b.sectionName) (hbinary : a.binary = b.binary)
    (hothers : ∀ s ∈ pre ++ post, s ∈ others) {known known' : Known} {x : σ} {x' : σ'}
    (hknown : KnownAlike others known known') {kept : Nat → Prop}
    (hkept : ∀ i, i ≠ pre.length → kept i)
    (h : Indifferent host host' bench others kept (stops host bench t known (pre ++ a :: post) x)
      (stops host' bench t known' (pre ++ b :: post) x')) :
    ∃ before after vs vs', before.length = pre.length ∧ after.length = post.length ∧
      entries host bench t known (pre ++ a :: post) x =
        before ++ ⟨a.sectionName, a.name, vs⟩ :: after ∧
      entries host' bench t known' (pre ++ b :: post) x' =
        before ++ ⟨b.sectionName, b.name, vs'⟩ :: after := by
  induction pre generalizing t known known' x x' kept with
  | nil =>
    have hlooks := h.looks_alike hbinary hknown
    have hrest := entries_alike (congrArg (fun name => ⟨some name⟩) hsection) hothers hlooks.2
      (fun i => hkept (i + 1) (Nat.succ_ne_zero i)) h.tail
    exact ⟨[], _, _, _, rfl, entries_length _ _ post _, rfl, congrArg (_ :: ·) hrest.symm⟩
  | cons s pre ih =>
    have hlooks := h.looks_alike rfl hknown
    have hverdicts :=
      h.verdicts_eq (hkept 0 (Nat.zero_ne_add_one _)) rfl (hothers s (by simp)) hknown
    obtain ⟨before, after, vs, vs', hbefore, hafter, hone, hother⟩ :=
      ih (fun s hs => hothers s (List.mem_cons_of_mem _ hs)) hlooks.2
        (fun i hi => hkept (i + 1) (fun heq => hi (Nat.succ.inj heq))) h.tail
    refine ⟨_ :: before, after, vs, vs', congrArg (· + 1) hbefore, hafter,
      congrArg (_ :: ·) hone, ?_⟩
    refine List.cons_eq_cons.mpr ⟨?_, hother⟩
    exact congrArg (ScenarioReport.mk s.sectionName s.name) hverdicts.symm

end Suite

namespace SuiteReport

/-- Around the verdicts of one entry the lines are the same whatever these are. -/
theorem entryLines_split (section? : Option String) (before after : List ScenarioReport)
    (name : String) : ∃ opening closing, ∀ title vs,
      entryLines section? (before ++ ⟨name, title, vs⟩ :: after) =
        opening ++ vs.map Verdict.display ++ closing := by
  induction before generalizing section? with
  | nil =>
    exact ⟨Transcript.headerLines section? name, entryLines (some name) after,
      fun _ _ => entryLines_cons _ _ _⟩
  | cons r before ih =>
    obtain ⟨opening, closing, hsplit⟩ := ih (some r.sectionName)
    refine ⟨Transcript.headerLines section? r.sectionName ++ r.verdicts.map Verdict.display ++
      opening, closing, fun title vs => ?_⟩
    rw [List.cons_append, entryLines_cons, hsplit]
    simp only [List.append_assoc]

end SuiteReport

namespace Suite

def framing (title : String) (pre post : List Scenario) (s : Scenario) : Suite :=
  ⟨title, pre ++ s :: post, .registered⟩

/-- Take two runs of a suite with one scenario exchanged for another of the same section and binary,
each with an environment of its own, where everything that the other scenarios ask for is answered
alike. Then these are reported alike, and the transcripts differ in the verdicts of the exchanged
scenario and in the line that tells the result. -/
theorem isolates (hsink : host.TakesAll) (hsink' : host'.TakesAll) (title : String)
    {pre post : List Scenario} {a b : Scenario} (hsection : a.sectionName = b.sectionName)
    (hbinary : a.binary = b.binary)
    (hjudges : ∀ s ∈ a :: b :: (pre ++ post), s.Judges Request.Silent) (t t' : Transcript) (st : σ)
    (st' : σ')
    (h : Indifferent host host' bench (pre ++ post) (· ≠ pre.length)
      (runStops host bench (framing title pre post a) t st)
      (runStops host' bench (framing title pre post b) t' st')) :
    ∃ (before after : List ScenarioReport) (vs vs' : List Verdict) (opening closing : List String)
      (report report' : SuiteReport),
      before.length = pre.length ∧ after.length = post.length ∧
      report = ⟨title, before ++ ⟨a.sectionName, a.name, vs⟩ :: after⟩ ∧
      report' = ⟨title, before ++ ⟨a.sectionName, b.name, vs'⟩ :: after⟩ ∧
      (((framing title pre post a).run bench t).run host st).1.result = .ok report ∧
      (((framing title pre post b).run bench t').run host' st').1.result = .ok report' ∧
      written (((framing title pre post a).run bench t).journal host st) =
        (opening ++ vs.map Verdict.display ++ closing ++
          ["", Transcript.rule, report.resultLine, Transcript.rule, ""]).map (· ++ "\n") ∧
      written (((framing title pre post b).run bench t').journal host' st') =
        (opening ++ vs'.map Verdict.display ++ closing ++
          ["", Transcript.rule, report'.resultLine, Transcript.rule, ""]).map (· ++ "\n") := by
  have hall (s : Scenario) (hs : s ∈ a :: b :: (pre ++ post)) :
      ∀ x ∈ (framing title pre post s).scenarios, x.Judges Request.Silent := by
    intro x hx
    rcases List.mem_append.mp hx with hx | hx
    · exact hjudges x (by simp [hx])
    · rcases List.mem_cons.mp hx with rfl | hx
      · exact hjudges x hs
      · exact hjudges x (by simp [hx])
  obtain ⟨hone, hwritten⟩ := run_tells bench hsink _ t rfl (hall a (by simp)) st
  obtain ⟨hother, hwritten'⟩ := run_tells bench hsink' _ t' rfl (hall b (by simp)) st'
  obtain ⟨before, after, vs, vs', hbefore, hafter, hentries, hentries'⟩ :=
    entries_differ hsection hbinary (fun _ hs => hs) .nil (fun _ hi => hi) h
  rw [← hsection] at hentries'
  obtain ⟨opening, closing, hlines⟩ :=
    SuiteReport.entryLines_split none before after a.sectionName
  have hreport : reportOf host bench (framing title pre post a) t st =
      ⟨title, before ++ ⟨a.sectionName, a.name, vs⟩ :: after⟩ :=
    congrArg (SuiteReport.mk title) hentries
  have hreport' : reportOf host' bench (framing title pre post b) t' st' =
      ⟨title, before ++ ⟨a.sectionName, b.name, vs'⟩ :: after⟩ :=
    congrArg (SuiteReport.mk title) hentries'
  refine ⟨before, after, vs, vs', Transcript.bannerLines title ++ opening, closing, _, _, hbefore,
    hafter, hreport, hreport', hone, hother, ?_, ?_⟩
  · rw [hwritten, hreport, SuiteReport.lines_eq, hlines]
    simp only [List.append_assoc]
    rfl
  · rw [hwritten', hreport', SuiteReport.lines_eq, hlines]
    simp only [List.append_assoc]
    rfl

end Suite

theorem Host.still_alike (r : Request) (x : σ) (x' : σ') :
    (Host.still.answer r x).1 = (Host.still.answer r x').1 := by
  cases r <;> rfl

theorem Dialogue.still_alike (d : Dialogue α) (x : σ) (x' : σ') :
    (d.run .still x).1 = (d.run .still x').1 ∧ d.journal .still x = d.journal .still x' := by
  induction d generalizing x x' with
  | done a => exact ⟨rfl, rfl⟩
  | ask r k ih =>
    rw [Dialogue.run, Dialogue.run, Dialogue.journal, Dialogue.journal, Host.still_alike r x x']
    obtain ⟨hrun, hjournal⟩ := ih (Host.still.answer r x').1 (Host.still.answer r x).2
      (Host.still.answer r x').2
    exact ⟨hrun, congrArg (_ :: ·) hjournal⟩

theorem Alike.still {d : Dialogue α} {next : α → σ → σ' → Prop}
    (h : ∀ a y y', next a y y') (x : σ) (x' : σ') : Alike .still .still d next x x' :=
  ⟨(d.still_alike x x').1, h _ _ _⟩

theorem Scenario.still_serves (s : Scenario) (x : σ) (x' : σ') :
    s.ServedAlike .still .still bench x x' := by
  have hworks (scope : Option Scope) (mode : RunMode) (evaluate : Evaluator) :
      ∀ (y : σ) (y' : σ'), s.WorksAlike .still .still bench scope mode evaluate y y' := by
    refine Alike.still fun ran z z' => ?_
    rcases ran with f | ⟨run, observation⟩
    · trivial
    · dsimp only
      rw [(Dialogue.still_alike _ z z').2]
      exact .refl _
  intro mode evaluate _
  split
  · refine Alike.still (fun made y y' => ?_) x x'
    rcases made with e | scope
    · trivial
    · refine Alike.still (fun filled z z' => ?_) y y'
      rcases filled with f | ⟨⟩
      · trivial
      · exact hworks (some scope) mode evaluate z z'
  · exact hworks none mode evaluate x x'

namespace Suite

def tool : Binary := ⟨"tool", .ofString "/bin"⟩

/-- Evaluators that panic and that pass, the second after a setup that leaves its scope. -/
def unlucky : Scenario :=
  .bounded "Response" "odd" tool [] .zero fun _ => pure (.error (.text "no luck"))

def straying : Scenario :=
  (Scenario.bounded "Response" "odd" tool [] .zero fun _ => pure (.ok [.pass "fine"])).withSetup
    (.createDir (.ofString ".."))

def answering : Scenario :=
  .bounded "Response" "answer" tool [] .zero fun _ => pure (.ok [.pass "answers"])

theorem oneOdd_judges : ∀ s ∈ unlucky :: straying :: ([.locate "Presence" tool] ++ [answering]),
    s.Judges Request.Silent := by
  intro s hs mode evaluate haction e
  simp only [List.cons_append, List.nil_append, List.mem_cons, List.not_mem_nil, or_false] at hs
  rcases hs with rfl | rfl | rfl | rfl <;> cases haction <;> exact only_pure _

/-- The suite with a presence check before the odd scenario and another scenario after it. -/
def oneOdd (s : Scenario) : Suite := framing "Odd" [.locate "Presence" tool] [answering] s

theorem oneOdd_indifferent : Indifferent (.still : Host Unit) (.still : Host Nat) .standard
    ([.locate "Presence" tool] ++ [answering]) (· ≠ 1)
    (runStops .still .standard (oneOdd unlucky) .start ())
    (runStops .still .standard (oneOdd straying) .start 0) where
  probes i x x' hx hx' _ := by
    rcases i with _ | _ | _ | i
    · cases hx
      cases hx'
      exact .refl _
    · cases hx
      cases hx'
      exact .refl []
    · cases hx
      cases hx'
      exact .refl []
    · cases hx
  serves _ x x' _ _ _ _ := x.scenario.still_serves _ _

theorem isolates_oneOdd :
    (∀ s ∈ unlucky :: straying :: ([.locate "Presence" tool] ++ [answering]),
      s.Judges Request.Silent) ∧
    unlucky.sectionName = straying.sectionName ∧ unlucky.binary = straying.binary ∧
    ∃ before after vs vs',
      (((oneOdd unlucky).run .standard .start).run (.still : Host Unit) ()).1.result =
        .ok ⟨"Odd", before ++ ⟨"Response", "odd", vs⟩ :: after⟩ ∧
      (((oneOdd straying).run .standard .start).run (.still : Host Nat) 0).1.result =
        .ok ⟨"Odd", before ++ ⟨"Response", "odd", vs'⟩ :: after⟩ ∧
      vs = [.fail "odd aborted: no luck"] := by
  obtain ⟨before, after, vs, vs', _, _, _, _, hbefore, -, rfl, rfl, hone, hother, -⟩ :=
    isolates (a := unlucky) (b := straying) Host.still_takesAll Host.still_takesAll "Odd" rfl rfl
      oneOdd_judges .start .start () 0 oneOdd_indifferent
  refine ⟨oneOdd_judges, rfl, rfl, before, after, vs, vs', hone, hother, ?_⟩
  obtain ⟨entry, rfl⟩ := List.length_eq_one_iff.mp hbefore
  have hfailed : (((oneOdd unlucky).run .standard .start).run (.still : Host Unit) ()).1.result =
      .ok ⟨"Odd", [⟨"Presence", "tool", [.pass "tool exists and is executable"]⟩,
        ⟨"Response", "odd", [.fail "odd aborted: no luck"]⟩,
        ⟨"Response", "answer", [.pass "answers"]⟩]⟩ := rfl
  cases hone.symm.trans hfailed
  rfl

end Suite

end SmokeBench
