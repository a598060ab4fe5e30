import SmokeBench.Proofs.Encoding
import SmokeBench.Proofs.Files
import SmokeBench.Proofs.JsonReader
import SmokeBench.Summary.Basic

/-! A summary is read back from what is stored of it. No name comes twice in an object of a summary, so
putting the members in order loses nothing, and each part of a summary is found again under its name.
Two summaries are therefore never stored as the same bytes. -/

namespace SmokeBench

open Dialogue

namespace Summary.Json

/-- The names of the members of every object, from the outermost to the innermost, are as wanted. -/
inductive Every (P : List String → Prop) : Json → Prop
  | number (n : Nat) : Every P (.number n)
  | string (s : String) : Every P (.string s)
  | array {items : List Json} (h : ∀ j ∈ items, Every P j) : Every P (.array items)
  | object {members : List (String × Json)} (names : P (members.map Prod.fst))
      (h : ∀ m ∈ members, Every P m.2) : Every P (.object members)

/-- No object has a name twice. -/
abbrev Distinct : Json → Prop := Every List.Nodup

/-- Every object has its names in order, each of them once. -/
abbrev Ordered : Json → Prop := Every (List.Pairwise (· < ·))

theorem names_inOrder {α : Type} (members : List (String × α)) :
    ((inOrder members).map Prod.fst).Perm (members.map Prod.fst) :=
  (List.mergeSort_perm _ _).map _

theorem inOrder_strict {α : Type} {members : List (String × α)}
    (h : (members.map Prod.fst).Nodup) : ((inOrder members).map Prod.fst).Pairwise (· < ·) := by
  have hle : (inOrder members).Pairwise fun a b => decide (a.1 ≤ b.1) := by
    refine List.pairwise_mergeSort ?_ ?_ members
    · intro a b c hab hbc
      exact decide_eq_true (le_trans (of_decide_eq_true hab) (of_decide_eq_true hbc))
    · intro a b
      rcases le_total a.1 b.1 with hab | hba
      · simp [hab]
      · simp [hba]
  have hne : ((inOrder members).map Prod.fst).Pairwise (· ≠ ·) := (names_inOrder members).nodup_iff.mpr h
  rw [List.pairwise_map] at hne ⊢
  exact (hle.and hne).imp fun hab => lt_of_le_of_ne (of_decide_eq_true hab.1) hab.2

theorem Distinct.sorted {j : Json} (h : j.Distinct) : j.sorted.Ordered := by
  induction h with
  | number n => exact .number n
  | string s => exact .string s
  | array _ ih =>
    rw [sorted_array]
    refine .array fun j hj => ?_
    obtain ⟨item, hitem, rfl⟩ := List.mem_map.mp hj
    exact ih item hitem
  | object names _ ih =>
    rw [sorted_object]
    refine .object ?_ fun m hm => ?_
    · rw [List.map_map]
      exact inOrder_strict names
    · obtain ⟨member, hmember, rfl⟩ := List.mem_map.mp hm
      exact ih member (mem_inOrder.mp hmember)

def get? (name : String) : Json → Option Json
  | .object members => members.lookup name
  | _ => none

theorem lookup_eq_some_iff {α : Type} {members : List (String × α)}
    (h : (members.map Prod.fst).Nodup) {name : String} {x : α} :
    members.lookup name = some x ↔ (name, x) ∈ members := by
  induction members with
  | nil => simp
  | cons m rest ih =>
    obtain ⟨key, y⟩ := m
    obtain ⟨hkey, hrest⟩ := List.nodup_cons.mp h
    rw [List.lookup_cons, List.mem_cons]
    by_cases heq : name = key
    · subst heq
      have hnot : (name, x) ∉ rest := fun hmem => hkey (List.mem_map.mpr ⟨_, hmem, rfl⟩)
      simp [hnot, eq_comm]
    · have hbeq : (name == key) = false := beq_eq_false_iff_ne.mpr heq
      rw [hbeq, or_iff_right fun hsame => heq (congrArg Prod.fst hsame)]
      exact ih hrest

theorem Every.names {P : List String → Prop} {members : List (String × Json)}
    (h : (Json.object members).Every P) : P (members.map Prod.fst) := by
  cases h with
  | object names _ => exact names

theorem get?_sorted {members : List (String × Json)} (h : (object members).Distinct)
    {name : String} {j : Json} (hj : (name, j) ∈ members) :
    get? name (object members).sorted = some j.sorted := by
  have hnames : (((inOrder members).map fun m => (m.1, m.2.sorted)).map Prod.fst).Nodup := by
    rw [List.map_map]
    exact (names_inOrder members).nodup_iff.mpr h.names
  rw [sorted_object, get?, lookup_eq_some_iff hnames]
  exact List.mem_map_of_mem (f := fun m => (m.1, m.2.sorted)) (mem_inOrder.mpr hj)

def textAt (name : String) (j : Json) : Option String :=
  match j.get? name with
  | some (.string s) => some s
  | _ => none

def countAt (name : String) (j : Json) : Option Nat :=
  match j.get? name with
  | some (.number n) => some n
  | _ => none

/-- The items under a name, if all of them can be read. -/
def itemsAt {α : Type} (name : String) (item : Json → Option α) (j : Json) : Option (List α) :=
  match j.get? name with
  | some (.array items) => items.mapM item
  | _ => none

theorem mapM_written {α : Type} {xs : List α} {write : α → Json} {item : Json → Option α}
    (h : ∀ x ∈ xs, item (write x).sorted = some x) :
    (xs.map (sorted ∘ write)).mapM item = some xs := by
  induction xs with
  | nil => rfl
  | cons x xs ih =>
    obtain ⟨hx, hxs⟩ := List.forall_mem_cons.mp h
    rw [List.map_cons, List.mapM_cons, Function.comp_apply, hx, ih hxs]
    rfl

section Found

variable {members : List (String × Json)} (h : (object members).Distinct) {name : String}

include h

theorem textAt_sorted {s : String} (hs : (name, .string s) ∈ members) :
    textAt name (object members).sorted = some s := by
  rw [textAt, get?_sorted h hs]
  rfl

theorem countAt_sorted {n : Nat} (hn : (name, .number n) ∈ members) :
    countAt name (object members).sorted = some n := by
  rw [countAt, get?_sorted h hn]
  rfl

theorem itemsAt_sorted {α : Type} {xs : List α} {write : α → Json} {item : Json → Option α}
    (hxs : (name, .array (xs.map write)) ∈ members)
    (hitem : ∀ x ∈ xs, item (write x).sorted = some x) :
    itemsAt name item (object members).sorted = some xs := by
  rw [itemsAt, get?_sorted h hxs, sorted_array, List.map_map]
  exact mapM_written hitem

end Found

end Summary.Json

namespace RunSummary

open Summary (Json)
open Summary.Json (textAt countAt itemsAt)

def outcomeOf (label : String) : Option Outcome :=
  [.pass, .fail, .skip, .info].find? (·.label == label)

def verdictOf (j : Json) : Option Verdict := do
  return ⟨← outcomeOf (← textAt "outcome" j), ← textAt "message" j⟩

def scenarioOf (j : Json) : Option ScenarioReport := do
  return ⟨← textAt "section" j, ← textAt "name" j, ← itemsAt "verdicts" verdictOf j⟩

def suiteOf (j : Json) : Option SuiteReport := do
  return ⟨← textAt "title" j, ← itemsAt "scenarios" scenarioOf j⟩

def tallyOf (j : Json) : Option Tally := do
  return ⟨← countAt "passed" j, ← countAt "failed" j, ← countAt "skipped" j, ← countAt "info" j⟩

def ofJson (j : Json) : Option RunSummary := do
  return {
    status := ← textAt "status" j
    startedAt := ← countAt "started_at_ms" j
    endedAt := ← countAt "ended_at_ms" j
    durationMs := ← countAt "duration_ms" j
    totals := ← tallyOf (← j.get? "totals")
    suites := ← itemsAt "suites" suiteOf j }

def documentOf (b : Bytes) : Option Json := do Json.read (← Text.Utf8.strict b)

def ofBytes (b : Bytes) : Option RunSummary := do ofJson (← documentOf b)

theorem outcomeOf_label (o : Outcome) : outcomeOf o.label = some o := by
  cases o <;> decide

theorem verdictJson_distinct (v : Verdict) : (verdictJson v).Distinct := by
  refine .object (by decide : ["outcome", "message"].Nodup) ?_
  simp only [List.mem_cons, List.not_mem_nil, or_false, forall_eq_or_imp, forall_eq]
  exact ⟨.string _, .string _⟩

theorem verdictOf_sorted (v : Verdict) : verdictOf (verdictJson v).sorted = some v := by
  have h := verdictJson_distinct v
  have houtcome : textAt "outcome" (verdictJson v).sorted = some v.outcome.label :=
    Json.textAt_sorted h (by simp)
  have hmessage : textAt "message" (verdictJson v).sorted = some v.message :=
    Json.textAt_sorted h (by simp)
  rw [verdictOf, houtcome, hmessage]
  exact congrArg (Option.bind · _) (outcomeOf_label v.outcome)

theorem scenarioJson_distinct (r : ScenarioReport) : (scenarioJson r).Distinct := by
  refine .object (by decide : ["section", "name", "verdicts"].Nodup) ?_
  simp only [List.mem_cons, List.not_mem_nil, or_false, forall_eq_or_imp, forall_eq]
  refine ⟨.string _, .string _, .array ?_⟩
  rw [List.forall_mem_map]
  exact fun v _ => verdictJson_distinct v

theorem scenarioOf_sorted (r : ScenarioReport) : scenarioOf (scenarioJson r).sorted = some r := by
  have h := scenarioJson_distinct r
  have hsection : textAt "section" (scenarioJson r).sorted = some r.sectionName :=
    Json.textAt_sorted h (by simp)
  have hname : textAt "name" (scenarioJson r).sorted = some r.name :=
    Json.textAt_sorted h (by simp)
  have hverdicts : itemsAt "verdicts" verdictOf (scenarioJson r).sorted = some r.verdicts :=
    Json.itemsAt_sorted h (by simp) fun v _ => verdictOf_sorted v
  rw [scenarioOf, hsection, hname, hverdicts]
  rfl

theorem suiteJson_distinct (r : SuiteReport) : (suiteJson r).Distinct := by
  refine .object (by decide : ["title", "scenarios"].Nodup) ?_
  simp only [List.mem_cons, List.not_mem_nil, or_false, forall_eq_or_imp, forall_eq]
  refine ⟨.string _, .array ?_⟩
  rw [List.forall_mem_map]
  exact fun r _ => scenarioJson_distinct r

theorem suiteOf_sorted (r : SuiteReport) : suiteOf (suiteJson r).sorted = some r := by
  have h := suiteJson_distinct r
  have htitle : textAt "title" (suiteJson r).sorted = some r.title :=
    Json.textAt_sorted h (by simp)
  have hscenarios : itemsAt "scenarios" scenarioOf (suiteJson r).sorted = some r.scenarios :=
    Json.itemsAt_sorted h (by simp) fun r _ => scenarioOf_sorted r
  rw [suiteOf, htitle, hscenarios]
  rfl

theorem tallyJson_distinct (t : Tally) : (tallyJson t).Distinct := by
  refine .object (by decide : ["passed", "failed", "skipped", "info"].Nodup) ?_
  simp only [List.mem_cons, List.not_mem_nil, or_false, forall_eq_or_imp, forall_eq]
  exact ⟨.number _, .number _, .number _, .number _⟩

theorem tallyOf_sorted (t : Tally) : tallyOf (tallyJson t).sorted = some t := by
  have h := tallyJson_distinct t
  have hpassed : countAt "passed" (tallyJson t).sorted = some t.passed :=
    Json.countAt_sorted h (by simp)
  have hfailed : countAt "failed" (tallyJson t).sorted = some t.failed :=
    Json.countAt_sorted h (by simp)
  have hskipped : countAt "skipped" (tallyJson t).sorted = some t.skipped :=
    Json.countAt_sorted h (by simp)
  have hinfo : countAt "info" (tallyJson t).sorted = some t.info :=
    Json.countAt_sorted h (by simp)
  rw [tallyOf, hpassed, hfailed, hskipped, hinfo]
  rfl

theorem toJson_distinct (s : RunSummary) : s.toJson.Distinct := by
  refine .object (by decide :
    ["status", "started_at_ms", "ended_at_ms", "duration_ms", "totals", "suites"].Nodup) ?_
  simp only [List.mem_cons, List.not_mem_nil, or_false, forall_eq_or_imp, forall_eq]
  refine ⟨.string _, .number _, .number _, .number _, tallyJson_distinct _, .array ?_⟩
  rw [List.forall_mem_map]
  exact fun r _ => suiteJson_distinct r

theorem ofJson_sorted (s : RunSummary) : ofJson s.toJson.sorted = some s := by
  have h := toJson_distinct s
  have hstatus : textAt "status" s.toJson.sorted = some s.status :=
    Json.textAt_sorted h (by simp)
  have hstarted : countAt "started_at_ms" s.toJson.sorted = some s.startedAt :=
    Json.countAt_sorted h (by simp)
  have hended : countAt "ended_at_ms" s.toJson.sorted = some s.endedAt :=
    Json.countAt_sorted h (by simp)
  have hduration : countAt "duration_ms" s.toJson.sorted = some s.durationMs :=
    Json.countAt_sorted h (by simp)
  have htotals : s.toJson.sorted.get? "totals" = some (tallyJson s.totals).sorted :=
    Json.get?_sorted h (by simp)
  have hsuites : itemsAt "suites" suiteOf s.toJson.sorted = some s.suites :=
    Json.itemsAt_sorted h (by simp) fun r _ => suiteOf_sorted r
  rw [ofJson, hstatus, hstarted, hended, hduration, htotals, hsuites]
  exact congrArg (Option.bind · _) (tallyOf_sorted s.totals)

theorem documentOf_canonical (s : RunSummary) :
    documentOf (Bytes.ofString s.canonical) = some s.toJson.sorted := by
  rw [documentOf, Text.Utf8.strict_ofString, Option.bind_eq_bind, Option.bind_some, canonical]
  exact Json.read_render s.toJson

theorem ofBytes_canonical (s : RunSummary) : ofBytes (Bytes.ofString s.canonical) = some s := by
  rw [ofBytes, documentOf_canonical]
  exact ofJson_sorted s

section Stored

variable (s : RunSummary) (dir : Path)

def jsonPath : Path := dir.join (.ofString jsonName)
def digestPath : Path := dir.join (.ofString digestName)

theorem jsonPath_ne_digestPath : jsonPath dir ≠ digestPath dir := by
  intro h
  have hname : Path.ofString jsonName = Path.ofString digestName :=
    Path.join_cancel (by decide) (by decide) h
  exact absurd hname (by decide)

theorem writeTo_only : (s.writeTo dir).Only fun r => r.digs ∨
    r = .store (jsonPath dir) (Bytes.ofString s.canonical) ∨
    r = .store (digestPath dir) (Bytes.ofString s.digest) := by
  have hstore {P : Request → Prop} (path : Path) (text : String)
      (h : P (.store path (Bytes.ofString text))) : (storeAt path text).Only P := by
    refine Only.bind (only_ask h) fun reply => ?_
    split <;> exact only_pure _
  unfold writeTo
  refine Only.bind ((makeDirsWithin_only _ dir).mono fun r h => .inl h) fun made => ?_
  split
  · exact only_pure _
  · refine (hstore _ _ (.inr (.inl rfl))).bind fun json => ?_
    split
    · exact only_pure _
    · refine (hstore _ _ (.inr (.inr rfl))).bind fun digest => ?_
      split <;> exact only_pure _

variable {σ : Type} (host : Host σ) (st : σ)

theorem stored_canonical {content : Bytes} {reply : Except IoError Unit}
    (h : ⟨.store (jsonPath dir) content, reply⟩ ∈ (s.writeTo dir).journal host st) :
    content = Bytes.ofString s.canonical := by
  rcases (writeTo_only s dir).journal st _ h with hdigs | hjson | hdigest
  · cases hdigs
  · exact (Request.store.inj hjson).2
  · exact absurd (Request.store.inj hdigest).1 (jsonPath_ne_digestPath dir)

variable {host st}

theorem storeAt_ok {path p : Path} {text : String} {st : σ}
    (h : ((storeAt path text).run host st).1 = .ok p) :
    ⟨.store path (Bytes.ofString text), .ok ()⟩ ∈ (storeAt path text).journal host st := by
  unfold storeAt at h ⊢
  rw [run_bind, run_ask] at h
  rw [journal_bind, journal_ask]
  generalize (host.answer (.store path (Bytes.ofString text)) st).1 = reply at h ⊢
  rcases reply with e | ⟨⟩
  · cases h
  · exact List.mem_append_left _ (List.mem_singleton_self _)

theorem canonical_stored {paths : List Path} (h : ((s.writeTo dir).run host st).1 = .ok paths) :
    ⟨.store (jsonPath dir) (Bytes.ofString s.canonical), .ok ()⟩ ∈
      (s.writeTo dir).journal host st := by
  unfold writeTo at h ⊢
  rw [run_bind] at h
  rw [journal_bind]
  generalize (makeDirs dir).run host st = made at h ⊢
  obtain ⟨made, st⟩ := made
  rcases made with e | ⟨⟩
  · cases h
  refine List.mem_append_right _ ?_
  dsimp only at h ⊢
  rw [run_bind] at h
  rw [journal_bind]
  refine List.mem_append_left _ ?_
  rcases hstored : ((storeAt (dir.join (.ofString jsonName)) s.canonical).run host st).1 with e | p
  · rw [hstored] at h
    cases h
  · exact storeAt_ok hstored

end Stored

/-- A summary is read back, whole and with its members in order, from whatever is stored of it in
whatever directory; so what is stored of it is stored of no other. It is stored if it was written. -/
theorem writeTo_readable {σ : Type} (host : Host σ) (s : RunSummary) (dir : Path) (st : σ) :
    (∀ content reply, ⟨.store (jsonPath dir) content, reply⟩ ∈ (s.writeTo dir).journal host st →
      ofBytes content = some s ∧
      (∃ j, documentOf content = some j ∧ j.Ordered) ∧
      ∀ (t : RunSummary) (st' : σ) (dir' : Path) (reply' : Except IoError Unit),
        ⟨.store (jsonPath dir') content, reply'⟩ ∈ (t.writeTo dir').journal host st' → t = s) ∧
    ∀ paths, ((s.writeTo dir).run host st).1 = .ok paths →
      ∃ content, ⟨.store (jsonPath dir) content, .ok ()⟩ ∈ (s.writeTo dir).journal host st := by
  constructor
  · intro content reply hstored
    obtain rfl := stored_canonical s dir host st hstored
    refine ⟨ofBytes_canonical s, ⟨_, documentOf_canonical s, (toJson_distinct s).sorted⟩, ?_⟩
    intro t st' dir' reply' hother
    have hsame := stored_canonical t dir' host st' hother
    have hread := ofBytes_canonical t
    rw [← hsame, ofBytes_canonical s] at hread
    exact (Option.some.inj hread).symm
  · intro paths hwritten
    exact ⟨_, canonical_stored s dir hwritten⟩

/-- A summary with a time beyond the integers of a double, and with texts to be escaped. -/
def oddSummary : RunSummary where
  status := "fail"
  startedAt := 2 ^ 53 + 1
  endedAt := 2 ^ 64 - 1
  durationMs := 2 ^ 64 - 2 ^ 53 - 2
  totals := ⟨0, 1, 0, 0⟩
  suites := [⟨"Odd \"texts\"", [⟨"C:\\dir", "\x01\x7f", [.fail "two\nlines, é and 😀"]⟩]⟩]

theorem writeTo_readable_odd : ∃ content,
    ⟨.store (jsonPath (.ofString "/tmp/out")) content, .ok ()⟩ ∈
      (oddSummary.writeTo (.ofString "/tmp/out")).journal .shelf [[Bytes.ofString "tmp"]] ∧
    ofBytes content = some oddSummary := by
  obtain ⟨hread, hstored⟩ :=
    writeTo_readable .shelf oddSummary (.ofString "/tmp/out") [[Bytes.ofString "tmp"]]
  have hwritten : ((oddSummary.writeTo (.ofString "/tmp/out")).run .shelf
      [[Bytes.ofString "tmp"]]).1 =
        .ok [jsonPath (.ofString "/tmp/out"), digestPath (.ofString "/tmp/out")] := by
    decide +kernel
  obtain ⟨content, hcontent⟩ := hstored _ hwritten
  exact ⟨content, hcontent, (hread content _ hcontent).1⟩

end RunSummary

end SmokeBench
