import Mathlib.Data.List.Basic
import SmokeBench.Proofs.JsonReader
import SmokeBench.Proofs.Lines
import SmokeBench.Summary.Basic

/-! A digest is read back line by line. Each line tells by itself what it is: a heading, a scenario, a
verdict and the word for no scenarios begin or end in ways of their own, whatever the texts in them
look like. So the lines are read one by one, from the last one up, and nothing that they tell is
lost. The line with the duration is the last of its kind, so whatever stands before it is the status. -/

namespace SmokeBench

namespace Digest

structure ToldScenario where
  name : String
  outcome : Outcome
  verdicts : List Verdict
  deriving DecidableEq, Repr

structure ToldSuite where
  title : String
  scenarios : List ToldScenario
  deriving DecidableEq, Repr

/-- What a digest tells of a run: all but the sections of scenarios and the times on the calendar. -/
structure Told where
  status : String
  durationMs : Nat
  totals : Tally
  suites : List ToldSuite
  deriving DecidableEq, Repr

inductive Line
  | blank
  | heading (title : String)
  | nothing
  | entry (name : String) (outcome : Outcome)
  | verdict (v : Verdict)
  deriving DecidableEq, Repr

def entryEnd (o : Outcome) : String := " (" ++ o.label ++ ")"

def verdictStart (o : Outcome) : String := "  - " ++ o.label ++ ": "

def Line.text : Line → String
  | blank => ""
  | heading title => "## " ++ title
  | nothing => "- None"
  | entry name outcome => "- " ++ name ++ entryEnd outcome
  | verdict v => verdictStart v.outcome ++ v.message

def ToldScenario.lines (r : ToldScenario) : List Line :=
  .entry r.name r.outcome :: r.verdicts.map .verdict

def ToldSuite.lines (r : ToldSuite) : List Line :=
  [.blank, .heading r.title, .blank] ++
    if r.scenarios.isEmpty then [.nothing] else r.scenarios.flatMap (·.lines)

section Line

def between (start stop l : String) : Option String :=
  ((l.toList.dropPrefix? start.toList).bind (·.dropSuffix? stop.toList)).map String.ofList

def outcomes : List Outcome := [.pass, .fail, .skip, .info]

def entryOf (l : String) : Option Line :=
  outcomes.findSome? fun o => (between "- " (entryEnd o) l).map (.entry · o)

def verdictOf (l : String) : Option Line :=
  outcomes.findSome? fun o => (between (verdictStart o) "" l).map fun m => .verdict ⟨o, m⟩

def lineOf (l : String) : Option Line :=
  if l = "" then some .blank
  else if l = "- None" then some .nothing
  else ((between "## " "" l).map .heading).or ((entryOf l).or (verdictOf l))

theorem between_iff {start stop l inner : String} :
    between start stop l = some inner ↔ l = start ++ inner ++ stop := by
  unfold between
  rw [Option.map_eq_some_iff]
  simp only [Option.bind_eq_some_iff, List.dropPrefix?_eq_some_iff, List.dropSuffix?_eq_some_iff,
    beq_iff_eq]
  constructor
  · rintro ⟨cs, ⟨ds, ⟨_, hl, rfl⟩, _, rfl, rfl⟩, rfl⟩
    apply String.toList_injective
    simp [hl]
  · rintro rfl
    exact ⟨inner.toList, ⟨_, ⟨_, by simp, rfl⟩, _, rfl, rfl⟩, String.ofList_toList⟩

theorem between_start (start inner : String) : between start "" (start ++ inner) = some inner :=
  between_iff.mpr String.append_empty.symm

theorem between_eq_none {c d : Char} {start l : String} {cs ds : List Char}
    (hstart : start.toList = c :: cs) (hl : l.toList = d :: ds) (hne : c ≠ d) (stop : String) :
    between start stop l = none := by
  rw [Option.eq_none_iff_forall_ne_some]
  intro inner hinner
  have htext := congrArg String.toList (between_iff.mp hinner)
  rw [hl, String.toList_append, String.toList_append, hstart] at htext
  exact hne (List.cons.inj htext).1.symm

theorem findSome?_outcomes {α : Type} {f : Outcome → Option α} {o : Outcome} {x : α}
    (hx : f o = some x) (honly : ∀ o' y, f o' = some y → o' = o) :
    outcomes.findSome? f = some x := by
  cases hfound : outcomes.findSome? f with
  | none =>
    have hmem : o ∈ outcomes := by cases o <;> decide
    rw [List.findSome?_eq_none_iff.mp hfound o hmem] at hx
    cases hx
  | some y =>
    obtain ⟨o', -, hy⟩ := List.exists_of_findSome?_eq_some hfound
    rw [honly o' y hy, hx] at hy
    exact hy.symm

theorem entryEnd_length (o : Outcome) : (entryEnd o).toList.length = 7 := by
  cases o <;> decide

theorem verdictStart_length (o : Outcome) : (verdictStart o).toList.length = 10 := by
  cases o <;> decide

theorem entryEnd_injective :
    ∀ {o o' : Outcome}, (entryEnd o).toList = (entryEnd o').toList → o = o' := by
  intro o o'
  cases o <;> cases o' <;> decide

theorem verdictStart_injective :
    ∀ {o o' : Outcome}, (verdictStart o).toList = (verdictStart o').toList → o = o' := by
  intro o o'
  cases o <;> cases o' <;> decide

theorem entryOf_text (name : String) (o : Outcome) :
    entryOf (Line.entry name o).text = some (.entry name o) := by
  refine findSome?_outcomes (o := o) ?_ ?_
  · rw [Line.text, between_iff.mpr rfl]
    rfl
  · intro o' y hy
    obtain ⟨inner, hinner, -⟩ := Option.map_eq_some_iff.mp hy
    have htext : ("- " ++ name).toList ++ (entryEnd o).toList =
        ("- " ++ inner).toList ++ (entryEnd o').toList := by
      rw [← String.toList_append, ← String.toList_append]
      exact congrArg String.toList (between_iff.mp hinner)
    refine entryEnd_injective (List.append_inj_right' htext ?_).symm
    rw [entryEnd_length, entryEnd_length]

theorem verdictOf_text (v : Verdict) : verdictOf (Line.verdict v).text = some (.verdict v) := by
  refine findSome?_outcomes (o := v.outcome) ?_ ?_
  · rw [Line.text, between_start]
    rfl
  · intro o' y hy
    obtain ⟨inner, hinner, -⟩ := Option.map_eq_some_iff.mp hy
    have htext := congrArg String.toList (between_iff.mp hinner)
    rw [Line.text, String.append_empty, String.toList_append, String.toList_append] at htext
    refine verdictStart_injective (List.append_inj_left htext ?_).symm
    rw [verdictStart_length, verdictStart_length]

theorem toList_append_cons {c : Char} {cs : List Char} {a : String} (h : a.toList = c :: cs)
    (b : String) : (a ++ b).toList = c :: (cs ++ b.toList) := by
  rw [String.toList_append, h, List.cons_append]

theorem heading_chars (title : String) :
    (Line.heading title).text.toList = '#' :: ("# ".toList ++ title.toList) :=
  toList_append_cons rfl _

theorem entry_chars (name : String) (o : Outcome) : (Line.entry name o).text.toList =
    '-' :: (" ".toList ++ name.toList ++ (entryEnd o).toList) :=
  toList_append_cons (toList_append_cons rfl _) _

theorem verdict_chars (v : Verdict) : ∃ cs, (Line.verdict v).text.toList = ' ' :: cs :=
  ⟨_, toList_append_cons (toList_append_cons (toList_append_cons rfl _) _) _⟩

theorem ne_of_head {c d : Char} {a b : String} {cs ds : List Char} (ha : a.toList = c :: cs)
    (hb : b.toList = d :: ds) (h : c ≠ d) : a ≠ b := by
  rintro rfl
  rw [ha] at hb
  exact h (List.cons.inj hb).1

theorem ne_empty {c : Char} {a : String} {cs : List Char} (ha : a.toList = c :: cs) : a ≠ "" := by
  rintro rfl
  cases ha

theorem getLast?_entry (name : String) (o : Outcome) :
    (Line.entry name o).text.toList.getLast? = some ')' := by
  have hend : (entryEnd o).toList.getLast? = some ')' := by cases o <;> decide
  rw [Line.text, String.toList_append, List.getLast?_append, hend]
  rfl

theorem lineOf_text (l : Line) : lineOf l.text = some l := by
  unfold lineOf
  cases l with
  | blank => rfl
  | nothing => rfl
  | heading title =>
    have hchars := heading_chars title
    rw [if_neg (ne_empty hchars), if_neg (ne_of_head hchars rfl (by decide)), Line.text,
      between_start]
    rfl
  | entry name o =>
    have hchars := entry_chars name o
    have hnothing : (Line.entry name o).text ≠ "- None" := by
      intro heq
      have hlast := getLast?_entry name o
      rw [heq] at hlast
      exact absurd hlast (by decide)
    rw [if_neg (ne_empty hchars), if_neg hnothing, between_eq_none rfl hchars (by decide),
      entryOf_text]
    rfl
  | verdict v =>
    obtain ⟨cs, hchars⟩ := verdict_chars v
    have hentry : entryOf (Line.verdict v).text = none := by
      refine List.findSome?_eq_none_iff.mpr fun o _ => ?_
      rw [between_eq_none rfl hchars (by decide)]
      rfl
    rw [if_neg (ne_empty hchars), if_neg (ne_of_head hchars rfl (by decide)),
      between_eq_none rfl hchars (by decide), hentry, verdictOf_text]
    rfl

end Line

section Suites

/-- What the lines read so far, from the last one up, tell: verdicts and scenarios that wait for the
line they belong to, and whole suites. -/
structure Gathered where
  verdicts : List Verdict
  scenarios : List ToldScenario
  suites : List ToldSuite

def Gathered.empty : Gathered := ⟨[], [], []⟩

def Gathered.add : Line → Gathered → Gathered
  | .verdict v, g => { g with verdicts := v :: g.verdicts }
  | .entry name outcome, g =>
    { g with verdicts := [], scenarios := ⟨name, outcome, g.verdicts⟩ :: g.scenarios }
  | .heading title, g => ⟨[], [], ⟨title, g.scenarios⟩ :: g.suites⟩
  | .blank, g | .nothing, g => g

def gather (ls : List Line) : Gathered := ls.foldr Gathered.add .empty

theorem gather_verdicts (vs : List Verdict) (scenarios : List ToldScenario)
    (suites : List ToldSuite) :
    (vs.map Line.verdict).foldr Gathered.add ⟨[], scenarios, suites⟩ = ⟨vs, scenarios, suites⟩ := by
  induction vs with
  | nil => rfl
  | cons v rest ih => rw [List.map_cons, List.foldr_cons, ih, Gathered.add]

theorem gather_scenarios (rs : List ToldScenario) (suites : List ToldSuite) :
    (rs.flatMap (·.lines)).foldr Gathered.add ⟨[], [], suites⟩ = ⟨[], rs, suites⟩ := by
  induction rs with
  | nil => rfl
  | cons r rest ih =>
    rw [List.flatMap_cons, List.foldr_append, ih, ToldScenario.lines, List.foldr_cons,
      gather_verdicts, Gathered.add]

theorem gather_suite (r : ToldSuite) (suites : List ToldSuite) :
    r.lines.foldr Gathered.add ⟨[], [], suites⟩ = ⟨[], [], r :: suites⟩ := by
  have hbody : (if r.scenarios.isEmpty then [Line.nothing] else r.scenarios.flatMap (·.lines)).foldr
      Gathered.add ⟨[], [], suites⟩ = ⟨[], r.scenarios, suites⟩ := by
    split
    · rename_i hempty
      rw [List.isEmpty_iff.mp hempty]
      rfl
    · exact gather_scenarios r.scenarios suites
  rw [ToldSuite.lines, List.foldr_append, hbody]
  rfl

theorem gather_suites (rs : List ToldSuite) :
    gather (rs.flatMap (·.lines)) = ⟨[], [], rs⟩ := by
  unfold gather
  induction rs with
  | nil => rfl
  | cons r rest ih => rw [List.flatMap_cons, List.foldr_append, ih, gather_suite]

def suitesOf (ls : List String) : Option (List ToldSuite) :=
  (ls.mapM lineOf).map fun lines => (gather lines).suites

theorem suitesOf_text (rs : List ToldSuite) :
    suitesOf ((rs.flatMap (·.lines)).map Line.text ++ [""]) = some rs := by
  have hlines (ls : List Line) : (ls.map Line.text).mapM lineOf = some ls := by
    induction ls with
    | nil => rfl
    | cons l rest ih =>
      rw [List.map_cons, List.mapM_cons, lineOf_text, ih]
      rfl
  -- behind the last line feed stands a blank line more
  have hblank : (rs.flatMap (·.lines)).map Line.text ++ [""] =
      (rs.flatMap (·.lines) ++ [Line.blank]).map Line.text := by
    rw [List.map_append]
    rfl
  have hgather : gather (rs.flatMap (·.lines) ++ [Line.blank]) = ⟨[], [], rs⟩ := by
    rw [gather, List.foldr_append]
    exact gather_suites rs
  rw [suitesOf, hblank, hlines, Option.map_some, hgather]

end Suites

section Numbers

open Summary.Json (count count_toString Ends ends_cons)

def durationStart : String := "- Duration (ms): "

def durationLine (n : Nat) : String := durationStart ++ toString n

def checksLine (t : Tally) : String :=
  "- Checks: " ++ toString t.passed ++ " passed, " ++ toString t.failed ++ " failed, " ++
    (toString t.skipped ++ " skipped, " ++ toString t.info ++ " info")

def durationOf (l : String) : Option Nat := do
  let (n, rest) ← count (← l.toList.dropPrefix? durationStart.toList)
  if rest = [] then some n else none

def countBefore (stop : String) (cs : List Char) : Option (Nat × List Char) := do
  let (n, rest) ← count cs
  return (n, ← rest.dropPrefix? stop.toList)

def totalsOf (l : String) : Option Tally := do
  let (passed, cs) ← countBefore " passed, " (← l.toList.dropPrefix? "- Checks: ".toList)
  let (failed, cs) ← countBefore " failed, " cs
  let (skipped, cs) ← countBefore " skipped, " cs
  let (info, _) ← countBefore " info" cs
  return ⟨passed, failed, skipped, info⟩

theorem dropPrefix?_append (p cs : List Char) : (p ++ cs).dropPrefix? p = some cs :=
  List.dropPrefix?_append_of_beq cs (beq_self_eq_true p)

theorem durationOf_line (n : Nat) : durationOf (durationLine n) = some n := by
  have hcount : count (toString n).toList = some (n, []) := by
    have hends : Ends [] := by
      rintro c hc
      cases hc
    have h := count_toString n hends
    rwa [List.append_nil] at h
  rw [durationOf, durationLine, String.toList_append, dropPrefix?_append]
  exact (congrArg (Option.bind · _) hcount).trans rfl

theorem countBefore_text (n : Nat) {stop : String} {c : Char} {cs : List Char}
    (hstop : stop.toList = c :: cs) (hc : c.isDigit = false) (rest : List Char) :
    countBefore stop ((toString n).toList ++ (stop.toList ++ rest)) = some (n, rest) := by
  have hends : Ends (stop.toList ++ rest) := by
    rw [hstop]
    exact ends_cons hc
  rw [countBefore, count_toString n hends]
  exact congrArg (Option.bind · _) (dropPrefix?_append _ _)

theorem totalsOf_line (t : Tally) : totalsOf (checksLine t) = some t := by
  have hchars : (checksLine t).toList = "- Checks: ".toList ++ ((toString t.passed).toList ++
      (" passed, ".toList ++ ((toString t.failed).toList ++ (" failed, ".toList ++
        ((toString t.skipped).toList ++ (" skipped, ".toList ++ ((toString t.info).toList ++
          (" info".toList ++ [])))))))) := by
    simp only [checksLine, String.toList_append, List.append_assoc, List.append_nil]
  rw [totalsOf, hchars, dropPrefix?_append]
  dsimp only [Option.bind_eq_bind, Option.bind_some]
  rw [countBefore_text _ rfl (by decide)]
  dsimp only [Option.bind_some]
  rw [countBefore_text _ rfl (by decide)]
  dsimp only [Option.bind_some]
  rw [countBefore_text _ rfl (by decide)]
  dsimp only [Option.bind_some]
  rw [countBefore_text _ rfl (by decide)]
  rfl

theorem count_whole {cs : List Char} {n : Nat} (h : count cs = some (n, [])) :
    cs ≠ [] ∧ ∀ c ∈ cs, c.isDigit = true := by
  unfold count at h
  dsimp only at h
  split_ifs at h with hdigits
  refine ⟨?_, List.dropWhile_eq_nil_iff.mp (congrArg Prod.snd (Option.some.inj h))⟩
  rintro rfl
  exact hdigits (.inl rfl)

theorem durationOf_some {l : String} {n : Nat} (h : durationOf l = some n) :
    l.toList.head? = some '-' ∧ ∃ c, l.toList.getLast? = some c ∧ c.isDigit = true := by
  obtain ⟨cs, hcs, h⟩ := Option.bind_eq_some_iff.mp h
  obtain ⟨⟨m, rest⟩, hcount, h⟩ := Option.bind_eq_some_iff.mp h
  obtain ⟨start, hl, hstart⟩ := List.dropPrefix?_eq_some_iff.mp hcs
  obtain rfl := beq_iff_eq.mp hstart
  dsimp only at h
  split_ifs at h with hrest
  subst hrest
  obtain ⟨hne, hdigits⟩ := count_whole hcount
  rw [hl]
  refine ⟨rfl, cs.getLast hne, ?_, hdigits _ (List.getLast_mem hne)⟩
  rw [List.getLast?_append_of_ne_nil _ hne, List.getLast?_eq_some_getLast hne]

theorem durationOf_eq_none_of_head {d : Char} {l : String} {ds : List Char}
    (hl : l.toList = d :: ds) (hd : d ≠ '-') : durationOf l = none := by
  rw [Option.eq_none_iff_forall_ne_some]
  intro n hn
  have hhead := (durationOf_some hn).1
  rw [hl] at hhead
  exact hd (Option.some.inj hhead)

theorem durationOf_eq_none_of_last {c : Char} {l : String} (hl : l.toList.getLast? = some c)
    (hc : c.isDigit = false) : durationOf l = none := by
  rw [Option.eq_none_iff_forall_ne_some]
  intro n hn
  obtain ⟨d, hd, hdigit⟩ := (durationOf_some hn).2
  rw [hl] at hd
  rw [← Option.some.inj hd, hc] at hdigit
  cases hdigit

/-- No line that tells of suites is taken for the duration, nor is the line with the totals. -/
theorem durationOf_text (l : Line) : durationOf l.text = none := by
  cases l with
  | blank => rfl
  | heading title => exact durationOf_eq_none_of_head (heading_chars title) (by decide)
  | nothing => exact durationOf_eq_none_of_last (c := 'e') rfl (by decide)
  | entry name o => exact durationOf_eq_none_of_last (getLast?_entry name o) (by decide)
  | verdict v =>
    obtain ⟨cs, hchars⟩ := verdict_chars v
    exact durationOf_eq_none_of_head hchars (by decide)

theorem durationOf_checks (t : Tally) : durationOf (checksLine t) = none := by
  refine durationOf_eq_none_of_last (c := 'o') ?_ (by decide)
  rw [checksLine, String.toList_append, List.getLast?_append, String.toList_append,
    List.getLast?_append]
  rfl

end Numbers

section Read

def preface : String := "# Sanity Run Summary\n\n## Status\n\n- Status: "

/-- Reads a digest. The last line with a duration divides it: the status stands before it, which may
run over several lines, and the totals and the suites behind it. -/
def read (text : String) : Option Told := do
  let ls := (Text.lines (← between preface "" text)).reverse
  match (ls.takeWhile fun l => (durationOf l).isNone).reverse,
      ls.dropWhile fun l => (durationOf l).isNone with
  | checks :: suites, duration :: status =>
    return ⟨String.intercalate "\n" status.reverse, ← durationOf duration, ← totalsOf checks,
      ← suitesOf suites⟩
  | _, _ => none

theorem lines_append (a b : String) :
    Text.lines (a ++ "\n" ++ b) = Text.lines a ++ Text.lines b := by
  have hchars : (a ++ "\n" ++ b).toList = a.toList ++ '\n' :: b.toList := by
    rw [String.toList_append, String.toList_append, List.append_assoc]
    rfl
  rw [Text.lines, hchars, List.splitOn_append_cons_self, List.map_append]
  rfl

theorem intercalate_lines (s : String) : String.intercalate "\n" (Text.lines s) = s := by
  apply String.toList_injective
  have hchars : (Text.lines s).map String.toList = s.toList.splitOn '\n' := by
    rw [Text.lines, List.map_map]
    exact (List.map_congr_left fun cs _ => String.toList_ofList).trans (List.map_id _)
  rw [String.toList_intercalate, hchars]
  exact List.intercalate_splitOn '\n'

/-- The line of the duration is found from the end, whatever lines the status has. -/
theorem read_lines (status : String) (n : Nat) (t : Tally) (rs : List ToldSuite) {text : String}
    (h : Text.lines text = Text.lines status ++ durationLine n :: checksLine t ::
      ((rs.flatMap (·.lines)).map Line.text ++ [""])) :
    read (preface ++ text) = some ⟨status, n, t, rs⟩ := by
  set after := checksLine t :: ((rs.flatMap (·.lines)).map Line.text ++ [""]) with hafter
  have hnone : ∀ l ∈ after.reverse, (durationOf l).isNone = true := by
    intro l hl
    rw [List.mem_reverse, hafter, List.mem_cons, List.mem_append, List.mem_singleton] at hl
    rw [Option.isNone_iff_eq_none]
    rcases hl with rfl | hl | rfl
    · exact durationOf_checks t
    · obtain ⟨line, -, rfl⟩ := List.mem_map.mp hl
      exact durationOf_text line
    · rfl
  have hreverse : (Text.lines text).reverse =
      after.reverse ++ durationLine n :: (Text.lines status).reverse := by
    rw [h]
    simp
  have hduration : (durationOf (durationLine n)).isNone = false := by
    rw [durationOf_line]
    rfl
  have htake : (Text.lines text).reverse.takeWhile (fun l => (durationOf l).isNone) =
      after.reverse := by
    rw [hreverse, List.takeWhile_append_of_pos hnone, List.takeWhile_cons, hduration]
    simp
  have hdrop : (Text.lines text).reverse.dropWhile (fun l => (durationOf l).isNone) =
      durationLine n :: (Text.lines status).reverse := by
    rw [hreverse, List.dropWhile_append_of_pos hnone, List.dropWhile_cons, hduration]
    simp
  rw [read, between_start]
  dsimp only [Option.bind_eq_bind, Option.bind_some]
  rw [htake, hdrop, List.reverse_reverse, hafter]
  dsimp only
  rw [List.reverse_reverse, intercalate_lines, durationOf_line, totalsOf_line, suitesOf_text]
  rfl

end Read

end Digest

def ScenarioReport.told (r : ScenarioReport) : Digest.ToldScenario := ⟨r.name, r.outcome, r.verdicts⟩

def SuiteReport.told (r : SuiteReport) : Digest.ToldSuite := ⟨r.title, r.scenarios.map (·.told)⟩

namespace RunSummary

open Digest

def told (s : RunSummary) : Told := ⟨s.status, s.durationMs, s.totals, s.suites.map (·.told)⟩

/-- Titles, names and messages of one line each. -/
structure Lined (s : RunSummary) : Prop where
  titles : ∀ r ∈ s.suites, OneLine r.title
  names : ∀ r ∈ s.suites, ∀ x ∈ r.scenarios, OneLine x.name
  messages : ∀ r ∈ s.suites, ∀ x ∈ r.scenarios, ∀ v ∈ x.verdicts, OneLine v.message

theorem scenarioLines_eq (r : ScenarioReport) :
    scenarioLines r = r.told.lines.map Line.text := by
  have hentry : s!"- {r.name} ({r.outcome.label})" = (Line.entry r.name r.outcome).text := by
    simp only [Line.text, entryEnd, String.append_assoc]
    rfl
  have hverdict (v : Verdict) : "  - " ++ v.display = (Line.verdict v).text := by
    simp only [Line.text, verdictStart, Verdict.display, String.append_assoc]
  rw [scenarioLines, hentry, ToldScenario.lines, List.map_cons, List.map_map]
  exact congrArg (_ :: ·) (List.map_congr_left fun v _ => hverdict v)

theorem suiteLines_eq (r : SuiteReport) : suiteLines r = r.told.lines.map Line.text := by
  have hscenarios : r.scenarios.flatMap scenarioLines =
      (r.told.scenarios.flatMap (·.lines)).map Line.text := by
    rw [SuiteReport.told, List.flatMap_map, List.map_flatMap]
    exact congrArg r.scenarios.flatMap (funext scenarioLines_eq)
  have hempty : r.told.scenarios.isEmpty = r.scenarios.isEmpty := List.isEmpty_map
  rw [suiteLines, hscenarios, ToldSuite.lines, List.map_append, hempty]
  split <;> rfl

theorem digest_eq (s : RunSummary) : s.digest = preface ++ (s.status ++ "\n" ++
    String.join ((durationLine s.durationMs :: checksLine s.totals ::
      (s.told.suites.flatMap (·.lines)).map Line.text).map (· ++ "\n"))) := by
  have hsuites : s.suites.flatMap suiteLines =
      (s.told.suites.flatMap (·.lines)).map Line.text := by
    rw [told, List.flatMap_map, List.map_flatMap]
    exact congrArg s.suites.flatMap (funext suiteLines_eq)
  have hchecks : s!"- Checks: {s.totals.passed} passed, {s.totals.failed} failed, " ++
      s!"{s.totals.skipped} skipped, {s.totals.info} info" = checksLine s.totals := rfl
  have hduration : s!"- Duration (ms): {s.durationMs}" = durationLine s.durationMs := rfl
  rw [digest, digestLines, hsuites, hchecks, hduration]
  apply String.toList_injective
  simp [String.toList_join, preface]

theorem Lined.lines_oneLine {s : RunSummary} (h : s.Lined) :
    ∀ l ∈ s.told.suites.flatMap (·.lines), OneLine l.text := by
  intro l hl
  obtain ⟨told, htold, hl⟩ := List.mem_flatMap.mp hl
  obtain ⟨r, hr, rfl⟩ := List.mem_map.mp htold
  rw [ToldSuite.lines, List.mem_append] at hl
  rcases hl with hhead | hbody
  · simp only [List.mem_cons, List.not_mem_nil, or_false] at hhead
    rcases hhead with rfl | rfl | rfl
    · decide
    · exact (oneLine_append _ _).mpr ⟨.chars (by decide), h.titles r hr⟩
    · decide
  · split at hbody
    · rw [List.mem_singleton.mp hbody]
      decide
    · obtain ⟨told, htold, hl⟩ := List.mem_flatMap.mp hbody
      obtain ⟨x, hx, rfl⟩ := List.mem_map.mp htold
      rcases List.mem_cons.mp hl with rfl | hl
      · have hend : OneLine (entryEnd x.outcome) := by cases x.outcome <;> decide
        exact (oneLine_append _ _).mpr
          ⟨(oneLine_append _ _).mpr ⟨.chars (by decide), h.names r hr x hx⟩, hend⟩
      · obtain ⟨v, hv, rfl⟩ := List.mem_map.mp hl
        have hstart : OneLine (verdictStart v.outcome) := by cases v.outcome <;> decide
        exact (oneLine_append _ _).mpr ⟨hstart, h.messages r hr x hx v hv⟩

theorem read_digest {s : RunSummary} (h : s.Lined) : read s.digest = some s.told := by
  rw [digest_eq]
  refine read_lines s.status s.durationMs s.totals s.told.suites ?_
  rw [lines_append, Text.lines_join_iff _ |>.mpr]
  · rfl
  · intro l hl
    rcases List.mem_cons.mp hl with rfl | hl
    · exact (oneLine_append _ _).mpr ⟨by decide, oneLine_toString _⟩
    rcases List.mem_cons.mp hl with rfl | hl
    · simp only [checksLine, oneLine_append, oneLine_toString, and_true, true_and]
      decide
    · obtain ⟨line, hline, rfl⟩ := List.mem_map.mp hl
      exact h.lines_oneLine line hline

/-- A digest whose titles, names and messages have one line each is read back as all that it tells.
Two of them are the same if and only if they tell the same; sections and the times on the calendar are
not told. -/
theorem digest_readable :
    (∀ s : RunSummary, s.Lined → Digest.read s.digest = some s.told) ∧
    ∀ s t : RunSummary, s.Lined → t.Lined → (s.digest = t.digest ↔ s.told = t.told) := by
  refine ⟨fun s => read_digest, fun s t hs ht => ⟨fun h => ?_, fun h => ?_⟩⟩
  · have hread := read_digest hs
    rw [h, read_digest ht] at hread
    exact (Option.some.inj hread).symm
  · have hstatus : s.status = t.status := congrArg Told.status h
    have hduration : s.durationMs = t.durationMs := congrArg Told.durationMs h
    have htotals : s.totals = t.totals := congrArg Told.totals h
    rw [digest_eq, digest_eq, h, hstatus, hduration, htotals]

/-- A summary with texts that look like lines of a digest, an empty suite and a scenario without
verdicts. -/
def disguised : RunSummary where
  status := "fail"
  startedAt := 1000
  endedAt := 1250
  durationMs := 250
  totals := ⟨1, 1, 0, 0⟩
  suites := [⟨"- None", []⟩, ⟨"", [⟨"A", "None", []⟩, ⟨"B", "- x (PASS)",
    [.fail "PASS: ", .pass "  - INFO: - Duration (ms): 7"]⟩]⟩]

theorem digest_readable_disguised :
    disguised.Lined ∧ Digest.read disguised.digest = some disguised.told ∧
    ({ disguised with startedAt := 0, endedAt := 250 } : RunSummary).digest = disguised.digest := by
  have hlined : disguised.Lined := ⟨by decide, by decide, by decide⟩
  have hlater : ({ disguised with startedAt := 0, endedAt := 250 } : RunSummary).Lined :=
    ⟨hlined.titles, hlined.names, hlined.messages⟩
  exact ⟨hlined, digest_readable.1 disguised hlined,
    (digest_readable.2 _ disguised hlater hlined).mpr rfl⟩

end RunSummary

end SmokeBench
