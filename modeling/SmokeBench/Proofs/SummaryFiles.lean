import SmokeBench.Proofs.Evaluators
import SmokeBench.Proofs.Places
import SmokeBench.Proofs.SummaryReader
import SmokeBench.Proofs.Visits

/-! The files of a summary. A summary was written exactly if both of its files were stored; what is
stored under their names is the summary and its digest, and no file of a scenario has such a name,
since the names end in different letters. -/

namespace SmokeBench

open Dialogue

def Stored (j : List Exchange) (path : Path) : Prop :=
  ∃ content, ⟨.store path content, .ok ()⟩ ∈ j

theorem stored_append {i j : List Exchange} {path : Path} :
    Stored (i ++ j) path ↔ Stored i path ∨ Stored j path := by
  simp only [Stored, List.mem_append, exists_or]

theorem stored_singleton {p q : Path} {content : Bytes} {reply : Except IoError Unit} :
    Stored [⟨.store p content, reply⟩] q ↔ q = p ∧ reply = .ok () := by
  constructor
  · rintro ⟨content, hmem⟩
    cases List.mem_singleton.mp hmem
    exact ⟨rfl, rfl⟩
  · rintro ⟨rfl, rfl⟩
    exact ⟨content, List.mem_singleton_self _⟩

theorem not_stored {P : Request → Prop} {j : List Exchange} (h : ∀ x ∈ j, P x.request) {path : Path}
    (hP : ∀ content, ¬ P (.store path content)) : ¬ Stored j path := by
  rintro ⟨content, hmem⟩
  exact hP content (h _ hmem)

theorem Path.join_ne_join {p q a b : Path} (ha : a.bytes ≠ []) (hb : b.bytes ≠ [])
    (h : a.bytes.getLast? ≠ b.bytes.getLast?) : p.join a ≠ q.join b := by
  intro heq
  obtain ⟨front, hfront⟩ := p.exists_join_eq a
  obtain ⟨other, hother⟩ := q.exists_join_eq b
  have hlast := congrArg List.getLast? (hfront.symm.trans ((congrArg Path.bytes heq).trans hother))
  rw [List.getLast?_append_of_ne_nil _ ha, List.getLast?_append_of_ne_nil _ hb] at hlast
  exact h hlast

namespace RunSummary

theorem jsonPath_ne_any_digestPath (p q : Path) : jsonPath p ≠ digestPath q :=
  Path.join_ne_join (by decide) (by decide) (by decide)

variable (s : RunSummary) (dir : Path)

def IsFile (r : Request) : Prop :=
  r = .store (jsonPath dir) (Bytes.ofString s.canonical) ∨
    r = .store (digestPath dir) (Bytes.ofString s.digest)

variable {σ : Type} (host : Host σ) (st : σ)

theorem storeAt_yields (path : Path) (text : String) : ∃ reply,
    Yields host (storeAt path text) st
      ((reply.map fun _ => path).mapError (SummaryError.io path))
      [⟨.store path (Bytes.ofString text), reply⟩] := by
  refine ⟨(host.answer (.store path (Bytes.ofString text)) st).1, ?_⟩
  unfold storeAt
  refine (Yields.ask rfl).bind_pure ?_
  cases (host.answer (.store path (Bytes.ofString text)) st).1 <;> rfl

theorem writeTo_ok_iff : (∃ paths, ((s.writeTo dir).run host st).1 = .ok paths) ↔
    Stored ((s.writeTo dir).journal host st) (jsonPath dir) ∧
      Stored ((s.writeTo dir).journal host st) (digestPath dir) := by
  have hiff {r : Except SummaryError (List Path)} {j : List Exchange}
      (h : Yields host (s.writeTo dir) st r j)
      (hj : (∃ paths, r = .ok paths) ↔ Stored j (jsonPath dir) ∧ Stored j (digestPath dir)) :
      (∃ paths, ((s.writeTo dir).run host st).1 = .ok paths) ↔
        Stored ((s.writeTo dir).journal host st) (jsonPath dir) ∧
          Stored ((s.writeTo dir).journal host st) (digestPath dir) := by
    rw [h.result, h.journal]
    exact hj
  have hdigs (path : Path) : ¬ Stored ((makeDirs dir).journal host st) path :=
    not_stored (P := (Request.digs ·)) ((makeDirsWithin_only _ dir).journal st) fun _ h => by cases h
  have hmade : Yields host (makeDirs dir) st _ _ := .self (makeDirs dir) st
  unfold writeTo at hiff ⊢
  generalize ((makeDirs dir).run host st).1 = made at hmade
  rcases made with e | ⟨⟩
  · refine hiff (hmade.bind_pure rfl) (iff_of_false (by simp) ?_)
    exact fun h => hdigs _ h.1
  set s₁ := ((makeDirs dir).run host st).2
  obtain ⟨reply, hjson⟩ := storeAt_yields host s₁ (jsonPath dir) s.canonical
  rcases reply with e | ⟨⟩
  · refine hiff (hmade.bind (hjson.bind_pure rfl)) (iff_of_false (by simp) ?_)
    rintro ⟨hstored, -⟩
    rw [stored_append, or_iff_right (hdigs _), stored_singleton] at hstored
    cases hstored.2
  set s₂ := ((storeAt (jsonPath dir) s.canonical).run host s₁).2
  obtain ⟨reply, hdigest⟩ := storeAt_yields host s₂ (digestPath dir) s.digest
  rcases reply with e | ⟨⟩
  · refine hiff (hmade.bind (hjson.bind (hdigest.bind_pure rfl))) (iff_of_false (by simp) ?_)
    rintro ⟨-, hstored⟩
    rw [stored_append, or_iff_right (hdigs _), stored_append, stored_singleton, stored_singleton]
      at hstored
    rcases hstored with ⟨hsame, -⟩ | ⟨-, hok⟩
    · exact jsonPath_ne_digestPath dir hsame.symm
    · cases hok
  · refine hiff (hmade.bind (hjson.bind (hdigest.bind_pure rfl))) (iff_of_true ⟨_, rfl⟩ ?_)
    simp only [stored_append, stored_singleton, and_self, true_or, or_true]

end RunSummary

/-- Stores no file of a summary. -/
def Request.SparesSummaries (r : Request) : Prop :=
  ∀ dir content, r ≠ .store (RunSummary.jsonPath dir) content ∧
    r ≠ .store (RunSummary.digestPath dir) content

namespace Request

variable {r : Request}

theorem spares_of_ne_store (h : ∀ path content, r ≠ .store path content) : r.SparesSummaries :=
  fun _ content => ⟨h _ content, h _ content⟩

theorem spares_of_announces (h : r.announces) : r.SparesSummaries := by
  apply spares_of_ne_store
  rintro path content rfl
  cases h

theorem spares_of_digs (h : r.digs) : r.SparesSummaries := by
  apply spares_of_ne_store
  rintro path content rfl
  cases h

end Request

namespace Catalog

open Scenario

/-- The only file that a scenario of the catalog stores in its scope. -/
theorem scenarios_write (k : SuiteKind) (settings : Settings) : ∀ s ∈ k.scenarios settings,
    ∀ name content, .writeFile name content ∈ s.setup → name = .ofString configName := by
  cases k with
  | binaries =>
    simp only [SuiteKind.scenarios, basicResponse, List.forall_mem_append, List.forall_mem_map]
    simp [locate, bounded, Scenario.build]
  | config =>
    simp only [SuiteKind.scenarios, argumentParsing, List.forall_mem_cons]
    simp [bounded, Scenario.build, withSetup]
  | datadir =>
    simp only [SuiteKind.scenarios, dataDirectory, List.forall_mem_cons]
    simp [supervised, Scenario.build, withSetup, watching]

theorem execute_spares_summaries (k : SuiteKind) (settings : Settings) {s : Scenario}
    (hs : s ∈ k.scenarios settings) (bench : Bench) (available : Availability) :
    (s.execute bench available).Only Request.SparesSummaries := by
  have hjudges : s.Judges (Request.StoresFor s.setup) := by
    intro mode evaluate haction e
    refine (scenarios_look k settings s hs mode evaluate haction e).mono fun r hr => ?_
    cases r <;> trivial
  refine (execute_stores hjudges bench available).mono fun r hr dir content => ⟨?_, ?_⟩
  · rintro rfl
    obtain ⟨root, name, hmem, hpath⟩ := hr
    rw [scenarios_write k settings s hs name content hmem] at hpath
    exact Path.join_ne_join (by decide) (by decide) (by decide) hpath
  · rintro rfl
    obtain ⟨root, name, hmem, hpath⟩ := hr
    rw [scenarios_write k settings s hs name content hmem] at hpath
    exact Path.join_ne_join (by decide) (by decide) (by decide) hpath

end Catalog

end SmokeBench
