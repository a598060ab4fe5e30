import SmokeBench.Catalog.Basic
import SmokeBench.Proofs.Sightings
import SmokeBench.Proofs.Sink

/-! What the evaluators of the catalog ask for. Most judge a run by its result alone, and those of the
third suite look at places in the data directory of their scope. So judging writes nothing, makes
nothing and starts nothing. -/

namespace SmokeBench

open Dialogue

theorem Request.silent_of_looks {r : Request} (h : r.looks) : r.Silent := by
  cases r <;> trivial

namespace Catalog

def dataPlaces : List Path := [dataDir, regtestDir, regtestLog, rootLog, pidFile]

/-- A look at a place in the data directory of the scope. -/
def LooksAt (e : Evidence) (r : Request) : Prop :=
  ∃ p ∈ dataPlaces, ∃ path, e.scopePath p = some path ∧ r = .metadata path

/-- Looks only at places in the data directory of its scope. -/
def LooksInside (f : Evidence → Dialogue (List Verdict)) : Prop :=
  ∀ e : Evidence, (f e).Only (LooksAt e)

section Inspections

variable {e : Evidence} {relative path : Path}

theorem ask_looks (hp : relative ∈ dataPlaces) (hpath : e.scopePath relative = some path) :
    (SmokeBench.ask (.metadata path)).Only (LooksAt e) :=
  only_ask ⟨relative, hp, path, hpath, rfl⟩

theorem appeared_looks (hp : relative ∈ dataPlaces) (hpath : e.scopePath relative = some path)
    (kind : PathKind) : (appeared e path kind).Only (LooksAt e) := by
  refine (ask_looks hp hpath).bind fun reply => ?_
  split <;> exact only_pure _

theorem createsDataDir_inside : LooksInside createsDataDir := by
  intro e
  unfold createsDataDir
  split
  · rename_i data regtest hdata hregtest
    refine Only.bind ((ask_looks (by decide) hdata).bind fun _ => only_pure _) fun found => ?_
    split
    · exact (appeared_looks (by decide) hregtest _).bind fun _ => only_pure _
    · exact only_pure _
  · exact only_pure _

theorem logAt_looks (hp : relative ∈ dataPlaces) (location : String) :
    (logAt e relative location).Only (LooksAt e) := by
  unfold logAt
  split
  · exact only_pure _
  · rename_i path hpath
    refine (ask_looks hp hpath).bind fun reply => ?_
    split <;> exact only_pure _

theorem createsDebugLog_inside : LooksInside createsDebugLog := by
  intro e
  refine (logAt_looks (by decide) "").bind fun first => ?_
  split
  · exact only_pure _
  · refine (logAt_looks (by decide) " in root").bind fun second => ?_
    split <;> exact only_pure _

theorem createsPidFile_inside : LooksInside createsPidFile := by
  intro e
  unfold createsPidFile
  split
  · rename_i path hpath
    exact (appeared_looks (by decide) hpath _).bind fun _ => only_pure _
  · exact only_pure _

end Inspections

namespace LooksInside

variable {f : Evidence → Dialogue (List Verdict)} (h : LooksInside f)

include h

theorem looks (e : Evidence) : (f e).Only (Request.looks ·) := by
  apply (h e).mono
  rintro _ ⟨p, -, path, -, rfl⟩
  rfl

theorem silent (e : Evidence) : (f e).Only Request.Silent :=
  (h.looks e).mono fun _ => Request.silent_of_looks

end LooksInside

section Judging

variable {s : Scenario} {mode : RunMode}

theorem judged_looks {f : Evidence → List Verdict} (haction : s.action = .run mode (judge f)) :
    s.Judges (Request.looks ·) := by
  intro mode' evaluate hrun e
  obtain ⟨-, rfl⟩ := Action.run.inj (haction.symm.trans hrun)
  exact only_pure _

theorem inspected_looks {f : Evidence → Dialogue (List Verdict)} (hf : LooksInside f)
    (haction : s.action = .run mode (inspect f)) : s.Judges (Request.looks ·) := by
  intro mode' evaluate hrun e
  obtain ⟨-, rfl⟩ := Action.run.inj (haction.symm.trans hrun)
  exact (hf.looks e).map _

theorem basicResponse_looks (b : Subjects) (t : Timing) :
    ∀ s ∈ basicResponse b t, s.Judges (Request.looks ·) := by
  simp only [basicResponse, List.forall_mem_append, List.forall_mem_map]
  refine ⟨⟨fun x _ => ?_, fun x _ => judged_looks rfl⟩, fun x _ => judged_looks rfl⟩
  intro mode evaluate haction
  cases haction

theorem argumentParsing_looks (b : Subjects) (t : Timing) :
    ∀ s ∈ argumentParsing b t, s.Judges (Request.looks ·) := by
  simp only [argumentParsing, List.forall_mem_cons]
  exact ⟨judged_looks rfl, judged_looks rfl, judged_looks rfl, judged_looks rfl, by simp⟩

theorem dataDirectory_looks (b : Subjects) (t : Timing) :
    ∀ s ∈ dataDirectory b t, s.Judges (Request.looks ·) := by
  simp only [dataDirectory, List.forall_mem_cons]
  exact ⟨inspected_looks createsDataDir_inside rfl, inspected_looks createsDebugLog_inside rfl,
    inspected_looks createsPidFile_inside rfl, by simp⟩

/-- To judge a scenario of the catalog the bench looks at files, and that is all. -/
theorem scenarios_look (k : SuiteKind) (settings : Settings) :
    ∀ s ∈ k.scenarios settings, s.Judges (Request.looks ·) := by
  cases k with
  | binaries => exact basicResponse_looks _ _
  | config => exact argumentParsing_looks _ _
  | datadir => exact dataDirectory_looks _ _

end Judging

end Catalog

end SmokeBench
