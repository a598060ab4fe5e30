import SmokeBench.Proofs.Journal
import SmokeBench.Transcript

/-! What a dialogue writes to a sink that takes everything. A dialogue that writes a transcript is
described by its result together with the texts the sink took; both compose along `bind`, so each
step of the transcript needs one lemma and the rest follows. -/

namespace SmokeBench

open Dialogue

def Exchange.taken : Exchange → Option String
  | ⟨.print text, .ok ()⟩ => some text
  | _ => none

/-- The texts that the sink took, one for each write. -/
def written (j : List Exchange) : List String := j.filterMap Exchange.taken

@[simp] theorem written_nil : written [] = [] := rfl

@[simp] theorem written_append (i j : List Exchange) : written (i ++ j) = written i ++ written j :=
  List.filterMap_append

def Request.Silent : Request → Prop
  | print _ => False
  | _ => True

theorem taken_of_silent {x : Exchange} (h : x.request.Silent) : x.taken = none := by
  obtain ⟨r, reply⟩ := x
  cases r with
  | print text => exact h.elim
  | _ => rfl

variable {σ α β : Type}

theorem written_of_silent {host : Host σ} {d : Dialogue α} (h : d.Only Request.Silent) (s : σ) :
    written (d.journal host s) = [] :=
  List.filterMap_eq_nil_iff.mpr fun x hx => taken_of_silent (h.journal s x hx)

def Host.TakesAll (host : Host σ) : Prop := ∀ text s, (host.answer (.print text) s).1 = .ok ()

theorem Host.still_takesAll : (Host.still : Host σ).TakesAll := fun _ _ => rfl

/-- From a state on, a dialogue comes to a result and the sink takes some texts. -/
structure Tells (host : Host σ) (d : Dialogue α) (s : σ) (a : α) (texts : List String) : Prop where
  result : (d.run host s).1 = a
  sink : written (d.journal host s) = texts

namespace Tells

variable {host : Host σ}

theorem pure (a : α) (s : σ) : Tells host (Pure.pure a) s a [] := ⟨rfl, rfl⟩

theorem bind {d : Dialogue α} {f : α → Dialogue β} {s : σ} {a : α} {b : β}
    {first rest : List String} (hd : Tells host d s a first) (hf : Tells host (f a) (d.run host s).2 b rest) :
    Tells host (d >>= f) s b (first ++ rest) where
  result := by rw [run_bind, hd.result, hf.result]
  sink := by rw [journal_bind, written_append, hd.result, hd.sink, hf.sink]

theorem congr {d : Dialogue α} {s : σ} {a : α} {texts texts' : List String}
    (h : Tells host d s a texts) (he : texts = texts') : Tells host d s a texts' := he ▸ h

theorem silent {d : Dialogue α} (h : d.Only Request.Silent) (s : σ) :
    Tells host d s (d.run host s).1 [] :=
  ⟨rfl, written_of_silent h s⟩

end Tells

namespace Transcript

/-- The lines that stand before an entry, after one of section `before`. -/
def headerLines (before : Option String) (name : String) : List String :=
  if before = some name then [] else sectionLines name

variable {host : Host σ} (hsink : host.TakesAll)

include hsink

theorem printLines_tells (lines : List String) (s : σ) :
    Tells host (printLines lines) s (.ok ()) (lines.map (· ++ "\n")) := by
  induction lines generalizing s with
  | nil => exact .pure _ s
  | cons line rest ih =>
    have hfirst : Tells host (ask (.print (line ++ "\n"))) s (.ok ()) [line ++ "\n"] := by
      have hok := hsink (line ++ "\n") s
      refine ⟨hok, ?_⟩
      rw [journal_ask, hok]
      rfl
    exact hfirst.bind (ih _)

theorem banner_tells (t : Transcript) (title : String) (s : σ) :
    Tells host (t.banner title) s (.ok (), start) ((bannerLines title).map (· ++ "\n")) := by
  have h := (printLines_tells hsink (bannerLines title) s).bind
    (f := fun reply => Pure.pure (reply, start)) (.pure _ _)
  rwa [List.append_nil] at h

theorem enter_tells (t : Transcript) (name : String) (s : σ) :
    Tells host (t.enter name) s (.ok (), ⟨some name⟩)
      ((headerLines t.sectionName name).map (· ++ "\n")) := by
  unfold enter headerLines
  by_cases h : t.sectionName = some name
  · rw [if_pos h, if_pos h]
    have ht : t = ⟨some name⟩ := by rw [← h]
    rw [ht]
    exact .pure _ s
  · rw [if_neg h, if_neg h]
    have htell := (printLines_tells hsink (sectionLines name) s).bind
      (f := fun reply => Pure.pure (reply, (⟨some name⟩ : Transcript))) (.pure _ _)
    rwa [List.append_nil] at htell

theorem stay_tells (t : Transcript) (lines : List String) (s : σ) :
    Tells host (do return (← printLines lines, t)) s (.ok (), t) (lines.map (· ++ "\n")) := by
  have h := (printLines_tells hsink lines s).bind
    (f := fun reply => Pure.pure (reply, t)) (.pure _ _)
  rwa [List.append_nil] at h

theorem verdict_tells (t : Transcript) (v : Verdict) (s : σ) :
    Tells host (t.verdict v) s (.ok (), t) [v.display ++ "\n"] := stay_tells hsink t [v.display] s

theorem suiteResult_tells (t : Transcript) (r : SuiteReport) (s : σ) :
    Tells host (t.suiteResult r) s (.ok (), t) ((resultLines r).map (· ++ "\n")) :=
  stay_tells hsink t (resultLines r) s

theorem overall_tells (t : Transcript) (rs : List SuiteReport) (s : σ) :
    Tells host (t.overall rs) s (.ok (), t) ((overallLines rs).map (· ++ "\n")) :=
  stay_tells hsink t (overallLines rs) s

end Transcript

end SmokeBench
