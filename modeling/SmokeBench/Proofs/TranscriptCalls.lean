import SmokeBench.Proofs.Sink

/-! A transcript under any sequence of calls. What a call has to write, and the section in which it
leaves the transcript, are settled before the first line is tried: the sink decides about the reply
and about nothing else. -/

namespace SmokeBench

open Dialogue

theorem Bytes.ofString_line_ne_nil (line : String) : ofString (line ++ "\n") ≠ [] := by
  unfold ofString
  rw [String.toList_append, List.flatMap_append]
  exact List.append_ne_nil_of_right_ne_nil _ (by decide)

namespace Transcript

inductive Operation
  | banner (title : String)
  | enter (name : String)
  | verdict (v : Verdict)
  | suiteResult (r : SuiteReport)
  | overall (rs : List SuiteReport)

namespace Operation

def step (t : Transcript) : Operation → Step
  | banner title => t.banner title
  | enter name => t.enter name
  | verdict v => t.verdict v
  | suiteResult r => t.suiteResult r
  | overall rs => t.overall rs

/-- The lines that a call has to write. -/
def lines (t : Transcript) : Operation → List String
  | banner title => bannerLines title
  | enter name => headerLines t.sectionName name
  | verdict v => [v.display]
  | suiteResult r => resultLines r
  | overall rs => overallLines rs

def leaves (t : Transcript) : Operation → Transcript
  | banner _ => start
  | enter name => ⟨some name⟩
  | _ => t

theorem step_eq (t : Transcript) (op : Operation) :
    op.step t = (do return (← printLines (op.lines t), op.leaves t)) := by
  cases op with
  | enter name =>
    simp only [step, lines, leaves, Transcript.enter, headerLines]
    split
    · rename_i h
      have ht : t = ⟨some name⟩ := by rw [← h]
      rw [ht]
      rfl
    · rfl
  | _ => rfl

end Operation

def lineBytes (lines : List String) : Bytes := lines.flatMap fun line => Bytes.ofString (line ++ "\n")

theorem lineBytes_eq_nil {lines : List String} : lineBytes lines = [] ↔ lines = [] := by
  cases lines with
  | nil => exact iff_of_true rfl rfl
  | cons line rest =>
    refine iff_of_false ?_ (List.cons_ne_nil _ _)
    exact List.append_ne_nil_of_left_ne_nil (Bytes.ofString_line_ne_nil line) _

/-- A call with its reply, and the states of the host before and after it. -/
structure Call (σ : Type) where
  op : Operation
  reply : Except IoError Unit
  before : σ
  after : σ

variable {σ : Type}

def calls (host : Host σ) (t : Transcript) (s : σ) : List Operation → List (Call σ)
  | [] => []
  | op :: rest =>
    let made := (op.step t).run host s
    ⟨op, made.1.1, s, made.2⟩ :: calls host made.1.2 made.2 rest

def closing (s : σ) (cs : List (Call σ)) : σ := (cs.map (·.after)).getLastD s

@[simp] theorem closing_nil (s : σ) : closing s [] = s := rfl

@[simp] theorem closing_cons (s : σ) (c : Call σ) (cs : List (Call σ)) :
    closing s (c :: cs) = closing c.after cs := by
  rw [closing, List.map_cons, List.getLastD_cons]
  rfl

variable {host : Host σ}

theorem calls_cons (t : Transcript) (s : σ) (op : Operation) (rest : List Operation) :
    calls host t s (op :: rest) =
      ⟨op, ((printLines (op.lines t)).run host s).1, s, ((printLines (op.lines t)).run host s).2⟩ ::
        calls host (op.leaves t) ((printLines (op.lines t)).run host s).2 rest := by
  rw [calls, Operation.step_eq, run_bind]
  rfl

end Transcript

end SmokeBench
