import SmokeBench.Proofs.CatalogVerdicts
import SmokeBench.Proofs.FaultyBytes
import SmokeBench.Proofs.SubjectEnds

/-! What the check of a help text says of its size. It counts the bytes that are shown and not those
that were written. These are as many as long as every fault has three bytes, as a text has none. Where
a fault is shorter the check counts too many, and so it can pass a help text that is too short. -/

namespace SmokeBench

open Dialogue Text.Utf8

variable {σ : Type}

theorem Reports.stdout {pid : Pid} {c : Completion} {j : List Exchange} {result : RunResult}
    (h : Reports pid c j result) : ∃ deadline out,
      (⟨.drain pid .out deadline, out⟩ : Exchange) ∈ j ∧ result.stdout = lossy out := by
  obtain ⟨deadline, err, elapsed, htold, hout⟩ := h
  exact ⟨deadline, _, hout, rfl⟩

namespace Catalog

def helpVerdict (name : String) (size : Nat) : Verdict :=
  if helpFloor < size then .pass s!"{name} --help returned {size} bytes"
  else .fail s!"{name} --help output too short ({size} bytes)"

theorem eq_of_toString_eq {m n : Nat} (h : toString m = toString n) : m = n := by
  rw [Nat.toString_eq_ofList_toDigits, Nat.toString_eq_ofList_toDigits] at h
  rw [← Nat.ofDigitChars_ten_toDigits (n := m), String.ofList_injective h,
    Nat.ofDigitChars_ten_toDigits]

theorem helpVerdict_inj {name : String} {m n : Nat} :
    helpVerdict name m = helpVerdict name n ↔ m = n := by
  have hmessage {before after : String} (h : before ++ toString m ++ after =
      before ++ toString n ++ after) : m = n :=
    eq_of_toString_eq ((String.append_right_inj before).mp ((String.append_left_inj after).mp h))
  refine ⟨fun h => ?_, congrArg (helpVerdict name)⟩
  unfold helpVerdict at h
  split_ifs at h
  · exact hmessage (congrArg Verdict.message h)
  · cases congrArg Verdict.outcome h
  · cases congrArg Verdict.outcome h
  · exact hmessage (congrArg Verdict.message h)

theorem printsHelp_eq {e : Evidence} (h : e.run.timedOut = false) :
    printsHelp e = [helpVerdict e.binary.name e.run.stdout.utf8ByteSize] := by
  have hpassed : (Check.outputMinLength e.run .stdout (helpFloor + 1)).passed =
      decide (helpFloor < e.run.stdout.utf8ByteSize) := outputMinLength_passed _ _ _
  unfold printsHelp helpVerdict
  rw [if_neg (Bool.eq_false_iff.mp h), hpassed]
  by_cases hsize : helpFloor < e.run.stdout.utf8ByteSize
  · rw [decide_eq_true hsize, if_pos rfl, if_pos hsize]
  · rw [decide_eq_false hsize, if_neg Bool.false_ne_true, if_neg hsize]

/-- The check of a help text that was read to its end counts the bytes shown for the pieces of what was
written. These are not fewer than were written, and the check is right about their number exactly when
every fault has three bytes. -/
theorem printsHelp_counts (r : Runner) (host : Host σ) (st : σ) (path : Path) (args : List String)
    (timeout : Duration) (e : Evidence) (written : Bytes)
    (hrun : ((r.runBounded path args timeout).run host st).1 = .ok e.run)
    (htimely : e.run.timedOut = false)
    (hdrained : ∀ pid deadline out, (⟨.drain pid .out deadline, out⟩ : Exchange) ∈
      (r.runBounded path args timeout).journal host st → out = written) :
    (∃ ps, Cut written ps) ∧ ∀ ps, Cut written ps →
      printsHelp e = [helpVerdict e.binary.name (shownSize ps)] ∧ written.length ≤ shownSize ps ∧
        (printsHelp e = [helpVerdict e.binary.name written.length] ↔
          ∀ part, .fault part ∈ ps → part.length = 3) := by
  refine ⟨exists_cut written, fun ps hcut => ?_⟩
  have hruns := r.runBounded_runsBounded host st path args timeout
  rw [hrun] at hruns
  obtain ⟨pid, -, c, -, hreports⟩ := hruns.reports
  obtain ⟨deadline, out, hout, hstdout⟩ := hreports.stdout
  obtain rfl := hdrained pid deadline out hout
  have hhelp : printsHelp e = [helpVerdict e.binary.name (shownSize ps)] := by
    rw [printsHelp_eq htimely, hstdout, hcut.lossy_size]
  refine ⟨hhelp, hcut.length_le, ?_⟩
  rw [hhelp, List.singleton_inj, helpVerdict_inj]
  exact hcut.shownSize_eq_iff

end Catalog

def Host.writing (written : Bytes) : Host Unit where
  answer r s := match r with
    | .drain _ .out _ => (written, s)
    | r => Host.still.answer r s

theorem Host.writing_drained {α : Type} (written : Bytes) (d : Dialogue α) (pid : Pid)
    (deadline : Instant) (out : Bytes)
    (h : (⟨.drain pid .out deadline, out⟩ : Exchange) ∈ d.journal (Host.writing written) ()) :
    out = written := by
  obtain ⟨_, hreply⟩ := reply_of_mem h
  exact hreply

namespace Catalog

/-- Two bytes that make one character are counted as two. -/
theorem printsHelp_counts_umlaut :
    ∃ result, ((Runner.standard.runBounded (.ofString "/bin/p") ["--help"] (.ofSecs 1)).run
        (Host.writing [0xC3, 0xA4]) ()).1 = .ok result ∧
      printsHelp ⟨"p --help", ⟨"p", .ofString "/bin"⟩, result, none, .empty⟩ =
        [.fail "p --help output too short (2 bytes)"] := by
  let result : RunResult := ⟨some 0, none, "ä", "", .zero, false, false⟩
  have hrun : ((Runner.standard.runBounded (.ofString "/bin/p") ["--help"] (.ofSecs 1)).run
      (Host.writing [0xC3, 0xA4]) ()).1 = .ok result := by rfl
  have hcut : Cut [0xC3, 0xA4] [.char 'ä'] := .char 'ä' .nil
  refine ⟨result, hrun, ?_⟩
  obtain ⟨-, hcounts⟩ := printsHelp_counts Runner.standard (Host.writing [0xC3, 0xA4]) () _ _ _
    ⟨"p --help", ⟨"p", .ofString "/bin"⟩, result, none, .empty⟩ _ hrun rfl
    (Host.writing_drained _ _)
  exact (hcounts _ hcut).2.2.mpr (by simp)

/-- Forty bytes that are no text pass as a hundred and twenty. -/
theorem faults_pass_as_help :
    ∃ result, ((Runner.standard.runBounded (.ofString "/bin/p") ["--help"] (.ofSecs 1)).run
        (Host.writing (List.replicate 40 0xFF)) ()).1 = .ok result ∧
      result.timedOut = false ∧
      (∀ pid deadline out, (⟨.drain pid .out deadline, out⟩ : Exchange) ∈
        (Runner.standard.runBounded (.ofString "/bin/p") ["--help"] (.ofSecs 1)).journal
          (Host.writing (List.replicate 40 0xFF)) () → out = List.replicate 40 0xFF) ∧
      printsHelp ⟨"p --help", ⟨"p", .ofString "/bin"⟩, result, none, .empty⟩ =
        [.pass "p --help returned 120 bytes"] ∧
      helpVerdict "p" (List.replicate 40 (0xFF : UInt8)).length =
        .fail "p --help output too short (40 bytes)" := by
  refine ⟨_, rfl, rfl, Host.writing_drained _ _, ?_⟩
  decide +kernel

end Catalog

end SmokeBench
