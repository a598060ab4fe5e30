import Mathlib.Data.List.Forall2
import SmokeBench.Machine.Host
import SmokeBench.Proofs.TranscriptCalls

/-! A transcript on a sink that gets full. The calls of two runs, one on a sink with a limit and one
on a sink without, are compared pair by pair. In both the transcript remembers the same section,
since what a call leaves does not hang on the sink; so both have the same lines to write, and what
the full sink holds is the beginning of what the other holds. -/

namespace SmokeBench

open Dialogue

namespace Sink

/-- Takes one write after the other until one of them cannot be taken in full. -/
def pour (s : Sink) : List Bytes → Except IoError Unit × Sink
  | [] => (.ok (), s)
  | piece :: rest =>
    match s.accept piece with
    | (.ok (), s) => s.pour rest
    | (.error e, s) => (.error e, s)

variable {s : Sink} {limit : Nat}

theorem accept_unlimited (h : s.limit = none) (text : Bytes) :
    s.accept text = (.ok (), { s with written := s.written ++ text }) := by
  unfold accept
  rw [h]

theorem accept_fitting (h : s.limit = some limit) {text : Bytes}
    (hfits : text.length ≤ limit - s.written.length) :
    s.accept text = (.ok (), { s with written := s.written ++ text }) := by
  unfold accept
  rw [h]
  exact if_pos hfits

theorem accept_crossing (h : s.limit = some limit) {text : Bytes}
    (hfits : ¬text.length ≤ limit - s.written.length) :
    s.accept text = (.error s.failure,
      { s with written := s.written ++ text.take (limit - s.written.length) }) := by
  unfold accept
  rw [h]
  exact if_neg hfits

theorem accept_append (s : Sink) (first rest : Bytes) :
    s.accept (first ++ rest) =
      match s.accept first with
      | (.ok (), s) => s.accept rest
      | (.error e, s) => (.error e, s) := by
  cases hlimit : s.limit with
  | none =>
    have hmore := accept_unlimited (s := { s with written := s.written ++ first }) hlimit rest
    rw [accept_unlimited hlimit, accept_unlimited hlimit, ← List.append_assoc]
    exact hmore.symm
  | some limit =>
    by_cases hfirst : first.length ≤ limit - s.written.length
    · rw [accept_fitting hlimit hfirst]
      dsimp only
      set t : Sink := { s with written := s.written ++ first }
      have hmore : t.limit = some limit := hlimit
      have hroom : limit - t.written.length = limit - s.written.length - first.length := by
        simp only [t, List.length_append]
        omega
      by_cases hrest : rest.length ≤ limit - t.written.length
      · rw [accept_fitting hmore hrest, accept_fitting hlimit, ← List.append_assoc]
        rw [List.length_append]
        omega
      · rw [accept_crossing hmore hrest, accept_crossing hlimit, List.take_append, ← List.append_assoc,
          List.take_of_length_le hfirst, hroom]
        rw [List.length_append]
        omega
    · rw [accept_crossing hlimit hfirst, accept_crossing hlimit,
        List.take_append_of_le_length (Nat.le_of_not_le hfirst)]
      rw [List.length_append]
      omega

/-- How a text is cut into writes does not matter to the sink. -/
theorem pour_eq (s : Sink) (pieces : List Bytes) : s.pour pieces = s.accept pieces.flatten := by
  induction pieces generalizing s with
  | nil =>
    cases hlimit : s.limit with
    | none => rw [List.flatten_nil, accept_unlimited hlimit, List.append_nil, pour]
    | some limit =>
      rw [List.flatten_nil, accept_fitting hlimit (Nat.zero_le _), List.append_nil, pour]
  | cons piece rest ih =>
    rw [List.flatten_cons, accept_append, pour]
    rcases s.accept piece with ⟨_ | ⟨⟩, after⟩
    · rfl
    · exact ih after

/-- A sink with a limit, holding what there is room for of these bytes. -/
structure Holds (s : Sink) (limit : Nat) (bytes : Bytes) : Prop where
  limit_eq : s.limit = some limit
  written_eq : s.written = bytes.take limit

/-- A text that comes after bytes that had room fits if all have room, and once the sink is full
only what is empty fits. -/
theorem Holds.accept {bytes : Bytes} (h : s.Holds limit bytes) (text : Bytes) :
    (s.accept text).2.Holds limit (bytes ++ text) ∧
      ((s.accept text).1 = .ok () ↔ text = [] ∨ (bytes ++ text).length ≤ limit) := by
  obtain ⟨hlimit, hwritten⟩ := h
  have hroom : limit - s.written.length = limit - bytes.length := by
    rw [hwritten, List.length_take]
    omega
  have hempty : text = [] ↔ text.length = 0 := List.length_eq_zero_iff.symm
  by_cases hfits : text.length ≤ limit - s.written.length
  · rw [accept_fitting hlimit hfits]
    refine ⟨⟨hlimit, ?_⟩, iff_of_true rfl ?_⟩
    · have hmore : text.length ≤ limit - bytes.length := hroom ▸ hfits
      rw [List.take_append, List.take_of_length_le hmore, ← hwritten]
    · rw [hempty, List.length_append]
      omega
  · rw [accept_crossing hlimit hfits]
    refine ⟨⟨hlimit, ?_⟩, iff_of_false (by simp) ?_⟩
    · rw [List.take_append, ← hroom, ← hwritten]
    · rw [hempty, List.length_append]
      omega

end Sink

/-- A host that writes to a sink, each text cut into writes in some way. -/
structure Console {σ : Type} (host : Host σ) where
  sink : σ → Sink
  pieces : String → List Bytes
  whole : ∀ text, (pieces text).flatten = Bytes.ofString text
  print : ∀ text s, (host.answer (.print text) s).1 = ((sink s).pour (pieces text)).1 ∧
    sink (host.answer (.print text) s).2 = ((sink s).pour (pieces text)).2

/-- The simulated machine writes every text in one piece. -/
def Machine.toConsole : Console Machine.host where
  sink := Machine.console
  pieces text := [Bytes.ofString text]
  whole text := List.append_nil _
  print text m := by
    rw [Sink.pour_eq, List.flatten_singleton]
    exact ⟨rfl, rfl⟩

namespace Console

variable {σ τ : Type} {host : Host σ} (console : Console host)

theorem print_eq (text : String) (s : σ) :
    (host.answer (.print text) s).1 = ((console.sink s).accept (Bytes.ofString text)).1 ∧
      console.sink (host.answer (.print text) s).2 =
        ((console.sink s).accept (Bytes.ofString text)).2 := by
  rw [← console.whole text, ← Sink.pour_eq]
  exact console.print text s

end Console

namespace Transcript

variable {σ τ : Type} {host : Host σ} {other : Host τ} {console : Console host}
  {unlimited : Console other} {limit : Nat} {bytes : Bytes}

theorem printLines_unlimited {s : τ} (h : (unlimited.sink s).limit = none) (lines : List String) :
    ((printLines lines).run other s).1 = .ok () ∧
      (unlimited.sink ((printLines lines).run other s).2).limit = none ∧
      (unlimited.sink ((printLines lines).run other s).2).written =
        (unlimited.sink s).written ++ lineBytes lines := by
  induction lines generalizing s with
  | nil => exact ⟨rfl, h, (List.append_nil _).symm⟩
  | cons line rest ih =>
    obtain ⟨hreply, hsink⟩ := unlimited.print_eq (line ++ "\n") s
    rw [Sink.accept_unlimited h] at hreply hsink
    obtain ⟨hrest, hlimit, hwritten⟩ := ih (s := (other.answer (.print (line ++ "\n")) s).2)
      (by rw [hsink]; exact h)
    rw [printLines, run_bind, run_ask, hreply]
    refine ⟨hrest, hlimit, hwritten.trans ?_⟩
    rw [hsink]
    exact List.append_assoc _ _ _

theorem printLines_limited {s : σ} (h : (console.sink s).Holds limit bytes) (lines : List String) :
    (console.sink ((printLines lines).run host s).2).Holds limit (bytes ++ lineBytes lines) ∧
      (((printLines lines).run host s).1 = .ok () ↔
        lines = [] ∨ (bytes ++ lineBytes lines).length ≤ limit) := by
  induction lines generalizing s bytes with
  | nil => exact ⟨by rwa [lineBytes, List.flatMap_nil, List.append_nil], iff_of_true rfl (.inl rfl)⟩
  | cons line rest ih =>
    obtain ⟨hreply, hsink⟩ := console.print_eq (line ++ "\n") s
    obtain ⟨hholds, hfits⟩ := h.accept (Bytes.ofString (line ++ "\n"))
    rw [← hreply, or_iff_right (Bytes.ofString_line_ne_nil line)] at hfits
    rw [← hsink] at hholds
    have hbytes : bytes ++ lineBytes (line :: rest) =
        bytes ++ Bytes.ofString (line ++ "\n") ++ lineBytes rest := (List.append_assoc _ _ _).symm
    rw [hbytes, or_iff_right (List.cons_ne_nil _ _), printLines, run_bind, run_ask]
    cases hline : (host.answer (.print (line ++ "\n")) s).1 with
    | ok =>
      obtain ⟨hrest, hreplies⟩ := ih hholds
      refine ⟨hrest, hreplies.trans (or_iff_right_of_imp ?_)⟩
      rintro rfl
      rw [lineBytes, List.flatMap_nil, List.append_nil]
      exact hfits.mp hline
    | error e =>
      rw [hline] at hfits
      have hover : ¬(bytes ++ Bytes.ofString (line ++ "\n")).length ≤ limit :=
        fun hle => nomatch hfits.mpr hle
      refine ⟨⟨hholds.limit_eq, ?_⟩, iff_of_false (by simp) ?_⟩
      · rw [List.take_append_of_le_length (Nat.le_of_not_le hover)]
        exact hholds.written_eq
      · rw [List.length_append]
        omega

/-- A call on a sink with a limit beside the same call on a sink without. -/
structure Mirrors (console : Console host) (unlimited : Console other) (limit : Nat) (c : Call σ)
    (full : Call τ) : Prop where
  op : c.op = full.op
  holds : (console.sink c.after).written = (unlimited.sink full.after).written.take limit
  full_ok : full.reply = .ok ()
  ok_iff : c.reply = .ok () ↔
    (unlimited.sink full.after).written = (unlimited.sink full.before).written ∨
      (unlimited.sink full.after).written.length ≤ limit

theorem calls_mirror (t : Transcript) {s : σ} {s' : τ} (hopen : (unlimited.sink s').limit = none)
    (hholds : (console.sink s).Holds limit (unlimited.sink s').written) (ops : List Operation) :
    List.Forall₂ (Mirrors console unlimited limit) (calls host t s ops) (calls other t s' ops) ∧
      (console.sink (closing s (calls host t s ops))).written =
        (unlimited.sink (closing s' (calls other t s' ops))).written.take limit := by
  induction ops generalizing t s s' with
  | nil => exact ⟨.nil, hholds.written_eq⟩
  | cons op rest ih =>
    obtain ⟨hfull, hstill, hwritten⟩ := printLines_unlimited hopen (op.lines t)
    obtain ⟨hcut, hreply⟩ := printLines_limited hholds (op.lines t)
    rw [← hwritten] at hcut hreply
    obtain ⟨hrest, hend⟩ := ih (op.leaves t) hstill hcut
    have hnothing : op.lines t = [] ↔
        (unlimited.sink ((printLines (op.lines t)).run other s').2).written =
          (unlimited.sink s').written := by
      rw [hwritten, List.append_right_eq_self, lineBytes_eq_nil]
    rw [hnothing] at hreply
    rw [calls_cons, calls_cons, closing_cons, closing_cons]
    exact ⟨.cons ⟨rfl, hcut.written_eq, hfull, hreply⟩ hrest, hend⟩

/-- A sink that gets full holds the beginning of what the same calls write to a sink that does not,
and a call is refused if and only if it has something to write and the other sink, with it, holds
more than there is room for. -/
theorem full_sink_holds_beginning (console : Console host) (unlimited : Console other) (limit : Nat)
    (e e' : IoError) (t : Transcript) (ops : List Operation) {s : σ} {s' : τ}
    (hlimited : console.sink s = ⟨[], some limit, e⟩) (hopen : unlimited.sink s' = ⟨[], none, e'⟩) :
    (console.sink (closing s (calls host t s ops))).written =
        (unlimited.sink (closing s' (calls other t s' ops))).written.take limit ∧
      List.Forall₂ (Mirrors console unlimited limit) (calls host t s ops) (calls other t s' ops) := by
  have hholds : (console.sink s).Holds limit (unlimited.sink s').written := by
    rw [hlimited, hopen]
    exact ⟨rfl, List.take_nil.symm⟩
  obtain ⟨hmirror, hend⟩ := calls_mirror t (hopen ▸ rfl) hholds ops
  exact ⟨hend, hmirror⟩

end Transcript

def Host.pouring : Host Sink where
  answer r s := match r with
    | .print text => s.accept (Bytes.ofString text)
    | r => Host.still.answer r s

/-- Every character is a write of its own. -/
def Host.pouringChars : Console Host.pouring where
  sink := id
  pieces text := text.toList.map String.utf8EncodeChar
  whole _ := List.flatMap_def.symm
  print text s := by
    rw [Sink.pour_eq, ← List.flatMap_def]
    exact ⟨rfl, rfl⟩

namespace Transcript

/-- With room for five bytes a header is cut. Its section counts as entered all the same, so the
second call has nothing to write, and the verdict finds no room. -/
theorem full_sink_holds_beginning_five :
    let ops : List Operation := [.enter "a", .enter "a", .verdict (.pass "b")]
    let cs := calls Host.pouring start ⟨[], some 5, .noSpace⟩ ops
    let full := calls Host.pouring start ⟨[], none, .noSpace⟩ ops
    cs.map (·.reply) = [.error .noSpace, .ok (), .error .noSpace] ∧
      (closing ⟨[], some 5, .noSpace⟩ cs).written = Bytes.ofString "\n--- " ∧
      (closing ⟨[], some 5, .noSpace⟩ cs).written =
        (closing ⟨[], none, .noSpace⟩ full).written.take 5 ∧
      List.Forall₂ (Mirrors Host.pouringChars Host.pouringChars 5) cs full := by
  intro ops cs full
  exact ⟨by decide, by decide,
    full_sink_holds_beginning Host.pouringChars Host.pouringChars 5 .noSpace .noSpace start ops
      rfl rfl⟩

end Transcript

end SmokeBench
