import SmokeBench.Proofs.FullSink

/-! Which section a transcript has announced. The transcript remembers the last header that it tried
to write, and not the last one that was written: a header that the sink cuts counts as announced,
and the next call for its section says that all is well and writes nothing. -/

namespace SmokeBench

open Dialogue

/-- What a sink has taken: of every text a beginning, and all of it if it says so. It may fail at
any byte and go on afterwards. -/
structure Intake {σ : Type} (host : Host σ) where
  taken : σ → Bytes
  print : ∀ text s, ∃ n, taken (host.answer (.print text) s).2 =
      taken s ++ (Bytes.ofString text).take n ∧
    ((host.answer (.print text) s).1 = .ok () → (Bytes.ofString text).length ≤ n)

def Console.toIntake {σ : Type} {host : Host σ} (console : Console host) : Intake host where
  taken s := (console.sink s).written
  print text s := by
    obtain ⟨hreply, hsink⟩ := console.print_eq text s
    rw [hreply, hsink]
    cases hlimit : (console.sink s).limit with
    | none =>
      rw [Sink.accept_unlimited hlimit]
      exact ⟨_, by rw [List.take_length], fun _ => Nat.le_refl _⟩
    | some limit =>
      by_cases hfits : (Bytes.ofString text).length ≤ limit - (console.sink s).written.length
      · rw [Sink.accept_fitting hlimit hfits]
        exact ⟨_, by rw [List.take_length], fun _ => Nat.le_refl _⟩
      · rw [Sink.accept_crossing hlimit hfits]
        exact ⟨_, rfl, nofun⟩

namespace Transcript

variable {σ : Type} {host : Host σ} (intake : Intake host)

variable {intake} in
theorem printLines_ok_taken {lines : List String} {s : σ}
    (h : ((printLines lines).run host s).1 = .ok ()) :
    intake.taken ((printLines lines).run host s).2 = intake.taken s ++ lineBytes lines := by
  induction lines generalizing s with
  | nil => exact (List.append_nil _).symm
  | cons line rest ih =>
    obtain ⟨n, htaken, hwhole⟩ := intake.print (line ++ "\n") s
    rw [printLines, run_bind, run_ask] at h ⊢
    cases hline : (host.answer (.print (line ++ "\n")) s).1 with
    | ok =>
      rw [hline] at h
      rw [List.take_of_length_le (hwhole hline)] at htaken
      refine (ih h).trans ?_
      rw [htaken]
      exact List.append_assoc _ _ _
    | error e =>
      rw [hline] at h
      cases h

def Call.wrote (c : Call σ) : Bytes := (intake.taken c.after).drop (intake.taken c.before).length

/-- A header that a call tried to write, and whether the sink has taken all of it. -/
structure Header where
  name : String
  complete : Bool
  deriving DecidableEq, Repr

/-- The header of a call for a section, unless the call wrote nothing and said that all is well. -/
def Call.header (c : Call σ) (name : String) : List Header :=
  if c.reply = .ok () ∧ c.wrote intake = [] then []
  else [⟨name, c.wrote intake = lineBytes (sectionLines name)⟩]

/-- The headers since the last banner, after one call more. -/
def Call.headers (hs : List Header) (c : Call σ) : List Header :=
  match c.op with
  | .banner _ => []
  | .enter name => hs ++ c.header intake name
  | _ => hs

/-- The headers that calls tried to write since the last banner. -/
def headersSince (cs : List (Call σ)) : List Header := cs.foldl (Call.headers intake) []

/-- The section of the last header that was written completely. -/
def announced (hs : List Header) : Option String :=
  (hs.reverse.find? (·.complete)).map (·.name)

theorem announced_append (hs : List Header) (h : Header) :
    announced (hs ++ [h]) = if h.complete then some h.name else announced hs := by
  unfold announced
  rw [List.reverse_append, List.reverse_singleton, List.singleton_append, List.find?_cons]
  cases h.complete <;> rfl

/-- A call as it is made from a transcript in a state. -/
def Operation.made (host : Host σ) (t : Transcript) (s : σ) (op : Operation) : Call σ :=
  ⟨op, ((printLines (op.lines t)).run host s).1, s, ((printLines (op.lines t)).run host s).2⟩

theorem calls_cons_made (t : Transcript) (s : σ) (op : Operation) (rest : List Operation) :
    calls host t s (op :: rest) =
      op.made host t s :: calls host (op.leaves t) (op.made host t s).after rest :=
  calls_cons t s op rest

theorem wrote_of_ok {t : Transcript} {s : σ} {op : Operation}
    (h : (op.made host t s).reply = .ok ()) :
    (op.made host t s).wrote intake = lineBytes (op.lines t) := by
  have htaken : intake.taken (op.made host t s).after = intake.taken s ++ lineBytes (op.lines t) :=
    printLines_ok_taken h
  rw [Call.wrote, htaken]
  exact List.drop_left

theorem remembered_of_quiet {t : Transcript} {s : σ} {name : String}
    (hok : ((Operation.enter name).made host t s).reply = .ok ())
    (hquiet : ((Operation.enter name).made host t s).wrote intake = []) :
    t.sectionName = some name := by
  rw [wrote_of_ok intake hok, lineBytes_eq_nil] at hquiet
  by_contra h
  have hlines : (Operation.enter name).lines t = sectionLines name := if_neg h
  rw [hlines] at hquiet
  cases hquiet

/-- The transcript remembers the section of the last header that was tried. -/
def Remembers (t : Transcript) (hs : List Header) : Prop :=
  t.sectionName = hs.getLast?.map (·.name)

theorem Remembers.made {t : Transcript} {hs : List Header} (h : t.Remembers hs) (s : σ)
    (op : Operation) :
    (op.leaves t).Remembers (Call.headers intake hs (op.made host t s)) := by
  cases op with
  | banner title => rfl
  | enter name =>
    change some name = (hs ++ Call.header intake _ name).getLast?.map (·.name)
    unfold Call.header
    split
    · rename_i hquiet
      rw [List.append_nil, ← h]
      exact (remembered_of_quiet intake hquiet.1 hquiet.2).symm
    · rw [List.getLast?_concat]
      rfl
  | verdict v => exact h
  | suiteResult r => exact h
  | overall rs => exact h

theorem headers_of_ok {t : Transcript} {hs : List Header} (h : t.Remembers hs) {s : σ} {name : String}
    (hok : ((Operation.enter name).made host t s).reply = .ok ()) :
    ∃ past complete, Call.headers intake hs ((Operation.enter name).made host t s) =
        past ++ [⟨name, complete⟩] ∧
      (complete = false → ((Operation.enter name).made host t s).wrote intake = []) := by
  change ∃ past complete, hs ++ Call.header intake _ name = past ++ [⟨name, complete⟩] ∧ _
  unfold Call.header
  split
  · rename_i hquiet
    have hlast : hs.getLast?.map (·.name) = some name :=
      h.symm.trans (remembered_of_quiet intake hok hquiet.2)
    obtain ⟨⟨tried, complete⟩, htried, rfl⟩ := Option.map_eq_some_iff.mp hlast
    obtain ⟨past, rfl⟩ := List.getLast?_eq_some_iff.mp htried
    exact ⟨past, complete, List.append_nil _, fun _ => hquiet.2⟩
  · rename_i hloud
    refine ⟨hs, _, rfl, fun hcut => ?_⟩
    have hwrote := wrote_of_ok intake hok
    by_cases hknown : t.sectionName = some name
    · have hlines : (Operation.enter name).lines t = [] := if_pos hknown
      rw [hwrote, hlines]
      rfl
    · have hlines : (Operation.enter name).lines t = sectionLines name := if_neg hknown
      rw [hwrote, hlines, decide_eq_false_iff_not] at hcut
      exact absurd rfl hcut

theorem headers_of_calls {t : Transcript} {hs : List Header} (h : t.Remembers hs) {s : σ}
    {ops : List Operation} {earlier later : List (Call σ)} {c : Call σ} {name : String}
    (hcalls : calls host t s ops = earlier ++ c :: later) (hop : c.op = .enter name)
    (hok : c.reply = .ok ()) :
    ∃ past complete,
      (earlier ++ [c]).foldl (Call.headers intake) hs = past ++ [⟨name, complete⟩] ∧
      (complete = false → c.wrote intake = []) := by
  induction earlier generalizing t hs s ops with
  | nil =>
    cases ops with
    | nil => cases hcalls
    | cons op rest =>
      rw [calls_cons_made, List.nil_append] at hcalls
      obtain ⟨rfl, -⟩ := List.cons.inj hcalls
      obtain rfl : op = .enter name := hop
      exact headers_of_ok intake h hok
  | cons first earlier ih =>
    cases ops with
    | nil => cases hcalls
    | cons op rest =>
      rw [calls_cons_made, List.cons_append] at hcalls
      obtain ⟨rfl, hrest⟩ := List.cons.inj hcalls
      exact ih (h.made intake s op) hrest

/-- When a call for a section says that all is well, the last header tried since the banner is the
one for this section. It is the last one written completely if and only if the sink took all of it,
or the one written completely before it was for the same section. Where the sink cut it the call
wrote nothing. -/
theorem enter_ok_announced_iff (s : σ) (ops : List Operation) {earlier later : List (Call σ)}
    {c : Call σ} {name : String} (hcalls : calls host start s ops = earlier ++ c :: later)
    (hop : c.op = .enter name) (hok : c.reply = .ok ()) :
    ∃ past complete, headersSince intake (earlier ++ [c]) = past ++ [⟨name, complete⟩] ∧
      (announced (headersSince intake (earlier ++ [c])) = some name ↔
        complete = true ∨ announced past = some name) ∧
      (complete = false → c.wrote intake = []) := by
  have hstart : start.Remembers [] := rfl
  obtain ⟨past, complete, hheaders, hquiet⟩ := headers_of_calls intake hstart hcalls hop hok
  refine ⟨past, complete, hheaders, ?_, hquiet⟩
  rw [headersSince, hheaders, announced_append]
  cases complete with
  | true => exact iff_of_true rfl (.inl rfl)
  | false => exact (or_iff_right Bool.false_ne_true).symm

end Transcript

/-- A host whose sink cuts the write with this number and takes all others. -/
def Host.hiccup (cut : Nat) : Host (Bytes × Nat) where
  answer r s := match r with
    | .print text =>
      if s.2 = cut then (.error .noSpace, (s.1 ++ (Bytes.ofString text).take 2, s.2 + 1))
      else (.ok (), (s.1 ++ Bytes.ofString text, s.2 + 1))
    | r => Host.still.answer r s

def Intake.hiccup (cut : Nat) : Intake (Host.hiccup cut) where
  taken := Prod.fst
  print text s := by
    by_cases h : s.2 = cut
    · have hanswer : (Host.hiccup cut).answer (.print text) s =
          (.error .noSpace, (s.1 ++ (Bytes.ofString text).take 2, s.2 + 1)) := if_pos h
      rw [hanswer]
      exact ⟨2, rfl, nofun⟩
    · have hanswer : (Host.hiccup cut).answer (.print text) s =
          (.ok (), (s.1 ++ Bytes.ofString text, s.2 + 1)) := if_neg h
      rw [hanswer]
      exact ⟨_, by rw [List.take_length], fun _ => Nat.le_refl _⟩

namespace Transcript

/-- Where the header of another section was cut in between, that of the first is written again. -/
theorem enter_ok_announced_iff_back :
    ∃ first second third : Call (Bytes × Nat),
      calls (Host.hiccup 3) start ([], 0) [.enter "a", .enter "b", .enter "a"] =
        [first, second] ++ third :: [] ∧
      second.reply = .error .noSpace ∧ third.op = .enter "a" ∧ third.reply = .ok () ∧
      announced (headersSince (.hiccup 3) ([first, second] ++ [third])) = some "a" := by
  refine ⟨_, _, _, rfl, by decide, rfl, by decide, ?_⟩
  obtain ⟨past, complete, -, hannounced, hquiet⟩ := enter_ok_announced_iff (.hiccup 3) ([], 0)
    [.enter "a", .enter "b", .enter "a"] (rfl : _ = [_, _] ++ _ :: []) rfl (by decide)
  refine hannounced.mpr (.inl ?_)
  rw [← Bool.not_eq_false]
  exact fun hcut => absurd (hquiet hcut) (by decide)

/-- The sink cuts the header of a section. The next call for it says that all is well and writes
nothing, and no header was ever written completely. -/
theorem cut_header_counts_as_announced :
    let cs := calls Host.pouring start ⟨[], some 3, .text "sink full"⟩ [.enter "a", .enter "a"]
    cs.map (·.reply) = [.error (.text "sink full"), .ok ()] ∧
      cs.map (·.wrote Host.pouringChars.toIntake) = [Bytes.ofString "\n--", []] ∧
      announced (headersSince Host.pouringChars.toIntake cs) = none := by
  refine ⟨by decide, by decide, by decide⟩

end Transcript

end SmokeBench
