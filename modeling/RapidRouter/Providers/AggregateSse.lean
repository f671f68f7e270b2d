import RapidRouter.Core.LineBreaks
import RapidRouter.Lib.Lists
import RapidRouter.Providers.Codex

/-!
# Failures of a Codex stream

`aggregateSse` makes one completion of a whole body of events. It asks the
translator for a failure, but not whether the stream came to an end, and the
event parser keeps back an event that no blank line ends.

The translator tells a failure once (`errors_le`). `codex_failures` says when
no finish follows it, and for which bodies the completion, or the error, is
that of the events.
-/

namespace RapidRouter.Providers

open Json Emit RapidRouter.Core Codex

/-- `aggregate_sse`. -/
def aggregateSse (body : Bytes) (model : String) : Except StreamFailure Value :=
  let events := (SseParser.new.push body).1
  let (stream, chunks) := emitAll CodexStreamToOpenAi.onEvent (.new model) events
  match stream.failure with
  | some failed => .error failed
  | none => .ok (aggregateChunks chunks)

namespace Codex

/-! ## What a step emits -/

def isErrorFrame (chunk : Value) : Bool := (chunk.get? "error").isSome

def finishOf (chunk : Value) : Option String := ((firstChoice chunk).index "finish_reason").asStr

def Said.ends : Said → Bool
  | .ended _ _ => true
  | _ => false

/-- A finish that a stream without a failure ends with. -/
def IsFinish (finish : Option String) : Prop :=
  finish = some "stop" ∨ finish = some "tool_calls" ∨ finish = some "length"

section

variable (id model : String) (delta : Value) (reason : Option String)

theorem finishOf_chunk : finishOf (openAiChunk id model delta reason) = reason := by
  unfold finishOf
  rw [firstChoice_chunk]
  cases reason <;> simp [Value.index_ofMembers, Value.asStr]

theorem finishOf_withUsage (usage : Value) (reason : String) : finishOf
    (withUsage (openAiChunk id model (.ofMembers []) (some reason)) usage) = some reason := by
  have hchunk : withUsage (openAiChunk id model (.ofMembers []) (some reason)) usage = .ofMembers
      [("id", .string id), ("object", .string "chat.completion.chunk"), ("model", .string model),
        ("choices", .array [.ofMembers [("index", .ofU64 0), ("delta", .ofMembers []),
          ("finish_reason", .string reason)]]), ("usage", usage)] := rfl
  rw [hchunk]
  simp [finishOf, firstChoice, Value.index_ofMembers, Value.at_, Value.asStr]

theorem isErrorFrame_withUsage (usage : Value) (reason : String) : isErrorFrame
    (withUsage (openAiChunk id model (.ofMembers []) (some reason)) usage) = false := by
  have hchunk : withUsage (openAiChunk id model (.ofMembers []) (some reason)) usage = .ofMembers
      [("id", .string id), ("object", .string "chat.completion.chunk"), ("model", .string model),
        ("choices", .array [.ofMembers [("index", .ofU64 0), ("delta", .ofMembers []),
          ("finish_reason", .string reason)]]), ("usage", usage)] := rfl
  rw [hchunk]
  simp [isErrorFrame, Value.get?_ofMembers]

theorem isErrorFrame_chunk : isErrorFrame (openAiChunk id model delta reason) = false := by
  simp [isErrorFrame, openAiChunk, Value.get?_ofMembers]

end

theorem finishOf_failure (f : StreamFailure) : finishOf f.toOpenAiChunk = none := by
  simp [finishOf, firstChoice, StreamFailure.toOpenAiChunk, Value.index_ofMembers, Value.at_,
    Value.asStr]

theorem isFinish_finishReason (saw incomplete : Bool) :
    IsFinish (some (CodexStreamToOpenAi.finishReason saw incomplete)) := by
  cases saw <;> cases incomplete
  · exact Or.inl rfl
  · exact Or.inr (Or.inr rfl)
  · exact Or.inr (Or.inl rfl)
  · exact Or.inr (Or.inl rfl)

/-- The chunks of a message that goes on: no error, and no finish. -/
def Plain (chunk : Value) : Prop := finishOf chunk = none ∧ isErrorFrame chunk = false

theorem plain_chunk (s : CodexStreamToOpenAi) (delta : Value) : Plain (s.chunk delta none) :=
  ⟨finishOf_chunk _ _ _ _, isErrorFrame_chunk _ _ _ _⟩

theorem plain_say (s : CodexStreamToOpenAi) (delta : Value) : ∀ c ∈ (s.say delta).2, Plain c := by
  unfold CodexStreamToOpenAi.say CodexStreamToOpenAi.openRole
  cases s.roleSent with
  | false =>
    intro c hc
    rcases List.mem_pair.mp hc with rfl | rfl
    · exact plain_chunk s _
    · exact plain_chunk _ _
  | true =>
    intro c hc
    rw [List.mem_singleton.mp hc]
    exact plain_chunk s _

/-- An event that neither fails nor ends the stream. -/
theorem plain_step (s : CodexStreamToOpenAi) {x : Said} (hfailure : x.failure? = none)
    (hends : x.ends = false) : ∀ c ∈ (s.step x).2, Plain c := by
  cases x with
  | created id model => exact fun c hc => (by cases hc)
  | added index id name => exact plain_say _ _
  | text delta => exact plain_say _ _
  | arguments index fragment =>
    dsimp only [CodexStreamToOpenAi.step]
    cases s.toolIndices.get? index with
    | none => exact fun c hc => (by cases hc)
    | some toolIndex =>
      intro c hc
      rw [List.mem_singleton.mp hc]
      exact plain_chunk s _
  | done index id name args =>
    dsimp only [CodexStreamToOpenAi.step]
    cases s.toolIndices.get? index with
    | none => exact plain_say _ _
    | some toolIndex => exact fun c hc => (by cases hc)
  | failed f => cases hfailure
  | ended u incomplete => cases hends

theorem step_failed (s : CodexStreamToOpenAi) (f : StreamFailure) :
    s.step (.failed f) =
      if s.failure = none then ({ s with failure := some f }, [f.toOpenAiChunk]) else (s, []) := by
  dsimp only [CodexStreamToOpenAi.step]
  unfold CodexStreamToOpenAi.noteFailure
  cases s.failure <;> rfl

/-- The end of a stream is one chunk with a finish. -/
theorem step_ended (s : CodexStreamToOpenAi) (u : Option Value) (incomplete : Bool) :
    ∃ c, (s.step (.ended u incomplete)).2 = [c] ∧ IsFinish (finishOf c) ∧ isErrorFrame c = false := by
  refine ⟨_, rfl, ?_⟩
  cases u with
  | none =>
    refine ⟨?_, isErrorFrame_chunk _ _ _ _⟩
    show IsFinish (finishOf (openAiChunk _ _ _ _))
    rw [finishOf_chunk]
    exact isFinish_finishReason _ _
  | some u =>
    refine ⟨?_, isErrorFrame_withUsage _ _ u _⟩
    show IsFinish (finishOf (withUsage (openAiChunk _ _ _ _) u))
    rw [finishOf_withUsage]
    exact isFinish_finishReason _ _

/-- The first failure is kept. -/
theorem step_failure (s : CodexStreamToOpenAi) (x : Said) :
    (s.step x).1.failure = s.failure.or x.failure? := by
  cases x with
  | created id model => exact (Option.or_none).symm
  | text delta =>
    dsimp only [CodexStreamToOpenAi.step]
    rw [CodexStreamToOpenAi.say_state]
    exact (Option.or_none).symm
  | added index id name =>
    dsimp only [CodexStreamToOpenAi.step]
    rw [CodexStreamToOpenAi.say_state]
    unfold CodexStreamToOpenAi.announced
    cases s.toolIndices.get? index <;> exact (Option.or_none).symm
  | arguments index fragment =>
    dsimp only [CodexStreamToOpenAi.step]
    cases s.toolIndices.get? index <;> exact (Option.or_none).symm
  | done index id name args =>
    dsimp only [CodexStreamToOpenAi.step]
    cases s.toolIndices.get? index with
    | none =>
      dsimp only
      rw [CodexStreamToOpenAi.say_state]
      exact (Option.or_none).symm
    | some toolIndex => exact (Option.or_none).symm
  | failed f =>
    rw [step_failed]
    cases hfailure : s.failure with
    | none => rfl
    | some first => exact hfailure
  | ended u incomplete => exact (Option.or_none).symm

/-! ## What a run emits -/

/-- Only the first failure has a frame. -/
theorem errors_step (s : CodexStreamToOpenAi) (x : Said) :
    (s.step x).2.countP isErrorFrame + (if (s.step x).1.failure = none then 1 else 0) ≤
      if s.failure = none then 1 else 0 := by
  cases hfailure : x.failure? with
  | some f =>
    obtain rfl : x = .failed f := by
      cases x <;> cases hfailure
      rfl
    rw [step_failed]
    by_cases hnone : s.failure = none
    · rw [if_pos hnone, if_pos hnone, if_neg (by simp), Nat.add_zero]
      exact List.countP_le_length
    · rw [if_neg hnone, if_neg hnone]
      exact Nat.le_refl 0
  | none =>
    have hcount : (s.step x).2.countP isErrorFrame = 0 := by
      refine List.countP_eq_zero.mpr fun c hc => ?_
      cases hends : x.ends with
      | false => exact Bool.not_eq_true _ ▸ (plain_step s hfailure hends c hc).2
      | true =>
        obtain ⟨u, incomplete, rfl⟩ : ∃ u incomplete, x = .ended u incomplete := by
          cases x <;> cases hends
          exact ⟨_, _, rfl⟩
        obtain ⟨chunk, hstep, -, herror⟩ := step_ended s u incomplete
        rw [hstep] at hc
        rw [List.mem_singleton.mp hc, herror]
        exact Bool.false_ne_true
    rw [hcount, step_failure, hfailure, Option.or_none, Nat.zero_add]

/-- A failure is told once. -/
theorem errors_le (s : CodexStreamToOpenAi) (xs : List Said) :
    (emitAll CodexStreamToOpenAi.step s xs).2.countP isErrorFrame ≤
      if s.failure = none then 1 else 0 := by
  induction xs generalizing s with
  | nil => exact Nat.zero_le _
  | cons x xs ih =>
    have hrest := ih (s.step x).1
    have hstep := errors_step s x
    show ((s.step x).2 ++ (emitAll CodexStreamToOpenAi.step (s.step x).1 xs).2).countP _ ≤ _
    rw [List.countP_append]
    omega

/-- A finish is emitted exactly when the stream is said to end. -/
theorem finishes_step (s : CodexStreamToOpenAi) (x : Said) :
    (∃ c ∈ (s.step x).2, IsFinish (finishOf c)) ↔ x.ends = true := by
  have hnot : ¬ IsFinish none := by rintro (h | h | h) <;> cases h
  constructor
  · rintro ⟨c, hc, hfinish⟩
    by_contra hends
    rw [Bool.not_eq_true] at hends
    cases hfailure : x.failure? with
    | none =>
      rw [(plain_step s hfailure hends c hc).1] at hfinish
      exact hnot hfinish
    | some f =>
      obtain rfl : x = .failed f := by
        cases x <;> cases hfailure
        rfl
      rw [step_failed] at hc
      split at hc
      · rw [List.mem_singleton.mp hc, finishOf_failure] at hfinish
        exact hnot hfinish
      · cases hc
  · intro hends
    obtain ⟨u, incomplete, rfl⟩ : ∃ u incomplete, x = .ended u incomplete := by
      cases x <;> cases hends
      exact ⟨_, _, rfl⟩
    obtain ⟨c, hstep, hfinish, -⟩ := step_ended s u incomplete
    exact ⟨c, by rw [hstep]; exact List.mem_cons_self, hfinish⟩

theorem finishes_run (s : CodexStreamToOpenAi) (xs : List Said) :
    (∃ c ∈ (emitAll CodexStreamToOpenAi.step s xs).2, IsFinish (finishOf c)) ↔
      ∃ x ∈ xs, x.ends = true := by
  induction xs generalizing s with
  | nil => exact ⟨fun ⟨c, hc, _⟩ => (by cases hc), fun ⟨x, hx, _⟩ => (by cases hx)⟩
  | cons x xs ih =>
    have hrest := ih (s.step x).1
    have hstep := finishes_step s x
    show (∃ c ∈ (s.step x).2 ++ (emitAll CodexStreamToOpenAi.step (s.step x).1 xs).2, _) ↔ _
    simp only [List.mem_append, or_and_right, exists_or, List.mem_cons]
    rw [hstep, hrest]
    simp only [exists_eq_left]

/-- Once a failure is noted no finish is emitted, wherever the stream is cut. -/
def QuietAfterFailure (model : String) (events : List SseEvent) : Prop :=
  ∀ before after, events = before ++ after →
    (emitAll CodexStreamToOpenAi.onEvent (.new model) before).1.failure ≠ none →
      ¬ ∃ c ∈ (emitAll CodexStreamToOpenAi.onEvent
        (emitAll CodexStreamToOpenAi.onEvent (.new model) before).1 after).2,
        IsFinish (finishOf c)

theorem failure_eq_none {run : List Said} : failure run = none ↔ ∀ x ∈ run, x.failure? = none :=
  List.findSome?_eq_none_iff

theorem quiet_iff (model : String) (events : List SseEvent) :
    QuietAfterFailure model events ↔ (events.filterMap said).Pairwise fun a b =>
      a.failure? ≠ none → b.ends = false := by
  rw [List.pairwise_filterMap, Lists.pairwise_iff_cut]
  unfold QuietAfterFailure
  refine forall₃_congr fun before after _ => ?_
  rw [(tracks_events model before).told.failure, CodexStreamToOpenAi.onEvents_said,
    CodexStreamToOpenAi.onEvents_said, finishes_run, ne_eq, failure_eq_none]
  constructor
  · intro h e he e' he' a ha b hb hfails
    by_contra hends
    refine h (fun hall => hfails ?_) ⟨b, List.mem_filterMap.mpr ⟨e', he', hb⟩, by simpa using hends⟩
    exact hall a (List.mem_filterMap.mpr ⟨e, he, ha⟩)
  · rintro h hfails ⟨b, hb, hends⟩
    obtain ⟨e', he', hb⟩ := List.mem_filterMap.mp hb
    refine hfails fun a ha => ?_
    obtain ⟨e, he, ha⟩ := List.mem_filterMap.mp ha
    by_contra hne
    rw [h e he e' he' a ha b hb hne] at hends
    cases hends

/-! ## A whole body -/

/-- The events of a body. -/
def told (body : Bytes) : List Said := (SseParser.new.push body).1.filterMap said

/-- The events of a body, with a last event that no blank line ends. -/
def toldWhole (body : Bytes) : List Said := told (body ++ utf8 "\n\n")

/-- A body is answered by an error when its events fail or do not come to an end, and by
their content, finish and usage otherwise. -/
structure Reports (body : Bytes) (model : String) : Prop where
  failed : failure (toldWhole body) ≠ none ∨ finish (toldWhole body) = none →
    ∃ f, aggregateSse body model = .error f
  answered : failure (toldWhole body) = none → finish (toldWhole body) ≠ none →
    ∃ completion, aggregateSse body model = .ok completion ∧
      (answer completion).content.asStr.getD "" = texts (toldWhole body) ∧
      (answer completion).finish.asStr = finish (toldWhole body) ∧
      (answer completion).usage = (usage (toldWhole body)).getD .null

/-- What is told without the last event is told first. -/
theorem toldWhole_append (body : Bytes) : ∃ last, toldWhole body = told body ++ last := by
  have hone := SseParser.events_chunks [body ++ utf8 "\n\n"]
  have htwo := SseParser.events_chunks [body, utf8 "\n\n"]
  dsimp only [SseParser.events] at hone htwo
  rw [List.append_nil, List.flatten_singleton] at hone
  rw [List.append_nil, List.flatten_cons, List.flatten_singleton] at htwo
  refine ⟨((SseParser.new.push body).2.push (utf8 "\n\n")).1.filterMap said, ?_⟩
  unfold toldWhole told
  rw [hone, ← htwo, List.filterMap_append]

theorem failure_append {run last : List Said} (h : failure run ≠ none) :
    failure (run ++ last) ≠ none := by
  rw [ne_eq, failure_eq_none] at h ⊢
  exact fun hall => h fun x hx => hall x (List.mem_append_left _ hx)

theorem usage_isObject {run : List Said} (h : ∀ x ∈ run, x.Fits) {u : Value}
    (hu : usage run = some u) : u.isObject = true := by
  obtain ⟨x, hx, husage⟩ := List.mem_filterMap.mp (List.mem_of_getLast? hu)
  exact (h x hx).usage u husage

/-- A usage is told apart from none. -/
theorem usage_getD {run run' : List Said} (h : ∀ x ∈ run, x.Fits) (h' : ∀ x ∈ run', x.Fits) :
    (usage run).getD .null = (usage run').getD .null ↔ usage run = usage run' := by
  have hnull {u : Value} (hu : u.isObject = true) : u ≠ .null := by
    rintro rfl
    cases hu
  cases hu : usage run with
  | none =>
    cases hu' : usage run' with
    | none => exact ⟨fun _ => rfl, fun _ => rfl⟩
    | some v => exact ⟨fun h => absurd h.symm (hnull (usage_isObject h' hu')), fun h => (by cases h)⟩
  | some u =>
    cases hu' : usage run' with
    | none => exact ⟨fun heq => absurd heq (hnull (usage_isObject h hu)), fun h => (by cases h)⟩
    | some v => exact Option.some_inj.symm

/-- What the answer to a body is: the failure told first, or what is reassembled. -/
theorem aggregateSse_eq (body : Bytes) (model : String) :
    (∃ f, failure (told body) = some f ∧ aggregateSse body model = .error f) ∨
      ∃ completion, failure (told body) = none ∧ aggregateSse body model = .ok completion ∧
        (answer completion).content.asStr.getD "" = texts (told body) ∧
        (answer completion).finish.asStr = some ((finish (told body)).getD "stop") ∧
        (answer completion).usage = (usage (told body)).getD .null := by
  obtain ⟨run, hrun⟩ : ∃ run, run = emitAll CodexStreamToOpenAi.onEvent
    (CodexStreamToOpenAi.new model) (SseParser.new.push body).1 := ⟨_, rfl⟩
  have htold := (tracks_events model (SseParser.new.push body).1).told
  rw [← hrun] at htold
  unfold aggregateSse told
  dsimp only
  rw [← hrun, ← htold.failure]
  cases run.1.failure with
  | some f => exact Or.inl ⟨f, rfl, rfl⟩
  | none =>
    refine Or.inr ⟨_, rfl, rfl, ?_⟩
    unfold aggregateChunks
    rw [answer_completion]
    refine ⟨?_, ?_, ?_⟩
    · rw [← htold.content]
      dsimp only
      split
      · rfl
      · next h =>
        have hempty := (not_or.mp h).1
        rw [not_not] at hempty
        rw [hempty]
        rfl
    · rw [← htold.finish]
      rfl
    · rw [← htold.usage]

theorem reports_iff (body : Bytes) (model : String) : Reports body model ↔
    failure (told body) ≠ none ∨
      (failure (toldWhole body) = none ∧
        finish (toldWhole body) = some ((finish (told body)).getD "stop") ∧
        texts (toldWhole body) = texts (told body) ∧
        usage (toldWhole body) = usage (told body)) := by
  have hfits : ∀ x ∈ told body, x.Fits := filterMap_fits _
  have hwhole : ∀ x ∈ toldWhole body, x.Fits := filterMap_fits _
  obtain ⟨last, hlast⟩ := toldWhole_append body
  rcases aggregateSse_eq body model with ⟨f, hf, heq⟩ | ⟨completion, hnone, heq, hcontent, hfinish, husage⟩
  · have hfailed : failure (told body) ≠ none := by
      rw [hf]
      exact fun h => by cases h
    refine ⟨fun _ => Or.inl hfailed, fun _ => ⟨fun _ => ⟨f, heq⟩, fun hok => ?_⟩⟩
    rw [hlast] at hok
    exact absurd hok (failure_append hfailed)
  · constructor
    · intro h
      have hok : ¬ (failure (toldWhole body) ≠ none ∨ finish (toldWhole body) = none) := by
        intro hbad
        obtain ⟨f, hf⟩ := h.failed hbad
        rw [heq] at hf
        cases hf
      obtain ⟨hsound, hends⟩ := not_or.mp hok
      rw [not_not] at hsound
      obtain ⟨other, hother, hcontent', hfinish', husage'⟩ := h.answered hsound hends
      obtain rfl : completion = other := by
        rw [heq] at hother
        cases hother
        rfl
      refine Or.inr ⟨hsound, hfinish'.symm.trans hfinish, hcontent'.symm.trans hcontent, ?_⟩
      exact (usage_getD hwhole hfits).mp (husage'.symm.trans husage)
    · rintro (hfailed | ⟨hsound, hends, htexts, husages⟩)
      · exact absurd hnone hfailed
      · refine ⟨fun hbad => ?_, fun _ _ => ⟨completion, heq, ?_, ?_, ?_⟩⟩
        · rcases hbad with hbad | hbad
          · exact absurd hsound hbad
          · rw [hends] at hbad
            cases hbad
        · rw [htexts]
          exact hcontent
        · rw [hends]
          exact hfinish
        · rw [husages]
          exact husage

end Codex

open Codex

/-- Every stream has at most one error frame. No finish follows a failure exactly when no
terminal event follows one that fails; and a whole body is reported as its events say
exactly when an event that a blank line ends fails, or none fails, there is a terminal
event, and the last event, if no blank line ends it, adds neither text nor usage nor a
finish other than the default. -/
theorem codex_failures (model : String) (events : List SseEvent) (body : Bytes) :
    (emitAll CodexStreamToOpenAi.onEvent (.new model) events).2.countP isErrorFrame ≤ 1 ∧
      (QuietAfterFailure model events ↔
        (events.filterMap said).Pairwise fun a b => a.failure? ≠ none → b.ends = false) ∧
      (Reports body model ↔ failure (told body) ≠ none ∨
        (failure (toldWhole body) = none ∧
          finish (toldWhole body) = some ((finish (told body)).getD "stop") ∧
          texts (toldWhole body) = texts (told body) ∧
          usage (toldWhole body) = usage (told body))) := by
  refine ⟨?_, quiet_iff model events, reports_iff body model⟩
  rw [CodexStreamToOpenAi.onEvents_said]
  exact errors_le (.new model) _

namespace Codex

def cutLine : Bytes := utf8 "data: \x7b\"type\":\"response.output_text.delta\",\"delta\":\"a\"\x7d"

/-- One piece of text, and then no more. -/
def cutBody : Bytes := cutLine ++ utf8 "\n\n"

theorem told_streamEvents (body : Bytes) :
    told body = (SseParser.streamEvents body).filterMap said := by
  have hone := SseParser.events_chunks [body]
  dsimp only [SseParser.events] at hone
  rw [List.append_nil, List.flatten_singleton] at hone
  unfold told
  rw [hone]

theorem told_cutBody : told cutBody = [.text "a"] := by
  have hlex : Sse.lex cutBody = ([⟨cutLine, .lf⟩, ⟨[], .lf⟩], []) := by decide
  have hsplit : Sse.splitBlock [⟨cutLine, .lf⟩, ⟨[], .lf⟩] = some ([⟨cutLine, .lf⟩], .lf, []) := by
    decide
  have hblocks : Sse.streamBlocks cutBody = [⟨[⟨cutLine, .lf⟩], .lf, true⟩] := by
    unfold Sse.streamBlocks
    rw [hlex, Sse.blocks_some hsplit, Sse.blocks_none rfl]
    rfl
  rw [told_streamEvents, Sse.streamEvents_blocks, hblocks]
  rfl

/-- More blank lines are no events. -/
theorem toldWhole_cutBody : toldWhole cutBody = [.text "a"] := by
  have hlex : Sse.lex (cutBody ++ utf8 "\n\n") =
      ([⟨cutLine, .lf⟩, ⟨[], .lf⟩, ⟨[], .lf⟩, ⟨[], .lf⟩], []) := by decide
  have hsplit : Sse.splitBlock [⟨cutLine, .lf⟩, ⟨[], .lf⟩, ⟨[], .lf⟩, ⟨[], .lf⟩] =
      some ([⟨cutLine, .lf⟩], .lf, [⟨[], .lf⟩, ⟨[], .lf⟩]) := by decide
  have hblank : Sse.splitBlock [⟨[], .lf⟩, ⟨[], .lf⟩] = some ([⟨[], .lf⟩], .lf, []) := by decide
  have hblocks : Sse.streamBlocks (cutBody ++ utf8 "\n\n") =
      [⟨[⟨cutLine, .lf⟩], .lf, false⟩, ⟨[⟨[], .lf⟩], .lf, true⟩] := by
    unfold Sse.streamBlocks
    rw [hlex, Sse.blocks_some hsplit, Sse.blocks_some hblank, Sse.blocks_none rfl]
    rfl
  unfold toldWhole
  rw [told_streamEvents, Sse.streamEvents_blocks, hblocks]
  rfl

end Codex

/-- A failure that a terminal event follows, and a body that is cut off. -/
theorem codex_failures_broken :
    ¬ QuietAfterFailure "m" [sseEvent "response.failed" (.ofMembers []),
        sseEvent "response.completed" (.ofMembers [])] ∧
      ¬ Reports cutBody "m" := by
  constructor
  · rw [quiet_iff]
    have hsaid : [sseEvent "response.failed" (.ofMembers []),
        sseEvent "response.completed" (.ofMembers [])].filterMap said =
      [.failed (.fromErrorObject .null "response_failed"), .ended none false] := rfl
    rw [hsaid]
    intro h
    have hends := (List.pairwise_cons.mp h).1 _ List.mem_cons_self (fun hf => by cases hf)
    cases hends
  · rw [reports_iff, told_cutBody, toldWhole_cutBody]
    rintro (hfailed | ⟨-, hends, -⟩)
    · exact hfailed rfl
    · cases hends

end RapidRouter.Providers
