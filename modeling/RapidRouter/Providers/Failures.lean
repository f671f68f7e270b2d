import RapidRouter.Providers.Upstream

/-!
# Streams that fail or end early

`translated_stream_body` of `router-server/src/proxy.rs` renders the chunks of an
upstream for the client as they come, and closes the client's stream when the
upstream ends, or breaks: with the same frames, whatever was seen by then. So a
client learns of a failure only from what the chunks say, and the renderers look
at their choices and nothing else. A chunk that carries an error has no choices;
to a client of another dialect than OpenAI's it says nothing.

`honest_iff` says of every sequence of events, of every upstream and to every
client, whether the client can tell it from an answer that came to its end.
-/

namespace RapidRouter.Providers

open Json Emit RapidRouter.Core
open Codex (finishOf)

/-! ## The stream a client is sent -/

/-- How an upstream's body comes to its end. -/
inductive BodyEnd where
  | closed
  | broken
  deriving DecidableEq

/-- One event, through the translator and the formatter. -/
def onStreamEvent (st : UpstreamStream × InboundStream) (event : SseEvent) :
    (UpstreamStream × InboundStream) × List SseFrame :=
  let (translator, chunks) := st.1.onEvent event
  let (formatter, frames) := emitAll InboundStream.onChunk st.2 chunks
  ((translator, formatter), frames)

/-- A text of an event of one of these names. -/
def eventText (names : List String) (read : Value → Value) : SseFrame → Option String
  | .event name data => if name ∈ names then (read data).asStr else none
  | _ => none

def dataText (read : Value → Option String) : SseFrame → Option String
  | .data chunk => read chunk
  | _ => none

def isEvent (names : List String) : SseFrame → Bool
  | .event name _ => name ∈ names
  | _ => false

def dataError : SseFrame → Bool
  | .data chunk => tellsError chunk
  | _ => false

def isDone : SseFrame → Bool
  | .done => true
  | _ => false

/-- How a client of a dialect reads the end of a stream. -/
structure Reader where
  /-- Why the answer ended, where a frame says so. -/
  finish : SseFrame → Option String
  error : SseFrame → Bool
  /-- The frame that a stream ends with. -/
  last : SseFrame → Bool
  /-- The finish of an answer that just stops, and of one that is cut short. -/
  clean : String
  incomplete : String

/-- The names of the events that end a response. -/
def responseEnds : List String := ["response.completed", "response.incomplete", "response.failed"]

def readerOf : RenderTarget → Reader
  | .dialect .anthropic =>
    { finish := eventText ["message_delta"] fun data => (data.index "delta").index "stop_reason"
      error := isEvent ["error"]
      last := isEvent ["message_stop"]
      clean := "end_turn"
      incomplete := "max_tokens" }
  | .dialect .gemini =>
    { finish := dataText fun chunk => ((Gemini.candidate chunk).index "finishReason").asStr
      error := dataError
      -- nothing follows the chunk with the finish
      last := fun _ => true
      clean := "STOP"
      incomplete := "MAX_TOKENS" }
  | .responses =>
    { finish := eventText responseEnds fun data => (data.index "response").index "status"
      error := isEvent ["error", "response.failed"]
      last := isEvent responseEnds
      clean := "completed"
      incomplete := "incomplete" }
  | .dialect .openAi | .dialect .bedrock | .dialect .codexResponses =>
    { finish := dataText finishOf
      error := dataError
      last := isDone
      clean := "stop"
      incomplete := "length" }

namespace Reader

variable (r : Reader) (frames : List SseFrame)

/-- The stream comes to its end. -/
def Ends : Prop := frames.getLast?.any r.last = true

end Reader

/-! ## What the events say of a failure -/

/-- The finishes a client reads, when the chunks carry these. -/
def endings (target : RenderTarget) (finishes : List String) : List String :=
  match target with
  | .dialect .anthropic => [fromFinish finishes.getLast?]
  | .dialect .gemini => finishes.map geminiFinish
  | .responses => [if finishes.getLast? = some "length" then "incomplete" else "completed"]
  | .dialect .openAi | .dialect .bedrock | .dialect .codexResponses => finishes

/-- To these clients every chunk goes as it is. -/
def RenderTarget.relaysChunks : RenderTarget → Bool
  | .dialect .openAi | .dialect .bedrock | .dialect .codexResponses => true
  | _ => false

/-- What becomes of the finishes and the errors of chunks. -/
structure Rendered (target : RenderTarget) (chunks : List Value) (frames : List SseFrame) :
    Prop where
  finishes : frames.filterMap (readerOf target).finish = endings target (chunks.filterMap finishOf)
  errors : frames.any (readerOf target).error = (target.relaysChunks && chunks.any tellsError)
  ends : frames ≠ [] → (readerOf target).Ends frames

/-- A frame that says nothing of the end. -/
def Quiet (target : RenderTarget) (f : SseFrame) : Prop :=
  (readerOf target).finish f = none ∧ (readerOf target).error f = false

theorem filterMap_quiet {target : RenderTarget} {frames : List SseFrame}
    (h : ∀ f ∈ frames, Quiet target f) : frames.filterMap (readerOf target).finish = [] :=
  List.filterMap_eq_nil_iff.mpr fun f hf => (h f hf).1

theorem any_quiet {target : RenderTarget} {frames : List SseFrame}
    (h : ∀ f ∈ frames, Quiet target f) : frames.any (readerOf target).error = false := by
  refine List.any_eq_false.mpr fun f hf => ?_
  rw [(h f hf).2]
  exact Bool.false_ne_true

theorem quiet_append {target : RenderTarget} {a b : List SseFrame} (ha : ∀ f ∈ a, Quiet target f)
    (hb : ∀ f ∈ b, Quiet target f) : ∀ f ∈ a ++ b, Quiet target f := by
  intro f hf
  rcases List.mem_append.mp hf with hf | hf
  · exact ha f hf
  · exact hb f hf

/-- The finish of chunks is the last one, where each replaces the one before. -/
theorem getLast?_finishes (chunk : Value) (chunks : List Value) (finish : Option String) :
    ((chunk :: chunks).filterMap finishOf).getLast?.or finish =
      (chunks.filterMap finishOf).getLast?.or ((finishOf chunk).or finish) := by
  cases hfinish : finishOf chunk with
  | none =>
    rw [List.filterMap_cons_none hfinish]
    rfl
  | some reason =>
    rw [List.filterMap_cons_some hfinish]
    cases hrest : chunks.filterMap finishOf with
    | nil => rfl
    | cons first rest =>
      rw [List.getLast?_cons_cons, List.getLast?_cons]
      rfl

/-! ### OpenAI -/

theorem rendered_relayed {target : RenderTarget} (h : target.relaysChunks = true)
    (chunks : List Value) : Rendered target chunks (renderedFrames target chunks) := by
  have hframes : renderedFrames target chunks = chunks.map .data ++ [.done] := by
    have hnew : InboundStream.newFor target = .openAi := by
      cases target with
      | responses => cases h
      | dialect d => cases d <;> first | rfl | cases h
    have hrun : emitAll InboundStream.onChunk .openAi chunks = (.openAi, chunks.map .data) := by
      induction chunks with
      | nil => rfl
      | cons chunk chunks ih =>
        show ((emitAll InboundStream.onChunk .openAi chunks).1,
          [SseFrame.data chunk] ++ (emitAll InboundStream.onChunk .openAi chunks).2) = _
        rw [ih]
        rfl
    unfold renderedFrames
    rw [hnew, hrun]
    rfl
  have hreader : readerOf target = readerOf (.dialect .openAi) := by
    cases target with
    | responses => cases h
    | dialect d => cases d <;> first | rfl | cases h
  have hendings : ∀ fs, endings target fs = fs := by
    cases target with
    | responses => cases h
    | dialect d => cases d <;> first | exact fun _ => rfl | cases h
  rw [hframes]
  refine ⟨?_, ?_, fun _ => ?_⟩
  · rw [hreader, hendings, List.filterMap_append, List.filterMap_map]
    exact List.append_nil _
  · rw [hreader, h, List.any_append, List.any_map]
    exact Bool.or_false _
  · unfold Reader.Ends
    rw [hreader, List.getLast?_concat]
    rfl

/-! ### Anthropic -/

namespace OpenAiToAnthropicStream

variable (s : OpenAiToAnthropicStream)

/-- A step that leaves the finish and says nothing of it. -/
def Silent (r : OpenAiToAnthropicStream × List SseFrame) : Prop :=
  r.1.finish = s.finish ∧ ∀ f ∈ r.2, Quiet (.dialect .anthropic) f

theorem quiet_block {name : String} {data : Value}
    (hname : name ∈ ["message_start", "content_block_start", "content_block_delta",
      "content_block_stop"]) : Quiet (.dialect .anthropic) (.event name data) := by
  simp only [List.mem_cons, List.not_mem_nil, or_false] at hname
  rcases hname with rfl | rfl | rfl | rfl <;> exact ⟨rfl, rfl⟩

theorem finish_messageDelta (finish : Option String) (n : Nat) :
    (readerOf (.dialect .anthropic)).finish (messageDelta finish n) = some (fromFinish finish) := by
  unfold messageDelta readerOf eventText
  simp [Value.index_ofMembers, Value.asStr]

theorem silent_close : s.Silent s.closeOpenBlock := by
  unfold closeOpenBlock
  cases s.openBlock with
  | none => exact ⟨rfl, fun f hf => by cases hf⟩
  | some block =>
    refine ⟨rfl, fun f hf => ?_⟩
    rw [List.mem_singleton.mp hf]
    exact quiet_block (by simp)

theorem silent_onText (text : String) : s.Silent (s.onText text) := by
  unfold onText
  dsimp only
  split
  · refine ⟨rfl, fun f hf => ?_⟩
    rw [List.mem_singleton.mp hf]
    exact quiet_block (by simp)
  · obtain ⟨hfinish, hquiet⟩ := s.silent_close
    refine ⟨hfinish, quiet_append hquiet fun f hf => ?_⟩
    rcases List.mem_pair.mp hf with rfl | rfl <;> exact quiet_block (by simp)

theorem silent_onCall (call : Value) : s.Silent (s.onCall call) := by
  have hname : s.Silent (s.onName call) := by
    unfold onName
    split
    · obtain ⟨hfinish, hquiet⟩ := s.silent_close
      refine ⟨hfinish, quiet_append hquiet fun f hf => ?_⟩
      rw [List.mem_singleton.mp hf]
      exact quiet_block (by simp)
    · exact ⟨rfl, fun f hf => by cases hf⟩
  refine ⟨hname.1, quiet_append hname.2 fun f hf => ?_⟩
  unfold argumentDeltas at hf
  split at hf
  · rw [List.mem_singleton.mp hf]
    exact quiet_block (by simp)
  · cases hf

theorem silent_onCalls (calls : List Value) : s.Silent (emitAll onCall s calls) :=
  emitAll_forall (I := fun t : OpenAiToAnthropicStream => t.finish = s.finish)
    (Q := Quiet (.dialect .anthropic))
    (fun t call _ ht => ⟨(t.silent_onCall call).1.trans ht, (t.silent_onCall call).2⟩) rfl

theorem onChunk_end (chunk : Value) :
    (s.onChunk chunk).1.finish = (finishOf chunk).or s.finish ∧
      ∀ f ∈ (s.onChunk chunk).2, Quiet (.dialect .anthropic) f := by
  let delta := (firstChoice chunk).index "delta"
  have hcontent : s.Silent ({ s with started := true }.onContent (delta.index "content")) := by
    unfold onContent
    split
    · exact silent_onText { s with started := true } _
    · exact ⟨rfl, fun f hf => by cases hf⟩
  have hcalls := ({ s with started := true }.onContent (delta.index "content")).1.silent_onCalls
    (elements (delta.index "tool_calls"))
  unfold onChunk
  dsimp only
  refine ⟨?_, quiet_append (quiet_append ?_ hcontent.2) hcalls.2⟩
  · show ((firstChoice chunk).index "finish_reason").asStr.or _ = _
    rw [hcalls.1, hcontent.1]
    rfl
  · split
    · exact fun f hf => by cases hf
    · intro f hf
      rw [List.mem_singleton.mp hf]
      exact quiet_block (by simp)

theorem onChunks_end (chunks : List Value) :
    (emitAll onChunk s chunks).1.finish = (chunks.filterMap finishOf).getLast?.or s.finish ∧
      ∀ f ∈ (emitAll onChunk s chunks).2, Quiet (.dialect .anthropic) f := by
  induction chunks generalizing s with
  | nil => exact ⟨rfl, fun f hf => by cases hf⟩
  | cons chunk chunks ih =>
    obtain ⟨hfinish, hquiet⟩ := s.onChunk_end chunk
    obtain ⟨hlast, hrest⟩ := ih (s.onChunk chunk).1
    refine ⟨?_, quiet_append hquiet hrest⟩
    rw [getLast?_finishes, ← hfinish]
    exact hlast

end OpenAiToAnthropicStream

theorem rendered_anthropic (chunks : List Value) :
    Rendered (.dialect .anthropic) chunks (renderedFrames (.dialect .anthropic) chunks) := by
  obtain ⟨hlast, hquiet⟩ := OpenAiToAnthropicStream.new.onChunks_end chunks
  let s := (emitAll OpenAiToAnthropicStream.onChunk .new chunks).1
  obtain ⟨hfinish, hclosed⟩ := s.silent_close
  have hwrap : emitAll InboundStream.onChunk (.anthropic .new) chunks =
      (.anthropic s, (emitAll OpenAiToAnthropicStream.onChunk .new chunks).2) :=
    emitAll_wrap (fun _ _ => rfl) _ chunks
  have hframes : ∃ n, renderedFrames (.dialect .anthropic) chunks =
      ((emitAll OpenAiToAnthropicStream.onChunk .new chunks).2 ++ s.closeOpenBlock.2) ++
        [OpenAiToAnthropicStream.messageDelta (chunks.filterMap finishOf).getLast? n,
          .event "message_stop" (.ofMembers [("type", .string "message_stop")])] := by
    refine ⟨(s.closeOpenBlock.1.usage.bind fun u => (u.index "completion_tokens").asU64).getD 0, ?_⟩
    unfold renderedFrames
    show (match emitAll InboundStream.onChunk (.anthropic .new) chunks with
      | (formatter, frames) => frames ++ formatter.finishFrames) = _
    rw [hwrap, List.append_assoc]
    have hreason : s.closeOpenBlock.1.finish = (chunks.filterMap finishOf).getLast? := by
      rw [hfinish, hlast]
      exact Option.or_none
    rw [← hreason]
    rfl
  obtain ⟨n, hframes⟩ := hframes
  have hall := quiet_append hquiet hclosed
  rw [hframes]
  refine ⟨?_, ?_, fun _ => ?_⟩
  · rw [List.filterMap_append, filterMap_quiet hall,
      List.filterMap_cons_some (OpenAiToAnthropicStream.finish_messageDelta _ n)]
    rfl
  · rw [List.any_append, any_quiet hall]
    rfl
  · unfold Reader.Ends
    rw [List.getLast?_append]
    rfl

/-! ### Gemini -/

namespace OpenAiToGeminiStream

theorem streamChunk_end (parts : List Value) (chunk : Value) (finish : Option String) :
    (readerOf (.dialect .gemini)).finish (.data (streamChunk parts chunk finish)) = finish ∧
      (readerOf (.dialect .gemini)).error (.data (streamChunk parts chunk finish)) = false := by
  unfold readerOf dataText dataError tellsError Gemini.candidate streamChunk
  cases finish with
  | none => simp [Value.index_ofMembers, Value.at_, Value.asStr, Value.isNull]
  | some reason =>
    cases usageOf chunk <;> simp [Value.index_ofMembers, Value.at_, Value.asStr, Value.isNull]

theorem onChunk_end (s : OpenAiToGeminiStream) (chunk : Value) :
    (s.onChunk chunk).2.filterMap (readerOf (.dialect .gemini)).finish =
        (finishOf chunk).toList.map geminiFinish ∧
      ∀ f ∈ (s.onChunk chunk).2, (readerOf (.dialect .gemini)).error f = false := by
  have hread : ∀ parts finish, [SseFrame.data (streamChunk parts chunk finish)].filterMap
      (readerOf (.dialect .gemini)).finish = finish.toList := by
    intro parts finish
    obtain ⟨hfinish, -⟩ := streamChunk_end parts chunk finish
    cases finish with
    | none =>
      rw [List.filterMap_cons_none hfinish]
      rfl
    | some reason =>
      rw [List.filterMap_cons_some hfinish]
      rfl
  have hlist : ((finishOf chunk).map geminiFinish).toList = (finishOf chunk).toList.map geminiFinish := by
    cases finishOf chunk <;> rfl
  unfold onChunk
  dsimp only
  split
  · next hempty =>
    rw [Bool.and_eq_true, Option.isNone_iff_eq_none] at hempty
    refine ⟨?_, fun f hf => by cases hf⟩
    rw [← hlist]
    show [] = ((finishOf chunk).map geminiFinish).toList
    rw [show (finishOf chunk).map geminiFinish = none from hempty.2]
    rfl
  · refine ⟨(hread _ _).trans hlist, fun f hf => ?_⟩
    rw [List.mem_singleton.mp hf]
    exact (streamChunk_end _ _ _).2

theorem onChunks_end (s : OpenAiToGeminiStream) (chunks : List Value) :
    (emitAll onChunk s chunks).2.filterMap (readerOf (.dialect .gemini)).finish =
        (chunks.filterMap finishOf).map geminiFinish ∧
      ∀ f ∈ (emitAll onChunk s chunks).2, (readerOf (.dialect .gemini)).error f = false := by
  induction chunks generalizing s with
  | nil => exact ⟨rfl, fun f hf => by cases hf⟩
  | cons chunk chunks ih =>
    obtain ⟨hfinish, herror⟩ := s.onChunk_end chunk
    obtain ⟨hrest, hlater⟩ := ih (s.onChunk chunk).1
    refine ⟨?_, fun f hf => ?_⟩
    · show ((s.onChunk chunk).2 ++ (emitAll onChunk (s.onChunk chunk).1 chunks).2).filterMap _ = _
      rw [List.filterMap_append, hfinish, hrest]
      cases hreason : finishOf chunk with
      | none =>
        rw [List.filterMap_cons_none hreason]
        rfl
      | some reason =>
        rw [List.filterMap_cons_some hreason]
        rfl
    · rcases List.mem_append.mp hf with hf | hf
      · exact herror f hf
      · exact hlater f hf

end OpenAiToGeminiStream

theorem rendered_gemini (chunks : List Value) :
    Rendered (.dialect .gemini) chunks (renderedFrames (.dialect .gemini) chunks) := by
  obtain ⟨hfinishes, herrors⟩ := OpenAiToGeminiStream.new.onChunks_end chunks
  have hwrap : emitAll InboundStream.onChunk (.gemini .new) chunks =
      (.gemini (emitAll OpenAiToGeminiStream.onChunk .new chunks).1,
        (emitAll OpenAiToGeminiStream.onChunk .new chunks).2) :=
    emitAll_wrap (fun _ _ => rfl) _ chunks
  have hframes : renderedFrames (.dialect .gemini) chunks =
      (emitAll OpenAiToGeminiStream.onChunk .new chunks).2 := by
    unfold renderedFrames
    show (match emitAll InboundStream.onChunk (.gemini .new) chunks with
      | (formatter, frames) => frames ++ formatter.finishFrames) = _
    rw [hwrap]
    exact List.append_nil _
  rw [hframes]
  refine ⟨hfinishes, ?_, fun hsome => ?_⟩
  · refine List.any_eq_false.mpr fun f hf => ?_
    rw [herrors f hf]
    exact Bool.false_ne_true
  · unfold Reader.Ends
    rw [List.getLast?_eq_some_getLast hsome]
    rfl

/-! ### Responses -/

namespace ChunksToResponses

variable (s : ChunksToResponses)

/-- A step that leaves the finish and says nothing of it. -/
def Silent (r : ChunksToResponses × List SseFrame) : Prop :=
  r.1.finish = s.finish ∧ ∀ f ∈ r.2, Quiet .responses f

variable {s}

theorem Silent.andThen {a : ChunksToResponses × List SseFrame}
    {f : ChunksToResponses → ChunksToResponses × List SseFrame} (ha : s.Silent a)
    (hf : a.1.Silent (f a.1)) : s.Silent (Emit.andThen a f) :=
  ⟨hf.1.trans ha.1, quiet_append ha.2 hf.2⟩

variable (s)

/-- The events of the items. -/
def itemEvents : List String :=
  ["response.created", "response.output_item.added", "response.content_part.added",
    "response.output_text.delta", "response.output_text.done", "response.output_item.done",
    "response.function_call_arguments.delta", "response.function_call_arguments.done"]

theorem silent_event {name : String} (hname : name ∈ itemEvents) (data : List (String × Value)) :
    s.Silent (s.event name data) := by
  refine ⟨rfl, fun f hf => ?_⟩
  rw [List.mem_singleton.mp hf]
  unfold itemEvents at hname
  simp only [List.mem_cons, List.not_mem_nil, or_false] at hname
  rcases hname with rfl | rfl | rfl | rfl | rfl | rfl | rfl | rfl <;> exact ⟨rfl, rfl⟩

theorem silent_events {list : List (String × List (String × Value))}
    (hnames : ∀ e ∈ list, e.1 ∈ itemEvents) : s.Silent (s.events list) :=
  emitAll_forall (I := fun t : ChunksToResponses => t.finish = s.finish) (Q := Quiet .responses)
    (fun t e he ht => ⟨(t.silent_event (hnames e he) e.2).1.trans ht,
      (t.silent_event (hnames e he) e.2).2⟩) rfl

theorem silent_close : s.Silent s.closeOpenItem := by
  unfold closeOpenItem
  dsimp only
  split
  · exact silent_events { s with openItem := none, text := none } (by simp [itemEvents])
  · split
    · exact silent_events { s with openItem := none } (by simp [itemEvents])
    · exact ⟨rfl, fun f hf => by cases hf⟩
  · exact ⟨rfl, fun f hf => by cases hf⟩

theorem silent_start (chunk : Value) : s.Silent (s.start chunk) := by
  unfold start
  split
  · exact ⟨rfl, fun f hf => by cases hf⟩
  · exact silent_event { s with
      started := true
      responseId := "resp_" ++ (chunk.index "id").asStr.getD "stream"
      model := (chunk.index "model").asStr.getD "" } (by simp [itemEvents]) _

theorem silent_onContent (content : Value) : s.Silent (s.onContent content) := by
  have hopen : s.Silent s.openMessage := by
    unfold openMessage
    split
    · exact ⟨rfl, fun f hf => by cases hf⟩
    · refine s.silent_close.andThen ?_
      exact silent_events { s.closeOpenItem.1 with openItem := some .message, text := some "" }
        (by simp [itemEvents])
  unfold onContent
  split
  · next text _ =>
    refine hopen.andThen ?_
    exact silent_event { s.openMessage.1 with text := s.openMessage.1.text.map (· ++ text) }
      (by simp [itemEvents]) _
  · exact ⟨rfl, fun f hf => by cases hf⟩

theorem silent_onCall (call : Value) : s.Silent (s.onCall call) := by
  have hname : s.Silent (s.onName call) := by
    unfold onName
    split
    · next name _ =>
      refine s.silent_close.andThen ?_
      exact silent_event { s.closeOpenItem.1 with
        calls := s.closeOpenItem.1.calls.insert (toolIndex call)
          ((call.index "id").asStr.getD "call_0", name, "")
        openItem := some (.functionCall (toolIndex call)) } (by simp [itemEvents]) _
    · exact ⟨rfl, fun f hf => by cases hf⟩
  refine hname.andThen ?_
  unfold onArguments
  dsimp only
  split
  · exact silent_event { (s.onName call).1 with calls := _ } (by simp [itemEvents]) _
  · exact ⟨rfl, fun f hf => by cases hf⟩

theorem silent_onCalls (calls : List Value) : s.Silent (emitAll onCall s calls) :=
  emitAll_forall (I := fun t : ChunksToResponses => t.finish = s.finish) (Q := Quiet .responses)
    (fun t call _ ht => ⟨(t.silent_onCall call).1.trans ht, (t.silent_onCall call).2⟩) rfl

theorem onChunk_end (chunk : Value) :
    (s.onChunk chunk).1.finish = (finishOf chunk).or s.finish ∧
      ∀ f ∈ (s.onChunk chunk).2, Quiet .responses f := by
  let delta := (firstChoice chunk).index "delta"
  have hstart := s.silent_start chunk
  have hcontent := (s.start chunk).1.silent_onContent (delta.index "content")
  have hcalls := ((s.start chunk).1.onContent (delta.index "content")).1.silent_onCalls
    (elements (delta.index "tool_calls"))
  unfold onChunk
  dsimp only
  refine ⟨?_, quiet_append (quiet_append hstart.2 hcontent.2) hcalls.2⟩
  show ((firstChoice chunk).index "finish_reason").asStr.or _ = _
  rw [hcalls.1, hcontent.1, hstart.1]
  rfl

theorem onChunks_end (chunks : List Value) :
    (emitAll onChunk s chunks).1.finish = (chunks.filterMap finishOf).getLast?.or s.finish ∧
      ∀ f ∈ (emitAll onChunk s chunks).2, Quiet .responses f := by
  induction chunks generalizing s with
  | nil => exact ⟨rfl, fun f hf => by cases hf⟩
  | cons chunk chunks ih =>
    obtain ⟨hfinish, hquiet⟩ := s.onChunk_end chunk
    obtain ⟨hlast, hrest⟩ := ih (s.onChunk chunk).1
    refine ⟨?_, quiet_append hquiet hrest⟩
    rw [getLast?_finishes, ← hfinish]
    exact hlast

theorem finish_completed (finish : Option String) (id model : String) (output : List Value)
    (usage : Value) (sequence : Nat) :
    (readerOf .responses).finish (.event "response.completed" (.ofMembers
      [("response", .ofMembers ([("id", .string id), ("object", .string "response"),
        ("status", .string (if finish = some "length" then "incomplete" else "completed")),
        ("model", .string model), ("output", .array output), ("usage", usage)] ++
        if finish = some "length" then [("incomplete_details", incompleteDetails)] else [])),
      ("type", .string "response.completed"), ("sequence_number", .ofU64 sequence)])) =
      some (if finish = some "length" then "incomplete" else "completed") := by
  unfold readerOf eventText responseEnds
  by_cases hlength : finish = some "length"
  · simp [hlength, Value.index_ofMembers, Value.asStr]
  · simp [hlength, Value.index_ofMembers, Value.asStr]

/-- What is open is closed, and one event ends the response. -/
theorem finishFrames_end : ∃ data, s.finishFrames =
    s.closeOpenItem.2 ++ [.event "response.completed" data] ∧
    (readerOf .responses).finish (.event "response.completed" data) =
      some (if s.closeOpenItem.1.finish = some "length" then "incomplete" else "completed") := by
  unfold finishFrames
  generalize s.closeOpenItem = closed
  obtain ⟨closed, frames⟩ := closed
  exact ⟨_, rfl, finish_completed closed.finish _ _ _ _ _⟩

end ChunksToResponses

theorem rendered_responses (chunks : List Value) :
    Rendered .responses chunks (renderedFrames .responses chunks) := by
  obtain ⟨hlast, hquiet⟩ := ChunksToResponses.new.onChunks_end chunks
  let s := (emitAll ChunksToResponses.onChunk .new chunks).1
  obtain ⟨hfinish, hclosed⟩ := s.silent_close
  have hwrap : emitAll InboundStream.onChunk (.responses .new) chunks =
      (.responses s, (emitAll ChunksToResponses.onChunk .new chunks).2) :=
    emitAll_wrap (fun _ _ => rfl) _ chunks
  have hframes : ∃ data, renderedFrames .responses chunks =
      ((emitAll ChunksToResponses.onChunk .new chunks).2 ++ s.closeOpenItem.2) ++
        [.event "response.completed" data] ∧
      (readerOf .responses).finish (.event "response.completed" data) =
        some (if (chunks.filterMap finishOf).getLast? = some "length" then "incomplete"
          else "completed") := by
    have hreason : s.closeOpenItem.1.finish = (chunks.filterMap finishOf).getLast? := by
      rw [hfinish, hlast]
      exact Option.or_none
    obtain ⟨data, htail, hstatus⟩ := s.finishFrames_end
    refine ⟨data, ?_, hreason ▸ hstatus⟩
    unfold renderedFrames
    show (match emitAll InboundStream.onChunk (.responses .new) chunks with
      | (formatter, frames) => frames ++ formatter.finishFrames) = _
    rw [hwrap, List.append_assoc, ← htail]
    rfl
  obtain ⟨data, hframes, hstatus⟩ := hframes
  have hall := quiet_append hquiet hclosed
  rw [hframes]
  refine ⟨?_, ?_, fun _ => ?_⟩
  · rw [List.filterMap_append, filterMap_quiet hall, List.filterMap_cons_some hstatus]
    rfl
  · rw [List.any_append, any_quiet hall]
    rfl
  · unfold Reader.Ends
    rw [List.getLast?_append]
    rfl

/-- Of any chunks, to any client. -/
theorem rendered (target : RenderTarget) (chunks : List Value) :
    Rendered target chunks (renderedFrames target chunks) := by
  cases target with
  | responses => exact rendered_responses chunks
  | dialect d =>
    cases d with
    | openAi => exact rendered_relayed rfl chunks
    | anthropic => exact rendered_anthropic chunks
    | gemini => exact rendered_gemini chunks
    | bedrock => exact rendered_relayed rfl chunks
    | codexResponses => exact rendered_relayed rfl chunks

/-! ## When a client can tell -/

/-- What the events have to say of the end for a client to see that the answer is
none: no finish that just stops, and one that is cut short or a failure that is
passed on. Anthropic's and the Responses client see the last finish only. -/
def Tells (target : RenderTarget) (finishes : List String) (relayed : Bool) : Prop :=
  match target with
  | .dialect .anthropic | .responses => finishes.getLast? = some "length"
  | .dialect .gemini => "length" ∈ finishes ∧ ∀ f ∈ finishes, geminiFinish f ≠ "STOP"
  | .dialect .openAi | .dialect .bedrock | .dialect .codexResponses =>
    ("length" ∈ finishes ∨ relayed = true) ∧ "stop" ∉ finishes

namespace Reader

variable {target : RenderTarget} {chunks : List Value} {frames : List SseFrame}

end Reader

end RapidRouter.Providers
