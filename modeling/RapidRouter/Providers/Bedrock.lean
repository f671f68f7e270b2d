import RapidRouter.Providers.Streamed

/-!
# Bedrock, whole and in events

`Bedrock.responseToOpenAi` translates a Converse response and
`Bedrock.StreamToOpenAi` the events of a ConverseStream. They map the stop
reason each in its own way: the stream knows nothing of filtered content, and
it takes a message with tools for one that calls them. `bedrock_agrees` says for
which answers the two come to the same.
-/

namespace RapidRouter.Providers

open Json Emit RapidRouter.Core

namespace Bedrock

def usage (usage : Value) : Value :=
  .ofMembers [("prompt_tokens", usage.index "inputTokens"),
    ("completion_tokens", usage.index "outputTokens"),
    ("total_tokens", usage.index "totalTokens")]

/-! ## A whole response -/

def content (body : Value) : List Value :=
  elements (((body.index "output").index "message").index "content")

def wholeFinish (reason : Option String) : String :=
  match reason with
  | some "tool_use" => "tool_calls"
  | some "max_tokens" => "length"
  | some "content_filtered" => "content_filter"
  | _ => "stop"

/-- The texts of blocks, one after the other. -/
def textOf (blocks : List Value) : String :=
  blocks.foldl (fun text block => text ++ (block.index "text").asStr.getD "") ""

def toolCalls (blocks : List Value) : List Value :=
  blocks.filterMap fun block => (block.get? "toolUse").map fun toolUse =>
    functionCall (toolUse.index "toolUseId") (toolUse.index "name")
      (.string (printText (toolUse.index "input")))

/-- `response_to_openai`. -/
def responseToOpenAi (body : Value) (model : String) : Value :=
  openAiCompletion (.string "chatcmpl-bedrock") (.string model)
    (answerMessage (textOf (content body)) (toolCalls (content body)))
    (wholeFinish (body.index "stopReason").asStr) (usage (body.index "usage"))

/-! ## A stream -/

structure StreamToOpenAi where
  model : String
  roleSent : Bool
  /-- The tool index of each block index. -/
  toolIndices : OrdMap Nat Nat
  nextToolIndex : Nat
  finish : Option String
  sawTools : Bool

namespace StreamToOpenAi

def new (model : String) : StreamToOpenAi := ⟨model, false, .empty, 0, none, false⟩

def chunk (self : StreamToOpenAi) (delta : Value) (finish : Option String) : Value :=
  openAiChunk "chatcmpl-bedrock" self.model delta finish

def blockIndex (data : Value) : Nat := (data.index "contentBlockIndex").asU64.getD 0

def onBlockStart (self : StreamToOpenAi) (data : Value) : StreamToOpenAi × List Value :=
  match (data.index "start").get? "toolUse" with
  | some toolUse =>
    let toolIndex := self.nextToolIndex
    let self := { self with
      nextToolIndex := (self.nextToolIndex + 1) % 2 ^ 64
      sawTools := true
      toolIndices := self.toolIndices.insert (blockIndex data) toolIndex }
    (self, [self.chunk (callDelta toolIndex (toolUse.index "toolUseId") (toolUse.index "name") "")
      none])
  | none => (self, [])

def onBlockDelta (self : StreamToOpenAi) (data : Value) : List Value :=
  let delta := data.index "delta"
  match (delta.index "text").asStr with
  | some text => [self.chunk (contentDelta (.string text)) none]
  | none =>
    match ((delta.index "toolUse").index "input").asStr, self.toolIndices.get? (blockIndex data) with
    | some fragment, some toolIndex => [self.chunk (argumentsDelta toolIndex fragment) none]
    | _, _ => []

def streamFinish (reason : Option String) (sawTools : Bool) : String :=
  match reason with
  | some "tool_use" => "tool_calls"
  | some "max_tokens" => "length"
  | _ => if sawTools then "tool_calls" else "stop"

def onMetadata (self : StreamToOpenAi) (data : Value) : List Value :=
  [withUsage (self.chunk (.ofMembers []) (self.finish.or (some "stop")))
    (usage (data.index "usage"))]

/-- An event of this name, with this data. -/
def onData (self : StreamToOpenAi) (name : String) (data : Value) : StreamToOpenAi × List Value :=
  match name with
  | "messageStart" => ({ self with roleSent := true }, [self.chunk roleDelta none])
  | "contentBlockStart" => self.onBlockStart data
  | "contentBlockDelta" => (self, self.onBlockDelta data)
  | "messageStop" =>
    ({ self with finish := some (streamFinish (data.index "stopReason").asStr self.sawTools) }, [])
  | "metadata" => (self, self.onMetadata data)
  -- an exception is only noted
  | _ => (self, [])

def onEvent (self : StreamToOpenAi) (event : SseEvent) : StreamToOpenAi × List Value :=
  match fromSlice event.data with
  | some data => self.onData ((event.event.bind fromUtf8?).getD "") data
  | none => (self, [])

end StreamToOpenAi

/-! ## A stream that delivers a response -/

/-- What an event says of the answer. -/
inductive Said where
  | messageStart
  | toolStart (index : Nat) (id name : Value)
  | text (text : String)
  | input (index : Nat) (fragment : String)
  | stop (reason : Option String)
  | metadata (usage : Value)

def saidData (name : String) (data : Value) : Option Said :=
  match name with
  | "messageStart" => some .messageStart
  | "contentBlockStart" => ((data.index "start").get? "toolUse").map fun toolUse =>
      .toolStart (StreamToOpenAi.blockIndex data) (toolUse.index "toolUseId") (toolUse.index "name")
  | "contentBlockDelta" =>
    match ((data.index "delta").index "text").asStr with
    | some text => some (.text text)
    | none => (((data.index "delta").index "toolUse").index "input").asStr.map
        (.input (StreamToOpenAi.blockIndex data))
  | "messageStop" => some (.stop (data.index "stopReason").asStr)
  | "metadata" => some (.metadata (data.index "usage"))
  | _ => none

def said (event : SseEvent) : Option Said :=
  (fromSlice event.data).bind (saidData ((event.event.bind fromUtf8?).getD ""))

/-- The events of one block, all under one index. -/
inductive BlockSaid : Streamed → List Said → Prop where
  | text (pieces : List String) : BlockSaid (.text pieces) (pieces.map .text)
  | tool (t : Tool) (index : Nat) : BlockSaid (.tool t)
      (.toolStart index (.string t.id) (.string t.name) :: t.pieces.map (.input index))
  | other : BlockSaid .other []

/-- A block of the whole response. -/
inductive IsBlock : Streamed → Value → Prop where
  | text {pieces : List String} {block : Value}
      (htext : block.index "text" = .string (String.join pieces))
      (htool : block.get? "toolUse" = none) : IsBlock (.text pieces) block
  | tool {t : Tool} {block toolUse : Value} (htext : (block.index "text").asStr = none)
      (htool : block.get? "toolUse" = some toolUse) (hid : toolUse.index "toolUseId" = .string t.id)
      (hname : toolUse.index "name" = .string t.name) (hinput : toolUse.index "input" = t.input) :
      IsBlock (.tool t) block
  | other {block : Value} (htext : (block.index "text").asStr = none)
      (htool : block.get? "toolUse" = none) : IsBlock .other block

/-- Events that deliver a response: its blocks one after the other, its stop reason
and its usage. Events that say nothing of the answer may be anywhere. -/
structure Delivers (blocks : List Streamed) (body : Value) (events : List SseEvent) : Prop where
  tools : ∀ t ∈ Streamed.tools blocks, t.WF
  content : List.Forall₂ IsBlock blocks (content body)
  events : ∃ runs, List.Forall₂ BlockSaid blocks runs ∧
    events.filterMap said = .messageStart :: (runs.flatten ++
      [.stop (body.index "stopReason").asStr, .metadata (body.index "usage")])

/-! ## Event by event -/

namespace StreamToOpenAi

/-- What the translator does with what an event says. -/
def step (self : StreamToOpenAi) : Said → StreamToOpenAi × List Value
  | .messageStart => ({ self with roleSent := true }, [self.chunk roleDelta none])
  | .toolStart index id name =>
    ({ self with
        nextToolIndex := (self.nextToolIndex + 1) % 2 ^ 64
        sawTools := true
        toolIndices := self.toolIndices.insert index self.nextToolIndex },
      [self.chunk (callDelta self.nextToolIndex id name "") none])
  | .text text => (self, [self.chunk (contentDelta (.string text)) none])
  | .input index fragment =>
    (self, (self.toolIndices.get? index).toList.map fun toolIndex =>
      self.chunk (argumentsDelta toolIndex fragment) none)
  | .stop reason => ({ self with finish := some (streamFinish reason self.sawTools) }, [])
  | .metadata u =>
    (self, [withUsage (self.chunk (.ofMembers []) (self.finish.or (some "stop"))) (usage u)])

theorem step_input (self : StreamToOpenAi) (index : Nat) (fragment : String) :
    self.step (.input index fragment) = (self, (self.toolIndices.get? index).toList.map
      fun toolIndex => self.chunk (argumentsDelta toolIndex fragment) none) := rfl

theorem onBlockStart_said (self : StreamToOpenAi) (data : Value) :
    self.onBlockStart data =
      (saidData "contentBlockStart" data).elim (self, []) self.step := by
  unfold onBlockStart
  show _ = (((data.index "start").get? "toolUse").map _).elim (self, []) self.step
  cases (data.index "start").get? "toolUse" <;> rfl

theorem onBlockDelta_said (self : StreamToOpenAi) (data : Value) :
    (self, self.onBlockDelta data) =
      (saidData "contentBlockDelta" data).elim (self, []) self.step := by
  unfold onBlockDelta saidData
  dsimp only
  cases ((data.index "delta").index "text").asStr with
  | some text => rfl
  | none =>
    cases (((data.index "delta").index "toolUse").index "input").asStr with
    | none => rfl
    | some fragment =>
      show _ = self.step (.input (blockIndex data) fragment)
      rw [step_input]
      cases self.toolIndices.get? (blockIndex data) <;> rfl

theorem onData_said (self : StreamToOpenAi) (name : String) (data : Value) :
    self.onData name data = (saidData name data).elim (self, []) self.step := by
  unfold onData
  split
  · rfl
  · exact self.onBlockStart_said data
  · exact self.onBlockDelta_said data
  · rfl
  · rfl
  · rename_i h₁ h₂ h₃ h₄ h₅
    have hnone : saidData name data = none := by
      unfold saidData
      split
      · exact absurd rfl h₁
      · exact absurd rfl h₂
      · exact absurd rfl h₃
      · exact absurd rfl h₄
      · exact absurd rfl h₅
      · rfl
    rw [hnone]
    rfl

theorem onEvents_said (self : StreamToOpenAi) (events : List SseEvent) :
    emitAll onEvent self events = emitAll step self (events.filterMap said) :=
  emitAll_said onData_said self events

/-- Steps that carry these deltas, from where the next call has index `n`. -/
structure Ran (s s' : StreamToOpenAi) (n tools : Nat) (chunks : List Value) (deltas : List Delta) :
    Prop where
  carries : Carries chunks deltas
  next : s'.nextToolIndex = (n + tools) % 2 ^ 64
  saw : s'.sawTools = (s.sawTools || decide (0 < tools))
  finish : s'.finish = s.finish

theorem texts_ran {s : StreamToOpenAi} {n : Nat} (hn : s.nextToolIndex = n % 2 ^ 64)
    (pieces : List String) :
    Ran s (emitAll step s (pieces.map .text)).1 n 0 (emitAll step s (pieces.map .text)).2
      (pieces.map .content) := by
  induction pieces with
  | nil => exact ⟨.nil, hn, (Bool.or_false _).symm, rfl⟩
  | cons piece pieces ih =>
    obtain ⟨hcarries, hnext, hsaw, hfinish⟩ := ih
    exact ⟨(carries_one "chatcmpl-bedrock" s.model (.content piece)).append hcarries, hnext, hsaw,
      hfinish⟩

theorem inputs_ran {s : StreamToOpenAi} {index n : Nat}
    (hindex : s.toolIndices.get? index = some (n % 2 ^ 64)) (pieces : List String) :
    (emitAll step s (pieces.map (.input index))).1 = s ∧
      Carries (emitAll step s (pieces.map (.input index))).2 (pieces.map (.arguments n)) := by
  induction pieces with
  | nil => exact ⟨rfl, .nil⟩
  | cons piece pieces ih =>
    have hstep : s.step (.input index piece) =
        (s, [s.chunk (argumentsDelta (n % 2 ^ 64) piece) none]) := by
      rw [step_input, hindex]
      rfl
    show (emitAll step (s.step (.input index piece)).1 _).1 = s ∧ Carries
      ((s.step (.input index piece)).2 ++ (emitAll step (s.step (.input index piece)).1 _).2) _
    rw [hstep, argumentsDelta_mod]
    exact ⟨ih.1, (carries_one "chatcmpl-bedrock" s.model (.arguments n piece)).append ih.2⟩

theorem block_ran {s : StreamToOpenAi} {n : Nat} (hn : s.nextToolIndex = n % 2 ^ 64)
    {block : Streamed} {run : List Said} (h : BlockSaid block run) :
    Ran s (emitAll step s run).1 n (Streamed.tools [block]).length (emitAll step s run).2
      (Streamed.blockDeltas n block) := by
  cases h with
  | text pieces => exact texts_ran hn pieces
  | other => exact ⟨.nil, hn, (Bool.or_false _).symm, rfl⟩
  | tool t index =>
    obtain ⟨s₁, hs₁⟩ : ∃ s₁, s₁ = (s.step (.toolStart index (.string t.id) (.string t.name))).1 :=
      ⟨_, rfl⟩
    have hindex : s₁.toolIndices.get? index = some (n % 2 ^ 64) := by
      rw [hs₁, ← hn]
      exact OrdMap.get?_insert_self ..
    obtain ⟨hlast, hinputs⟩ := inputs_ran hindex t.pieces
    have hstart : Carries (s.step (.toolStart index (.string t.id) (.string t.name))).2
        [.call n (.string t.id) (.string t.name) ""] := by
      show Carries [s.chunk (callDelta s.nextToolIndex _ _ "") none] _
      rw [hn, callDelta_mod]
      exact carries_one "chatcmpl-bedrock" s.model (.call n (.string t.id) (.string t.name) "")
    have hrun : (emitAll step s (.toolStart index (.string t.id) (.string t.name) ::
        t.pieces.map (.input index))).1 = s₁ := by
      show (emitAll step (s.step (.toolStart index (.string t.id) (.string t.name))).1 _).1 = s₁
      rw [← hs₁]
      exact hlast
    rw [hrun]
    refine ⟨hstart.append (hs₁ ▸ hinputs), ?_, ?_, ?_⟩
    · rw [hs₁]
      show (s.nextToolIndex + 1) % 2 ^ 64 = (n + 1) % 2 ^ 64
      rw [hn, Nat.mod_add_mod]
    · rw [hs₁]
      exact (Bool.or_true _).symm
    · rw [hs₁]
      rfl

/-- The blocks of a message, one after the other. -/
theorem blocks_ran {blocks : List Streamed} {runs : List (List Said)}
    (h : List.Forall₂ BlockSaid blocks runs) {s : StreamToOpenAi} {n : Nat}
    (hn : s.nextToolIndex = n % 2 ^ 64) :
    Ran s (emitAll step s runs.flatten).1 n (Streamed.tools blocks).length
      (emitAll step s runs.flatten).2 (Streamed.deltas n blocks) := by
  induction h generalizing s n with
  | nil => exact ⟨.nil, hn, (Bool.or_false _).symm, rfl⟩
  | cons hblock htail ih =>
    rename_i block run blocks runs
    obtain ⟨hcarries, hnext, hsaw, hfinish⟩ := block_ran hn hblock
    obtain ⟨hcarries', hnext', hsaw', hfinish'⟩ := ih hnext
    rw [List.flatten_cons, emitAll_append, Streamed.tools_cons block, List.length_append]
    refine ⟨hcarries.append hcarries', ?_, ?_, hfinish'.trans hfinish⟩
    · rw [hnext', Nat.add_assoc]
    · rw [hsaw', hsaw, Bool.or_assoc, ← Bool.decide_or]
      congr 2
      rw [eq_iff_iff]
      omega

/-- What a whole stream is reassembled to. -/
theorem stream_assembled (model : String) {blocks : List Streamed} {body : Value}
    {events : List SseEvent} (h : Delivers blocks body events)
    (hlength : (Streamed.tools blocks).length ≤ 2 ^ 64) :
    ((emitAll onEvent (new model) events).2.foldl Aggregate.onChunk .init).toAssembled =
      { content := Streamed.texts blocks
        calls := (Streamed.tools blocks).map Tool.streamed
        finish := streamFinish (body.index "stopReason").asStr
          (decide (0 < (Streamed.tools blocks).length))
        usage := some (usage (body.index "usage")) } := by
  obtain ⟨runs, hruns, hevents⟩ := h.events
  obtain ⟨reason, hreason⟩ : ∃ reason, reason = (body.index "stopReason").asStr := ⟨_, rfl⟩
  rw [onEvents_said, hevents, ← hreason]
  have hran := blocks_ran hruns (s := { new model with roleSent := true }) (n := 0) rfl
  obtain ⟨run, hrun⟩ : ∃ run, run = emitAll step { new model with roleSent := true } runs.flatten :=
    ⟨_, rfl⟩
  rw [← hrun] at hran
  obtain ⟨hcarries, -, hsaw, -⟩ := hran
  have hall : (emitAll step (new model) (.messageStart :: (runs.flatten ++
      [.stop reason, .metadata (body.index "usage")]))).2 =
      [Delta.chunk "chatcmpl-bedrock" model .role] ++ (run.2 ++
        [Delta.chunk "chatcmpl-bedrock" run.1.model
          (.finish (streamFinish reason run.1.sawTools) (usage (body.index "usage")))]) := by
    show [Delta.chunk "chatcmpl-bedrock" model .role] ++
      (emitAll step { new model with roleSent := true } (runs.flatten ++ _)).2 = _
    rw [emitAll_append, ← hrun]
    rfl
  have hdeltas := (carries_one "chatcmpl-bedrock" model .role).append
    (hcarries.append (carries_one "chatcmpl-bedrock" run.1.model
      (.finish (streamFinish reason run.1.sawTools) (usage (body.index "usage")))))
  rw [hall, hdeltas.foldl, Streamed.fold_message hlength _ rfl, hsaw]
  rfl

end StreamToOpenAi

/-! ## The whole response, and the two compared -/

theorem textOf_cons (block : Value) (blocks : List Value) :
    textOf (block :: blocks) = (block.index "text").asStr.getD "" ++ textOf blocks := by
  have hjoin (blocks : List Value) :
      textOf blocks = String.join (blocks.map fun block => (block.index "text").asStr.getD "") := by
    rw [String.join_eq_foldl, List.foldl_map]
    rfl
  rw [hjoin, hjoin, List.map_cons, String.join_cons]

theorem whole_blocks {blocks : List Streamed} {content : List Value}
    (h : List.Forall₂ IsBlock blocks content) :
    textOf content = Streamed.texts blocks ∧
      toolCalls content = (Streamed.tools blocks).map Tool.value := by
  induction h with
  | nil => exact ⟨rfl, rfl⟩
  | cons hblock htail ih =>
    rename_i streamed block blocks content
    obtain ⟨htexts, hcalls⟩ := ih
    rw [textOf_cons, htexts]
    unfold toolCalls at *
    rw [List.filterMap_cons]
    cases hblock with
    | text htext htool =>
      rw [htext, htool, Streamed.texts_text]
      exact ⟨rfl, hcalls⟩
    | other htext htool =>
      rw [htext, htool, Streamed.texts_other]
      exact ⟨String.empty_append, hcalls⟩
    | tool htext htool hid hname hinput =>
      rename_i t toolUse
      rw [htext, htool, Streamed.texts_tool, Option.map_some, hcalls, hid, hname, hinput]
      exact ⟨String.empty_append, rfl⟩

/-- The two ways to map a stop reason agree on it. -/
def FinishAgrees (reason : Option String) (tools : List Tool) : Prop :=
  reason = some "tool_use" ∨ reason = some "max_tokens" ∨
    (tools = [] ∧ reason ≠ some "content_filtered")

theorem streamFinish_other {reason : Option String} (htool : reason ≠ some "tool_use")
    (hlength : reason ≠ some "max_tokens") (sawTools : Bool) :
    StreamToOpenAi.streamFinish reason sawTools = if sawTools then "tool_calls" else "stop" := by
  unfold StreamToOpenAi.streamFinish
  split
  · exact absurd rfl htool
  · exact absurd rfl hlength
  · rfl

theorem wholeFinish_other {reason : Option String} (htool : reason ≠ some "tool_use")
    (hlength : reason ≠ some "max_tokens") :
    wholeFinish reason = if reason = some "content_filtered" then "content_filter" else "stop" := by
  unfold wholeFinish
  split
  · exact absurd rfl htool
  · exact absurd rfl hlength
  · rfl
  · rename_i hfiltered
    rw [if_neg hfiltered]

theorem finishAgrees_iff (reason : Option String) (tools : List Tool) :
    StreamToOpenAi.streamFinish reason (decide (0 < tools.length)) = wholeFinish reason ↔
      FinishAgrees reason tools := by
  by_cases htool : reason = some "tool_use"
  · rw [htool]
    exact ⟨fun _ => Or.inl rfl, fun _ => rfl⟩
  by_cases hlength : reason = some "max_tokens"
  · rw [hlength]
    exact ⟨fun _ => Or.inr (Or.inl rfl), fun _ => rfl⟩
  -- neither knows the reason but the whole answer, when content was filtered
  rw [streamFinish_other htool hlength, wholeFinish_other htool hlength]
  unfold FinishAgrees
  cases tools with
  | nil => by_cases hfiltered : reason = some "content_filtered" <;> simp [htool, hlength, hfiltered]
  | cons t tools =>
    by_cases hfiltered : reason = some "content_filtered" <;> simp [htool, hlength, hfiltered]

end Bedrock

open Bedrock

/-- A stream is reassembled to the whole response's translation exactly when no tool's
input is streamed as the empty text, the stop reason is one that both map alike,
and the calls can be numbered. -/
theorem bedrock_agrees (model : String) {blocks : List Streamed} {body : Value}
    {events : List SseEvent} (h : Delivers blocks body events) :
    (answer (aggregateChunks
        (emitAll StreamToOpenAi.onEvent (.new model) events).2)).Same
        (answer (responseToOpenAi body model)) ↔
      (∀ t ∈ Streamed.tools blocks, t.text ≠ "") ∧
        FinishAgrees (body.index "stopReason").asStr (Streamed.tools blocks) ∧
        (Streamed.tools blocks).length ≤ 2 ^ 64 := by
  obtain ⟨htexts, hcalls⟩ := whole_blocks h.content
  unfold aggregateChunks responseToOpenAi
  rw [htexts, hcalls]
  by_cases hlength : (Streamed.tools blocks).length ≤ 2 ^ 64
  · rw [Streamed.same_iff (StreamToOpenAi.stream_assembled model h hlength) h.tools,
      finishAgrees_iff]
    constructor
    · rintro ⟨-, htools, hfinish, -⟩
      exact ⟨htools, hfinish, hlength⟩
    · rintro ⟨htools, hfinish, -⟩
      exact ⟨rfl, htools, hfinish, rfl⟩
  · constructor
    · intro hsame
      refine absurd hsame (Streamed.not_same_of_lt ?_ (by omega) _ _ _ _ _)
      exact Aggregate.foldl_length _ (Nat.zero_le _)
    · rintro ⟨-, -, hle⟩
      exact absurd hle hlength

namespace Bedrock

def textBlock : Value := .ofMembers [("text", .string "a")]

/-- A response of one text. -/
def response (reason : String) : Value :=
  .ofMembers [("output", .ofMembers [("message", .ofMembers [("content", .array [textBlock])])]),
    ("stopReason", .string reason), ("usage", .ofMembers [])]

def responseEvents (reason : String) : List SseEvent :=
  [sseEvent "messageStart" (.ofMembers []),
    sseEvent "contentBlockDelta" (.ofMembers [("delta", textBlock)]),
    sseEvent "messageStop" (.ofMembers [("stopReason", .string reason)]),
    sseEvent "metadata" (.ofMembers [("usage", .ofMembers [])])]

theorem response_reads (reason : String) : content (response reason) = [textBlock] ∧
    (response reason).index "stopReason" = .string reason ∧
    (response reason).index "usage" = .ofMembers [] := by
  refine ⟨?_, ?_, ?_⟩ <;>
    simp [content, response, Value.index_ofMembers, elements, Value.asArray]

theorem delivers_response {reason : String} (h : (responseEvents reason).filterMap said =
      [.messageStart, .text "a", .stop (some reason), .metadata (.ofMembers [])]) :
    Delivers [.text ["a"]] (response reason) (responseEvents reason) where
  tools := nofun
  content := by
    rw [(response_reads reason).1]
    exact .cons (.text rfl rfl) .nil
  events := by
    refine ⟨[["a"].map .text], .cons (.text ["a"]) .nil, ?_⟩
    rw [h, (response_reads reason).2.1, (response_reads reason).2.2]
    rfl

end Bedrock

theorem bedrock_agrees_text :
    (answer (aggregateChunks
        (emitAll StreamToOpenAi.onEvent (.new "m") (responseEvents "end_turn")).2)).Same
      (answer (responseToOpenAi (response "end_turn") "m")) :=
  (bedrock_agrees "m" (delivers_response rfl)).mpr
    ⟨nofun, Or.inr (Or.inr ⟨rfl, by decide⟩), by decide⟩

/-- Of filtered content the stream says that it stopped. -/
theorem bedrock_agrees_filtered :
    Delivers [.text ["a"]] (response "content_filtered") (responseEvents "content_filtered") ∧
      ¬ (answer (aggregateChunks
          (emitAll StreamToOpenAi.onEvent (.new "m") (responseEvents "content_filtered")).2)).Same
        (answer (responseToOpenAi (response "content_filtered") "m")) := by
  refine ⟨delivers_response rfl, ?_⟩
  rintro ⟨-, -, hfinish, -⟩
  have hfinish := congrArg Value.asStr hfinish
  revert hfinish
  decide

end RapidRouter.Providers
