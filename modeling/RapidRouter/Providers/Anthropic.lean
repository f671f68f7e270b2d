import RapidRouter.Providers.Streamed

/-!
# Anthropic, whole and in events

`Anthropic.responseToOpenAi` translates a whole message and
`Anthropic.StreamToOpenAi` the events that deliver one. Both take the input of
the tool that stands for a JSON schema for text, when there is one; the first
prints a tool's input, the second passes its text on as it comes.
`anthropic_agrees` says for which messages the two come to the same.
-/

namespace RapidRouter.Providers

open Json Emit RapidRouter.Core

namespace Anthropic

/-- `JSON_SCHEMA_TOOL`. -/
def jsonSchemaTool : String := "__rapid_json_output"

/-- The finish of a message; one that stands for a JSON schema just stops. -/
def finishReason (reason : Option String) (emulated : Bool) : String :=
  if emulated then "stop"
  else
    match reason with
    | some "tool_use" => "tool_calls"
    | some "max_tokens" => "length"
    | _ => "stop"

/-! ## A whole message -/

/-- One content block: text is added to what there is, and so is a tool's call. -/
def onBlock (emulated : Bool) (acc : String × List Value) (block : Value) : String × List Value :=
  match (block.index "type").asStr with
  | some "text" => (acc.1 ++ (block.index "text").asStr.getD "", acc.2)
  | some "tool_use" =>
    let name := (block.index "name").asStr.getD ""
    let arguments := printText (block.index "input")
    if emulated && name == jsonSchemaTool then (acc.1 ++ arguments, acc.2)
    else (acc.1, acc.2 ++ [functionCall (block.index "id") (.string name) (.string arguments)])
  | _ => acc

/-- `response_to_openai`. -/
def responseToOpenAi (body : Value) (emulated : Bool) : Value :=
  let (text, toolCalls) := (elements (body.index "content")).foldl (onBlock emulated) ("", [])
  let usage := body.index "usage"
  openAiCompletion (body.index "id") (body.index "model") (answerMessage text toolCalls)
    (finishReason (body.index "stop_reason").asStr emulated)
    (.ofMembers [("prompt_tokens", usage.index "input_tokens"),
      ("completion_tokens", usage.index "output_tokens"),
      ("total_tokens", .ofU64 ((usage.index "input_tokens").asU64.getD 0 +
        (usage.index "output_tokens").asU64.getD 0))])

/-! ## A stream -/

structure StreamToOpenAi where
  id : String
  model : String
  /-- The tool index of each block index. -/
  toolIndices : OrdMap Nat Nat
  nextToolIndex : Nat
  roleSent : Bool
  inputTokens : Nat
  finish : Option String
  emulated : Bool

namespace StreamToOpenAi

def new (emulated : Bool) : StreamToOpenAi := ⟨"", "", .empty, 0, false, 0, none, emulated⟩

def chunk (self : StreamToOpenAi) (delta : Value) (finish : Option String) : Value :=
  openAiChunk self.id self.model delta finish

def emulatedTool (self : StreamToOpenAi) (block : Value) : Bool :=
  self.emulated && (block.index "name").asStr == some jsonSchemaTool

def blockIndex (data : Value) : Nat := (data.index "index").asU64.getD 0

def onMessageStart (self : StreamToOpenAi) (data : Value) : StreamToOpenAi × List Value :=
  let message := data.index "message"
  let self := { self with
    id := (message.index "id").asStr.getD "msg"
    model := (message.index "model").asStr.getD ""
    inputTokens := ((message.index "usage").index "input_tokens").asU64.getD 0
    roleSent := true }
  (self, [self.chunk roleDelta none])

def onBlockStart (self : StreamToOpenAi) (data : Value) : StreamToOpenAi × List Value :=
  let block := data.index "content_block"
  if (block.index "type").asStr = some "tool_use" ∧ self.emulatedTool block = false then
    let toolIndex := self.nextToolIndex
    let self := { self with
      toolIndices := self.toolIndices.insert (blockIndex data) toolIndex
      nextToolIndex := (toolIndex + 1) % 2 ^ 64 }
    (self, [self.chunk (callDelta toolIndex (block.index "id") (block.index "name") "") none])
  else (self, [])

def onInput (self : StreamToOpenAi) (index : Nat) (fragment : String) : List Value :=
  match self.toolIndices.get? index with
  | some toolIndex => [self.chunk (argumentsDelta toolIndex fragment) none]
  -- the input that stands for a JSON schema streams as content
  | none => if self.emulated then [self.chunk (contentDelta (.string fragment)) none] else []

def onBlockDelta (self : StreamToOpenAi) (data : Value) : List Value :=
  let delta := data.index "delta"
  match (delta.index "type").asStr with
  | some "text_delta" => [self.chunk (contentDelta (delta.index "text")) none]
  | some "input_json_delta" =>
    self.onInput (blockIndex data) ((delta.index "partial_json").asStr.getD "")
  | _ => []

def onMessageDelta (self : StreamToOpenAi) (reason : Option String) (output : Nat) :
    StreamToOpenAi × List Value :=
  let self := { self with finish := some (finishReason reason self.emulated) }
  (self, [withUsage (self.chunk (.ofMembers []) self.finish)
    (.ofMembers [("prompt_tokens", .ofU64 self.inputTokens), ("completion_tokens", .ofU64 output),
      ("total_tokens", .ofU64 (self.inputTokens + output))])])

/-- An event of this kind, with this data. -/
def onData (self : StreamToOpenAi) (kind : String) (data : Value) : StreamToOpenAi × List Value :=
  match kind with
  | "message_start" => self.onMessageStart data
  | "content_block_start" => self.onBlockStart data
  | "content_block_delta" => (self, self.onBlockDelta data)
  | "message_delta" => self.onMessageDelta ((data.index "delta").index "stop_reason").asStr
      (((data.index "usage").index "output_tokens").asU64.getD 0)
  -- ping, message_stop, content_block_stop
  | _ => (self, [])

/-- The event's name, or the type its data gives. -/
def kindOf (event : SseEvent) (data : Value) : String :=
  (((event.event.map fun name => (fromUtf8? name).getD "")).or (data.index "type").asStr).getD ""

def onEvent (self : StreamToOpenAi) (event : SseEvent) : StreamToOpenAi × List Value :=
  match fromSlice event.data with
  | some data => self.onData (kindOf event data) data
  | none => (self, [])

end StreamToOpenAi

/-! ## A stream that delivers a message -/

/-- What an event says of the answer. -/
inductive Said where
  | messageStart (id model : String) (input : Nat)
  | toolStart (index : Nat) (id name : Value)
  | text (text : Value)
  | input (index : Nat) (fragment : String)
  | messageDelta (reason : Option String) (output : Nat)

def saidStart (data : Value) : Option Said :=
  let block := data.index "content_block"
  if (block.index "type").asStr = some "tool_use" then
    some (.toolStart (StreamToOpenAi.blockIndex data) (block.index "id") (block.index "name"))
  else none

def saidDelta (data : Value) : Option Said :=
  let delta := data.index "delta"
  match (delta.index "type").asStr with
  | some "text_delta" => some (.text (delta.index "text"))
  | some "input_json_delta" => some (.input (StreamToOpenAi.blockIndex data)
      ((delta.index "partial_json").asStr.getD ""))
  | _ => none

def saidData (kind : String) (data : Value) : Option Said :=
  match kind with
  | "message_start" =>
    let message := data.index "message"
    some (.messageStart ((message.index "id").asStr.getD "msg")
      ((message.index "model").asStr.getD "")
      (((message.index "usage").index "input_tokens").asU64.getD 0))
  | "content_block_start" => saidStart data
  | "content_block_delta" => saidDelta data
  | "message_delta" => some (.messageDelta ((data.index "delta").index "stop_reason").asStr
      (((data.index "usage").index "output_tokens").asU64.getD 0))
  | _ => none

def said (event : SseEvent) : Option Said :=
  (fromSlice event.data).bind fun data => saidData (StreamToOpenAi.kindOf event data) data

/-- The events of the block with this index. -/
inductive BlockSaid (index : Nat) : Streamed → List Said → Prop where
  | text (pieces : List String) :
      BlockSaid index (.text pieces) (pieces.map fun piece => .text (.string piece))
  | tool (t : Tool) : BlockSaid index (.tool t)
      (.toolStart index (.string t.id) (.string t.name) :: t.pieces.map (.input index))
  | other : BlockSaid index .other []

/-- A block of the whole message; one that thinks is neither a text nor a tool's. -/
inductive IsBlock : Streamed → Value → Prop where
  | text {pieces : List String} {block : Value} (htype : block.index "type" = .string "text")
      (htext : block.index "text" = .string (String.join pieces)) : IsBlock (.text pieces) block
  | tool {t : Tool} {block : Value} (htype : block.index "type" = .string "tool_use")
      (hid : block.index "id" = .string t.id) (hname : block.index "name" = .string t.name)
      (hinput : block.index "input" = t.input) : IsBlock (.tool t) block
  | other {block : Value} (htext : (block.index "type").asStr ≠ some "text")
      (htool : (block.index "type").asStr ≠ some "tool_use") : IsBlock .other block

/-- The blocks from this index on, one after the other. -/
inductive BlocksSaid : Nat → List Streamed → List Said → Prop where
  | nil (index : Nat) : BlocksSaid index [] []
  | cons {index : Nat} {block : Streamed} {blocks : List Streamed} {run rest : List Said}
      (hblock : BlockSaid index block run) (hrest : BlocksSaid (index + 1) blocks rest) :
      BlocksSaid index (block :: blocks) (run ++ rest)

/-- Events that deliver a message: its blocks one after the other, between the start,
with the tokens that went in, and the end, with the stop reason and the tokens
that came out. Events that say nothing of the answer may be anywhere. -/
structure Delivers (blocks : List Streamed) (body : Value) (events : List SseEvent) : Prop where
  tools : ∀ t ∈ Streamed.tools blocks, t.WF
  content : List.Forall₂ IsBlock blocks (elements (body.index "content"))
  events : ∃ run id model input output, BlocksSaid 0 blocks run ∧
    ((body.index "usage").index "input_tokens").asU64 = some input ∧
    ((body.index "usage").index "output_tokens").asU64 = some output ∧
    events.filterMap said = .messageStart id model input :: (run ++
      [.messageDelta (body.index "stop_reason").asStr output])

/-! ## Event by event -/

namespace StreamToOpenAi

/-- What the translator does with what an event says. -/
def step (self : StreamToOpenAi) : Said → StreamToOpenAi × List Value
  | .messageStart id model input =>
    ({ self with id := id, model := model, inputTokens := input, roleSent := true },
      [openAiChunk id model roleDelta none])
  | .toolStart index id name =>
    if self.emulated && name.asStr == some jsonSchemaTool then (self, [])
    else
      ({ self with
          toolIndices := self.toolIndices.insert index self.nextToolIndex
          nextToolIndex := (self.nextToolIndex + 1) % 2 ^ 64 },
        [self.chunk (callDelta self.nextToolIndex id name "") none])
  | .text text => (self, [self.chunk (contentDelta text) none])
  | .input index fragment => (self, self.onInput index fragment)
  | .messageDelta reason output => self.onMessageDelta reason output

theorem onBlockStart_said (self : StreamToOpenAi) (data : Value) :
    self.onBlockStart data = (saidStart data).elim (self, []) self.step := by
  unfold onBlockStart saidStart
  by_cases htool : ((data.index "content_block").index "type").asStr = some "tool_use"
  · rw [if_pos htool]
    show _ = if self.emulatedTool (data.index "content_block") = true then _ else _
    cases hemulated : self.emulatedTool (data.index "content_block") with
    | true =>
      rw [if_pos rfl]
      exact if_neg fun h => absurd (h.2.symm.trans hemulated) Bool.false_ne_true
    | false =>
      rw [if_neg Bool.false_ne_true]
      exact if_pos ⟨htool, hemulated⟩
  · rw [if_neg htool]
    exact if_neg fun h => htool h.1

theorem onBlockDelta_said (self : StreamToOpenAi) (data : Value) :
    (self, self.onBlockDelta data) = (saidDelta data).elim (self, []) self.step := by
  unfold onBlockDelta saidDelta
  dsimp only
  split
  · rfl
  · rfl
  · rfl

theorem onData_said (self : StreamToOpenAi) (kind : String) (data : Value) :
    self.onData kind data = (saidData kind data).elim (self, []) self.step := by
  unfold onData
  split
  · rfl
  · exact self.onBlockStart_said data
  · exact self.onBlockDelta_said data
  · rfl
  · rename_i h₁ h₂ h₃ h₄
    have hnone : saidData kind data = none := by
      unfold saidData
      split
      · exact absurd rfl h₁
      · exact absurd rfl h₂
      · exact absurd rfl h₃
      · exact absurd rfl h₄
      · rfl
    rw [hnone]
    rfl

theorem onEvents_said (self : StreamToOpenAi) (events : List SseEvent) :
    emitAll onEvent self events = emitAll step self (events.filterMap said) :=
  emitAll_said onData_said self events

end StreamToOpenAi

/-- How the stream takes a block: the tool that stands for a JSON schema for text. -/
def seen (emulated : Bool) : Streamed → Streamed
  | .tool t => if emulated && t.name == jsonSchemaTool then .text t.pieces else .tool t
  | block => block

theorem seen_schema {emulated : Bool} {t : Tool}
    (h : (emulated && t.name == jsonSchemaTool) = true) : seen emulated (.tool t) = .text t.pieces :=
  if_pos h

theorem seen_tool {emulated : Bool} {t : Tool}
    (h : ¬ (emulated && t.name == jsonSchemaTool) = true) : seen emulated (.tool t) = .tool t :=
  if_neg h

namespace StreamToOpenAi

/-- Steps that carry these deltas, from before the block with index `index`, where
the next call has index `n`, to before the block with index `index'`. -/
structure Ran (s s' : StreamToOpenAi) (n tools index' : Nat) (chunks : List Value)
    (deltas : List Delta) : Prop where
  carries : Carries chunks deltas
  next : s'.nextToolIndex = (n + tools) % 2 ^ 64
  fresh : ∀ i, index' ≤ i → s'.toolIndices.get? i = none
  input : s'.inputTokens = s.inputTokens
  emulated : s'.emulated = s.emulated

theorem texts_carry (s : StreamToOpenAi) (pieces : List String) :
    (emitAll step s (pieces.map fun piece => .text (.string piece))).1 = s ∧
      Carries (emitAll step s (pieces.map fun piece => .text (.string piece))).2
        (pieces.map .content) := by
  induction pieces with
  | nil => exact ⟨rfl, .nil⟩
  | cons piece pieces ih =>
    exact ⟨ih.1, (carries_one s.id s.model (.content piece)).append ih.2⟩

/-- Pieces of an input, each of which is passed on as a delta. -/
theorem inputs_carry {s : StreamToOpenAi} {index : Nat} {d : String → Delta}
    (h : ∀ piece, s.onInput index piece = [(d piece).chunk s.id s.model]) (pieces : List String) :
    (emitAll step s (pieces.map (.input index))).1 = s ∧
      Carries (emitAll step s (pieces.map (.input index))).2 (pieces.map d) := by
  induction pieces with
  | nil => exact ⟨rfl, .nil⟩
  | cons piece pieces ih =>
    refine ⟨ih.1, ?_⟩
    show Carries (s.onInput index piece ++ _) _
    rw [h piece]
    exact (carries_one s.id s.model (d piece)).append ih.2

theorem block_ran {s : StreamToOpenAi} {index n : Nat} (hn : s.nextToolIndex = n % 2 ^ 64)
    (hfresh : ∀ i, index ≤ i → s.toolIndices.get? i = none) {block : Streamed} {run : List Said}
    (h : BlockSaid index block run) :
    Ran s (emitAll step s run).1 n (Streamed.tools [seen s.emulated block]).length (index + 1)
      (emitAll step s run).2 (Streamed.blockDeltas n (seen s.emulated block)) := by
  have hlater : ∀ i, index + 1 ≤ i → s.toolIndices.get? i = none := fun i hi =>
    hfresh i (by omega)
  cases h with
  | text pieces =>
    obtain ⟨hsame, hcarries⟩ := texts_carry s pieces
    rw [hsame]
    exact ⟨hcarries, hn, hlater, rfl, rfl⟩
  | other => exact ⟨.nil, hn, hlater, rfl, rfl⟩
  | tool t =>
    have hstart : emitAll step s (.toolStart index (.string t.id) (.string t.name) ::
        t.pieces.map (.input index)) =
      ((emitAll step (s.step (.toolStart index (.string t.id) (.string t.name))).1
          (t.pieces.map (.input index))).1,
        (s.step (.toolStart index (.string t.id) (.string t.name))).2 ++
          (emitAll step (s.step (.toolStart index (.string t.id) (.string t.name))).1
            (t.pieces.map (.input index))).2) := rfl
    rw [hstart]
    by_cases hschema : (s.emulated && t.name == jsonSchemaTool) = true
    · have hstep : s.step (.toolStart index (.string t.id) (.string t.name)) = (s, []) :=
        if_pos hschema
      obtain ⟨hsame, hcarries⟩ := @inputs_carry s index .content
        (fun piece => by
          unfold onInput
          rw [hfresh index le_rfl, ((Bool.and_eq_true _ _).mp hschema).1]
          rfl) t.pieces
      rw [seen_schema hschema, hstep, hsame]
      exact ⟨hcarries, hn, hlater, rfl, rfl⟩
    · obtain ⟨s₁, hs₁⟩ : ∃ s₁ : StreamToOpenAi, s₁ = { s with
          toolIndices := s.toolIndices.insert index s.nextToolIndex
          nextToolIndex := (s.nextToolIndex + 1) % 2 ^ 64 } := ⟨_, rfl⟩
      have hstep : s.step (.toolStart index (.string t.id) (.string t.name)) =
          (s₁, [s.chunk (callDelta s.nextToolIndex (.string t.id) (.string t.name) "") none]) := by
        rw [hs₁]
        exact if_neg hschema
      have hget (i : Nat) : s₁.toolIndices.get? i =
          if i = index then some s.nextToolIndex else s.toolIndices.get? i := by
        rw [hs₁]
        exact OrdMap.get?_insert ..
      obtain ⟨hsame, hcarries⟩ := @inputs_carry s₁ index (.arguments n)
        (fun piece => by
          unfold onInput
          rw [hget index, if_pos rfl, hn]
          show [s₁.chunk (argumentsDelta (n % 2 ^ 64) piece) none] = _
          rw [argumentsDelta_mod]
          rfl) t.pieces
      rw [seen_tool hschema, hstep, hsame, hn, callDelta_mod]
      have hcall := carries_one s.id s.model (.call n (.string t.id) (.string t.name) "")
      refine ⟨hcall.append hcarries, ?_, fun i hi => ?_, ?_, ?_⟩
      · rw [hs₁]
        show (s.nextToolIndex + 1) % 2 ^ 64 = (n + 1) % 2 ^ 64
        rw [hn, Nat.mod_add_mod]
      · rw [hget i, if_neg (by omega)]
        exact hlater i hi
      · rw [hs₁]
      · rw [hs₁]

/-- The blocks of a message, one after the other. -/
theorem blocks_ran {index : Nat} {blocks : List Streamed} {run : List Said}
    (h : BlocksSaid index blocks run) {s : StreamToOpenAi} {n : Nat}
    (hn : s.nextToolIndex = n % 2 ^ 64) (hfresh : ∀ i, index ≤ i → s.toolIndices.get? i = none) :
    Ran s (emitAll step s run).1 n (Streamed.tools (blocks.map (seen s.emulated))).length
      (index + blocks.length) (emitAll step s run).2
      (Streamed.deltas n (blocks.map (seen s.emulated))) := by
  induction h generalizing s n with
  | nil index => exact ⟨.nil, hn, hfresh, rfl, rfl⟩
  | cons hblock hrest ih =>
    rename_i index block blocks run rest
    obtain ⟨hcarries, hnext, hfresh₁, hinput, hemulated⟩ := block_ran hn hfresh hblock
    obtain ⟨hcarries', hnext', hfresh', hinput', hemulated'⟩ := ih hnext hfresh₁
    rw [hemulated] at hcarries' hnext'
    rw [List.map_cons, emitAll_append, Streamed.tools_cons, List.length_append]
    refine ⟨hcarries.append hcarries', ?_, fun i hi => hfresh' i ?_, hinput'.trans hinput,
      hemulated'.trans hemulated⟩
    · rw [hnext', Nat.add_assoc]
    · rw [List.length_cons] at hi
      omega

def usage (input output : Nat) : Value :=
  .ofMembers [("prompt_tokens", .ofU64 input), ("completion_tokens", .ofU64 output),
    ("total_tokens", .ofU64 (input + output))]

/-- What a whole stream is reassembled to. -/
theorem stream_assembled (emulated : Bool) {blocks : List Streamed} {run : List Said}
    (hrun : BlocksSaid 0 blocks run) {events : List SseEvent} {id model : String}
    {input output : Nat} {reason : Option String}
    (hevents : events.filterMap said =
      .messageStart id model input :: (run ++ [.messageDelta reason output]))
    (hlength : (Streamed.tools (blocks.map (seen emulated))).length ≤ 2 ^ 64) :
    ((emitAll onEvent (new emulated) events).2.foldl Aggregate.onChunk .init).toAssembled =
      ⟨Streamed.texts (blocks.map (seen emulated)),
        (Streamed.tools (blocks.map (seen emulated))).map Tool.streamed,
        finishReason reason emulated, some (usage input output)⟩ := by
  obtain ⟨s, hs⟩ : ∃ s : StreamToOpenAi, s = { new emulated with
      id := id, model := model, inputTokens := input, roleSent := true } := ⟨_, rfl⟩
  have hran := blocks_ran hrun (s := s) (n := 0) (by rw [hs]; rfl) (by rw [hs]; exact fun _ _ => rfl)
  obtain ⟨last, hlast⟩ : ∃ last, last = emitAll step s run := ⟨_, rfl⟩
  rw [← hlast] at hran
  obtain ⟨hcarries, -, -, hinput, hemulated⟩ := hran
  have hs_emulated : s.emulated = emulated := by rw [hs]; rfl
  have hs_input : s.inputTokens = input := by rw [hs]
  rw [hs_emulated] at hcarries hemulated
  rw [hs_input] at hinput
  have hall : (emitAll onEvent (new emulated) events).2 = [Delta.chunk id model .role] ++ (last.2 ++
      [Delta.chunk last.1.id last.1.model
        (.finish (finishReason reason emulated) (usage input output))]) := by
    rw [onEvents_said, hevents]
    show [Delta.chunk id model .role] ++ (emitAll step { new emulated with
      id := id, model := model, inputTokens := input, roleSent := true } (run ++ _)).2 = _
    rw [← hs, emitAll_append, ← hlast, ← hemulated, ← hinput]
    rfl
  have hdeltas := (carries_one id model .role).append (hcarries.append
    (carries_one last.1.id last.1.model
      (.finish (finishReason reason emulated) (usage input output))))
  rw [hall, hdeltas.foldl, Streamed.fold_message hlength _ rfl]

end StreamToOpenAi

/-! ## The whole message, and the two compared -/

/-- The text of a whole message. -/
def wholeText (emulated : Bool) (blocks : List Streamed) : String :=
  String.join (blocks.map fun
    | .text pieces => String.join pieces
    | .tool t => if emulated && t.name == jsonSchemaTool then printText t.input else ""
    | .other => "")

theorem onBlock_other {emulated : Bool} {acc : String × List Value} {block : Value}
    (htext : (block.index "type").asStr ≠ some "text")
    (htool : (block.index "type").asStr ≠ some "tool_use") : onBlock emulated acc block = acc := by
  unfold onBlock
  split
  · exact absurd ‹_› htext
  · exact absurd ‹_› htool
  · rfl

theorem onBlock_is {emulated : Bool} (acc : String × List Value) {streamed : Streamed}
    {block : Value} (h : IsBlock streamed block) :
    onBlock emulated acc block = (acc.1 ++ wholeText emulated [streamed],
      acc.2 ++ (Streamed.tools [seen emulated streamed]).map Tool.value) := by
  cases h with
  | text htype htext =>
    unfold onBlock
    rw [htype, htext]
    simp [Value.asStr, wholeText, seen, Streamed.tools]
  | other htext htool =>
    rw [onBlock_other htext htool]
    simp [wholeText, seen, Streamed.tools]
  | tool htype hid hname hinput =>
    rename_i t
    unfold onBlock
    rw [htype, hid, hname, hinput]
    by_cases hschema : (emulated && t.name == jsonSchemaTool) = true
    · rw [seen_schema hschema]
      have hboth : emulated = true ∧ t.name = jsonSchemaTool := by simpa using hschema
      simp [Value.asStr, wholeText, hboth, Streamed.tools]
    · rw [seen_tool hschema]
      have hnot : ¬ (emulated = true ∧ t.name = jsonSchemaTool) := by simpa using hschema
      simp [Value.asStr, wholeText, hnot, Streamed.tools, Tool.value]

theorem whole_blocks (emulated : Bool) {blocks : List Streamed} {content : List Value}
    (h : List.Forall₂ IsBlock blocks content) (acc : String × List Value) :
    content.foldl (onBlock emulated) acc = (acc.1 ++ wholeText emulated blocks,
      acc.2 ++ (Streamed.tools (blocks.map (seen emulated))).map Tool.value) := by
  induction h generalizing acc with
  | nil => simp [wholeText, Streamed.tools]
  | cons hblock htail ih =>
    rename_i streamed block blocks content
    rw [List.foldl_cons, ih, List.map_cons, Streamed.tools_cons, List.map_append]
    have hjoin : wholeText emulated (streamed :: blocks) =
        wholeText emulated [streamed] ++ wholeText emulated blocks :=
      @String.join_append [_] (blocks.map _)
    rw [hjoin, ← String.append_assoc, ← List.append_assoc]
    have hone : onBlock emulated acc block = (acc.1 ++ wholeText emulated [streamed],
        acc.2 ++ (Streamed.tools [seen emulated streamed]).map Tool.value) := onBlock_is acc hblock
    rw [hone]

theorem mem_tools_seen {emulated : Bool} {blocks : List Streamed} {t : Tool}
    (h : t ∈ Streamed.tools (blocks.map (seen emulated))) : t ∈ Streamed.tools blocks := by
  obtain ⟨b, hb, ht⟩ := List.mem_filterMap.mp h
  obtain ⟨block, hblock, rfl⟩ := List.mem_map.mp hb
  refine List.mem_filterMap.mpr ⟨block, hblock, ?_⟩
  cases block with
  | text pieces => cases ht
  | other => cases ht
  | tool t' =>
    by_cases hschema : (emulated && t'.name == jsonSchemaTool) = true
    · rw [seen_schema hschema] at ht
      cases ht
    · rw [seen_tool hschema] at ht
      exact ht

theorem ofU64_of_asU64 {v : Value} {n : Nat} (h : v.asU64 = some n) : v = .ofU64 n := by
  unfold Value.asU64 at h
  split at h
  · rename_i m fits
    cases h
    unfold Value.ofU64
    simp only [Nat.mod_eq_of_lt fits]
  · cases h

end Anthropic

open Anthropic

/-- A stream is reassembled to the whole message's translation exactly when the input
that stands for a JSON schema is streamed as it is printed, no tool's input is
streamed as the empty text, and the calls can be numbered. -/
theorem anthropic_agrees (emulated : Bool) {blocks : List Streamed} {body : Value}
    {events : List SseEvent} (h : Delivers blocks body events) :
    (answer (aggregateChunks
        (emitAll StreamToOpenAi.onEvent (.new emulated) events).2)).Same
        (answer (responseToOpenAi body emulated)) ↔
      Streamed.texts (blocks.map (seen emulated)) = wholeText emulated blocks ∧
        (∀ t ∈ Streamed.tools (blocks.map (seen emulated)), t.text ≠ "") ∧
        (Streamed.tools (blocks.map (seen emulated))).length ≤ 2 ^ 64 := by
  obtain ⟨run, id, model, input, output, hrun, hinput, houtput, hevents⟩ := h.events
  have hwhole := whole_blocks emulated h.content ("", [])
  rw [String.empty_append, List.nil_append] at hwhole
  have htools : ∀ t ∈ Streamed.tools (blocks.map (seen emulated)), t.WF := fun t ht =>
    h.tools t (mem_tools_seen ht)
  unfold aggregateChunks responseToOpenAi
  rw [hwhole]
  dsimp only
  rw [hinput, houtput, ofU64_of_asU64 hinput, ofU64_of_asU64 houtput]
  by_cases hlength : (Streamed.tools (blocks.map (seen emulated))).length ≤ 2 ^ 64
  · rw [Streamed.same_iff (StreamToOpenAi.stream_assembled emulated hrun hevents hlength) htools]
    constructor
    · rintro ⟨htext, hne, -, -⟩
      exact ⟨htext, hne, hlength⟩
    · rintro ⟨htext, hne, -⟩
      exact ⟨htext, hne, rfl, rfl⟩
  · constructor
    · intro hsame
      refine absurd hsame (Streamed.not_same_of_lt ?_ (by omega) _ _ _ _ _)
      exact Aggregate.foldl_length _ (Nat.zero_le _)
    · rintro ⟨-, -, hle⟩
      exact absurd hle hlength

namespace Anthropic

def tokens (input output : Nat) : Value :=
  .ofMembers [("input_tokens", .ofU64 input), ("output_tokens", .ofU64 output)]

def toolUse (input : Value) : Value :=
  .ofMembers [("type", .string "tool_use"), ("id", .string "t"), ("name", .string "f"),
    ("input", input)]

/-- A message of one tool's call without arguments. -/
def toolMessage : Value :=
  .ofMembers [("content", .array [toolUse (.object [])]), ("stop_reason", .string "tool_use"),
    ("usage", tokens 1 1)]

/-- The same as a stream, with its input in these pieces. -/
def toolEvents (pieces : List String) : List SseEvent :=
  [sseEvent "message_start" (.ofMembers [("message", .ofMembers [("usage", tokens 1 0)])]),
    sseEvent "content_block_start" (.ofMembers [("content_block", toolUse (.object []))])] ++
  pieces.map (fun piece => sseEvent "content_block_delta" (.ofMembers [("delta", .ofMembers
    [("type", .string "input_json_delta"), ("partial_json", .string piece)])])) ++
  [sseEvent "message_delta" (.ofMembers [("delta", .ofMembers [("stop_reason", .string "tool_use")]),
    ("usage", tokens 1 1)])]

theorem delivers_toolEvents {t : Tool} (ht : t.WF) (hid : t.id = "t") (hname : t.name = "f")
    (hinput : t.input = .object [])
    (h : (toolEvents t.pieces).filterMap said =
      .messageStart "msg" "" 1 :: ((.toolStart 0 (.string "t") (.string "f") ::
        t.pieces.map (.input 0)) ++ [.messageDelta (some "tool_use") 1])) :
    Delivers [.tool t] toolMessage (toolEvents t.pieces) where
  tools := fun t' ht' => List.mem_singleton.mp ht' ▸ ht
  content := .cons (.tool rfl (hid ▸ rfl) (hname ▸ rfl) (by rw [hinput]; rfl)) .nil
  events := by
    refine ⟨_, "msg", "", 1, 1, .cons (.tool t) (.nil 1), rfl, rfl, ?_⟩
    rw [h, hid, hname, List.append_nil]
    rfl

end Anthropic

theorem anthropic_agrees_tool :
    (answer (aggregateChunks (emitAll StreamToOpenAi.onEvent (.new false)
        (toolEvents ["\x7b", "\x7d"])).2)).Same (answer (responseToOpenAi toolMessage false)) :=
  (anthropic_agrees false (delivers_toolEvents (t := ⟨"t", "f", .object [], ["\x7b", "\x7d"]⟩)
    (Or.inl rfl) rfl rfl rfl rfl)).mpr ⟨rfl, by decide, by decide⟩

/-- A call without arguments, streamed without any: the one prints none of them, the
other the empty object. -/
theorem anthropic_agrees_empty :
    Delivers [.tool ⟨"t", "f", .object [], []⟩] toolMessage (toolEvents []) ∧
      ¬ (answer (aggregateChunks (emitAll StreamToOpenAi.onEvent (.new false)
        (toolEvents [])).2)).Same (answer (responseToOpenAi toolMessage false)) := by
  refine ⟨delivers_toolEvents (Or.inr ⟨rfl, rfl⟩) rfl rfl rfl rfl, ?_⟩
  rintro ⟨-, hcalls, -⟩
  have hparsed := congrArg (List.map fun call => call.2.2.isSome) hcalls
  revert hparsed
  decide

end RapidRouter.Providers
