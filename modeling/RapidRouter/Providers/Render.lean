import Mathlib.Data.Finset.Insert
import RapidRouter.Core.Text
import RapidRouter.Lib.Emit
import RapidRouter.Lib.Json.Build
import RapidRouter.Lib.OrdMap
import RapidRouter.Providers.Dialect

/-!
# Rendering answers for the client

The inbound half of `router-providers`: an answer in the internal shape, which
is OpenAI's, rendered for a client that speaks another one, whole
(`renderFor`) or chunk by chunk (`InboundStream`). Each renderer of a stream
keeps what it needs of the chunks seen so far, and each decides for itself
when it writes the usage: Anthropic's and the Responses renderer at the end,
Gemini's with the finishing chunk.
-/

namespace RapidRouter.Providers

open Json Emit

/-! ## Looking into a chunk -/

/-- `as_str`, of a text that is not empty. -/
def nonEmptyStr (v : Value) : Option String := v.asStr.filter (· ≠ "")

/-- `as_array().into_iter().flatten()`. -/
def elements (v : Value) : List Value := v.asArray.getD []

def firstChoice (chunk : Value) : Value := (chunk.index "choices").at_ 0

/-- `get("usage")`, when it is not null. -/
def usageOf (chunk : Value) : Option Value := (chunk.get? "usage").filter fun u => !u.isNull

/-- A tool call's `index`. -/
def toolIndex (call : Value) : Nat := (call.index "index").asU64.getD 0

/-- `serde_json::from_str`. -/
def fromStr (s : String) : Option Value := fromSlice (utf8 s)

/-- The arguments of a whole tool call. -/
def argumentsOf (call : Value) : Value :=
  ((((call.index "function").index "arguments").asStr).bind fromStr).getD (.object [])

def fromFinish (finish : Option String) : String :=
  match finish with
  | some "tool_calls" => "tool_use"
  | some "length" => "max_tokens"
  | _ => "end_turn"

def geminiFinish (reason : String) : String :=
  match reason with
  | "length" => "MAX_TOKENS"
  | "content_filter" => "SAFETY"
  | _ => "STOP"

/-! ## Whole answers -/

/-- `openai_response_to_anthropic`. -/
def openaiResponseToAnthropic (body : Value) : Value :=
  let message := (firstChoice body).index "message"
  let text := (nonEmptyStr (message.index "content")).toList.map fun text =>
    Value.ofMembers [("type", .string "text"), ("text", .string text)]
  let calls := (elements (message.index "tool_calls")).map fun call =>
    Value.ofMembers [("type", .string "tool_use"), ("id", call.index "id"),
      ("name", (call.index "function").index "name"), ("input", argumentsOf call)]
  .ofMembers [("id", body.index "id"), ("type", .string "message"), ("role", .string "assistant"),
    ("model", body.index "model"), ("content", .array (text ++ calls)),
    ("stop_reason", .string (fromFinish ((firstChoice body).index "finish_reason").asStr)),
    ("stop_sequence", .null),
    ("usage", .ofMembers [("input_tokens", (body.index "usage").index "prompt_tokens"),
      ("output_tokens", (body.index "usage").index "completion_tokens")])]

/-- `openai_response_to_gemini`. -/
def openaiResponseToGemini (body : Value) : Value :=
  let message := (firstChoice body).index "message"
  let text := (nonEmptyStr (message.index "content")).toList.map fun text =>
    Value.ofMembers [("text", .string text)]
  let calls := (elements (message.index "tool_calls")).map fun call =>
    Value.ofMembers [("functionCall", .ofMembers [("name", (call.index "function").index "name"),
      ("args", argumentsOf call)])]
  let finish := (((firstChoice body).index "finish_reason").asStr.map geminiFinish).getD "STOP"
  .ofMembers [
    ("candidates", .array [.ofMembers [
      ("content", .ofMembers [("role", .string "model"), ("parts", .array (text ++ calls))]),
      ("finishReason", .string finish), ("index", .ofU64 0)]]),
    ("usageMetadata", .ofMembers [
      ("promptTokenCount", (body.index "usage").index "prompt_tokens"),
      ("candidatesTokenCount", (body.index "usage").index "completion_tokens"),
      ("totalTokenCount", (body.index "usage").index "total_tokens")]),
    ("modelVersion", body.index "model")]

def incompleteDetails : Value := .ofMembers [("reason", .string "max_output_tokens")]

/-- The usage of the Responses shape. -/
def responsesUsage (usage : Value) : Value :=
  .ofMembers [("input_tokens", usage.index "prompt_tokens"),
    ("output_tokens", usage.index "completion_tokens"),
    ("total_tokens", usage.index "total_tokens")]

/-- `openai_response_to_responses`. -/
def openaiResponseToResponses (body : Value) : Value :=
  let message := (firstChoice body).index "message"
  let calls := (elements (message.index "tool_calls")).zipIdx.map fun (call, i) =>
    Value.ofMembers [("type", .string "function_call"), ("id", .string ("fc_" ++ toString i)),
      ("call_id", call.index "id"), ("name", (call.index "function").index "name"),
      ("arguments", (call.index "function").index "arguments"), ("status", .string "completed")]
  let text := (nonEmptyStr (message.index "content")).toList.map fun text =>
    Value.ofMembers [("type", .string "message"), ("id", .string "msg_0"),
      ("role", .string "assistant"), ("status", .string "completed"),
      ("content", .array [.ofMembers [("type", .string "output_text"), ("text", .string text),
        ("annotations", .array [])]])]
  let incomplete := ((firstChoice body).index "finish_reason").asStr = some "length"
  .ofMembers [("id", .string ("resp_" ++ (body.index "id").asStr.getD "x")),
    ("object", .string "response"),
    ("status", .string (if incomplete then "incomplete" else "completed")),
    ("model", body.index "model"), ("output", .array (calls ++ text)),
    ("usage", responsesUsage (body.index "usage")), ("error", .null),
    ("incomplete_details", if incomplete then incompleteDetails else .null)]

inductive RenderTarget where
  | dialect (d : Dialect)
  | responses
  deriving DecidableEq

/-- `render_for`. -/
def renderFor (target : RenderTarget) (openai : Value) : Value :=
  match target with
  | .dialect .openAi | .dialect .bedrock | .dialect .codexResponses => openai
  | .dialect .anthropic => openaiResponseToAnthropic openai
  | .dialect .gemini => openaiResponseToGemini openai
  | .responses => openaiResponseToResponses openai

/-! ## Frames -/

/-- A frame of an event stream. -/
inductive SseFrame where
  | event (name : String) (data : Value)
  | data (v : Value)
  | done

/-- `format!("event: {name}\ndata: {data}\n\n")`, and the like. -/
def SseFrame.text : SseFrame → Bytes
  | .event name v =>
    utf8 "event: " ++ (utf8 name ++ ascii '\n' :: (utf8 "data: " ++ (v.print ++ utf8 "\n\n")))
  | .data v => utf8 "data: " ++ (v.print ++ utf8 "\n\n")
  | .done => utf8 "data: [DONE]\n\n"

/-! ## Anthropic -/

structure OpenAiToAnthropicStream where
  started : Bool
  /-- The block that is open: its index, and whether it is a tool's. -/
  openBlock : Option (Nat × Bool)
  nextBlockIndex : Nat
  /-- The block of each tool index. -/
  toolBlocks : OrdMap Nat Nat
  finish : Option String
  usage : Option Value

namespace OpenAiToAnthropicStream

def new : OpenAiToAnthropicStream := ⟨false, none, 0, .empty, none, none⟩

def closeOpenBlock (self : OpenAiToAnthropicStream) : OpenAiToAnthropicStream × List SseFrame :=
  match self.openBlock with
  | some (index, _) =>
    ({ self with openBlock := none }, [.event "content_block_stop" (.ofMembers
      [("type", .string "content_block_stop"), ("index", .ofU64 index)])])
  | none => (self, [])

/-- The opening event, before anything is known of the usage. -/
def messageStart (chunk : Value) : SseFrame :=
  .event "message_start" (.ofMembers [("type", .string "message_start"), ("message", .ofMembers [
    ("id", chunk.index "id"), ("type", .string "message"), ("role", .string "assistant"),
    ("model", chunk.index "model"), ("content", .array []), ("stop_reason", .null),
    ("usage", .ofMembers [("input_tokens", .ofU64 0), ("output_tokens", .ofU64 0)])])])

def blockStart (index : Nat) (block : Value) : SseFrame :=
  .event "content_block_start" (.ofMembers [("type", .string "content_block_start"),
    ("index", .ofU64 index), ("content_block", block)])

def blockDelta (index : Nat) (delta : Value) : SseFrame :=
  .event "content_block_delta" (.ofMembers [("type", .string "content_block_delta"),
    ("index", .ofU64 index), ("delta", delta)])

def onText (self : OpenAiToAnthropicStream) (text : String) :
    OpenAiToAnthropicStream × List SseFrame :=
  let delta (index : Nat) := blockDelta index
    (.ofMembers [("type", .string "text_delta"), ("text", .string text)])
  match self.openBlock with
  | some (index, false) => (self, [delta index])
  | _ =>
    let (self, closed) := self.closeOpenBlock
    let index := self.nextBlockIndex
    ({ self with nextBlockIndex := index + 1, openBlock := some (index, false) },
      closed ++ [blockStart index (.ofMembers [("type", .string "text"), ("text", .string "")]),
        delta index])

/-- A chunk's content, when there is some. -/
def onContent (self : OpenAiToAnthropicStream) (content : Value) :
    OpenAiToAnthropicStream × List SseFrame :=
  match nonEmptyStr content with
  | some text => self.onText text
  | none => (self, [])

/-- A tool call that gives a name opens a block. -/
def onName (self : OpenAiToAnthropicStream) (call : Value) :
    OpenAiToAnthropicStream × List SseFrame :=
  match ((call.index "function").index "name").asStr with
  | some name =>
    let (self, closed) := self.closeOpenBlock
    let index := self.nextBlockIndex
    ({ self with
        nextBlockIndex := index + 1
        toolBlocks := self.toolBlocks.insert (toolIndex call) index
        openBlock := some (index, true) },
      closed ++ [blockStart index (.ofMembers [("type", .string "tool_use"),
        ("id", call.index "id"), ("name", .string name), ("input", .object [])])])
  | none => (self, [])

def argumentDeltas (self : OpenAiToAnthropicStream) (call : Value) : List SseFrame :=
  match nonEmptyStr ((call.index "function").index "arguments"),
    self.toolBlocks.get? (toolIndex call) with
  | some fragment, some index =>
    [blockDelta index (.ofMembers [("type", .string "input_json_delta"),
      ("partial_json", .string fragment)])]
  | _, _ => []

def onCall (self : OpenAiToAnthropicStream) (call : Value) :
    OpenAiToAnthropicStream × List SseFrame :=
  let (self, opened) := self.onName call
  (self, opened ++ self.argumentDeltas call)

def onChunk (self : OpenAiToAnthropicStream) (chunk : Value) :
    OpenAiToAnthropicStream × List SseFrame :=
  let choice := firstChoice chunk
  let delta := choice.index "delta"
  let started := if self.started then [] else [messageStart chunk]
  let (self, text) := { self with started := true }.onContent (delta.index "content")
  let (self, calls) := emitAll onCall self (elements (delta.index "tool_calls"))
  ({ self with
      usage := (usageOf chunk).or self.usage
      finish := (choice.index "finish_reason").asStr.or self.finish },
    started ++ text ++ calls)

/-- The end of the stream, when the usage is known. -/
def messageDelta (finish : Option String) (outputTokens : Nat) : SseFrame :=
  .event "message_delta" (.ofMembers [("type", .string "message_delta"),
    ("delta", .ofMembers [("stop_reason", .string (fromFinish finish)), ("stop_sequence", .null)]),
    ("usage", .ofMembers [("output_tokens", .ofU64 outputTokens)])])

def finishFrames (self : OpenAiToAnthropicStream) : List SseFrame :=
  let (self, closed) := self.closeOpenBlock
  let outputTokens := (self.usage.bind fun u => (u.index "completion_tokens").asU64).getD 0
  closed ++ [messageDelta self.finish outputTokens,
    .event "message_stop" (.ofMembers [("type", .string "message_stop")])]

end OpenAiToAnthropicStream

/-! ## Gemini -/

structure OpenAiToGeminiStream where
  /-- The name and the argument fragments of each tool index. -/
  pending : OrdMap Nat (String × String)
  emitted : Finset Nat

namespace OpenAiToGeminiStream

def new : OpenAiToGeminiStream := ⟨.empty, ∅⟩

/-- One tool call of a chunk. -/
def buffer (pending : OrdMap Nat (String × String)) (call : Value) : OrdMap Nat (String × String) :=
  let function := call.index "function"
  let entry := (pending.get? (toolIndex call)).getD ("", "")
  pending.insert (toolIndex call) ((function.index "name").asStr.getD entry.1,
    entry.2 ++ (function.index "arguments").asStr.getD "")

/-- Accumulated arguments, when they are complete. -/
def parsed (args : String) : Option Value :=
  if Core.Text.trim args = "" then none else fromStr args

def callPart (name : String) (args : Value) : Value :=
  .ofMembers [("functionCall", .ofMembers [("name", .string name), ("args", args)])]

def flushCall (emitted : Finset Nat) (entry : Nat × String × String) : Finset Nat × List Value :=
  let (index, name, args) := entry
  if index ∈ emitted ∨ name = "" then (emitted, [])
  else
    match parsed args with
    | some args => (insert index emitted, [callPart name args])
    | none => (emitted, [])

def flushCompleteCalls (self : OpenAiToGeminiStream) : OpenAiToGeminiStream × List Value :=
  let (emitted, parts) := emitAll flushCall self.emitted self.pending.entries
  ({ self with emitted := emitted }, parts)

def usageMetadata (usage : Value) : Value :=
  .ofMembers [("promptTokenCount", usage.index "prompt_tokens"),
    ("candidatesTokenCount", usage.index "completion_tokens"),
    ("totalTokenCount", usage.index "total_tokens")]

/-- The usage goes with the finish. -/
def streamChunk (parts : List Value) (chunk : Value) (finish : Option String) : Value :=
  let candidate := Value.ofMembers ([
    ("content", .ofMembers [("role", .string "model"), ("parts", .array parts)]),
    ("index", .ofU64 0)] ++ finish.toList.map fun finish => ("finishReason", .string finish))
  let usage := if finish.isSome then usageOf chunk else none
  .ofMembers ([("candidates", .array [candidate]), ("modelVersion", chunk.index "model")] ++
    usage.toList.map fun usage => ("usageMetadata", usageMetadata usage))

def onChunk (self : OpenAiToGeminiStream) (chunk : Value) : OpenAiToGeminiStream × List SseFrame :=
  let choice := firstChoice chunk
  let delta := choice.index "delta"
  let text := (nonEmptyStr (delta.index "content")).toList.map fun text =>
    Value.ofMembers [("text", .string text)]
  let self := { self with pending := (elements (delta.index "tool_calls")).foldl buffer self.pending }
  let (self, calls) := self.flushCompleteCalls
  let parts := text ++ calls
  let finish := (choice.index "finish_reason").asStr.map geminiFinish
  if parts.isEmpty && finish.isNone then (self, [])
  else (self, [.data (streamChunk parts chunk finish)])

end OpenAiToGeminiStream

/-! ## Responses -/

inductive OpenItem where
  | message
  | functionCall (index : Nat)
  deriving DecidableEq

structure ChunksToResponses where
  started : Bool
  responseId : String
  model : String
  /-- The text of the message item that is open. -/
  text : Option String
  /-- The id, the name and the accumulated arguments of each tool index. -/
  calls : OrdMap Nat (String × String × String)
  openItem : Option OpenItem
  outputIndex : Nat
  sequence : Nat
  finish : Option String
  usage : Option Value
  /-- The items completed, for the last event. -/
  output : List Value

namespace ChunksToResponses

def new : ChunksToResponses := ⟨false, "", "", none, .empty, none, 0, 0, none, none, []⟩

/-- Events are numbered. -/
def event (self : ChunksToResponses) (name : String) (data : List (String × Value)) :
    ChunksToResponses × List SseFrame :=
  ({ self with sequence := self.sequence + 1 },
    [.event name (.ofMembers (data ++
      [("type", .string name), ("sequence_number", .ofU64 self.sequence)]))])

/-- Several events, one after the other. -/
def events (self : ChunksToResponses) (list : List (String × List (String × Value))) :
    ChunksToResponses × List SseFrame :=
  emitAll (fun self e => self.event e.1 e.2) self list

def messageId (index : Nat) : String := "msg_" ++ toString index

def callId (index : Nat) : String := "fc_" ++ toString index

def outputText (text : String) : Value :=
  .ofMembers [("type", .string "output_text"), ("text", .string text), ("annotations", .array [])]

def messageItem (outputIndex : Nat) (status : String) (content : List Value) : Value :=
  .ofMembers [("type", .string "message"), ("id", .string (messageId outputIndex)),
    ("role", .string "assistant"), ("status", .string status), ("content", .array content)]

def callItem (index : Nat) (callId' name args status : String) : Value :=
  .ofMembers [("type", .string "function_call"), ("id", .string (callId index)),
    ("call_id", .string callId'), ("name", .string name), ("arguments", .string args),
    ("status", .string status)]

/-- An item is complete. -/
def push (self : ChunksToResponses) (item : Value) : ChunksToResponses :=
  { self with output := self.output ++ [item], outputIndex := self.outputIndex + 1 }

def closeOpenItem (self : ChunksToResponses) : ChunksToResponses × List SseFrame :=
  let openItem := self.openItem
  let self := { self with openItem := none }
  match openItem with
  | some .message =>
    let text := self.text.getD ""
    let item := messageItem self.outputIndex "completed" [outputText text]
    let (self, frames) := { self with text := none }.events [
      ("response.output_text.done", [("item_id", .string (messageId self.outputIndex)),
        ("output_index", .ofU64 self.outputIndex), ("content_index", .ofU64 0),
        ("text", .string text)]),
      ("response.output_item.done", [("output_index", .ofU64 self.outputIndex), ("item", item)])]
    (self.push item, frames)
  | some (.functionCall index) =>
    match self.calls.get? index with
    | some (call, name, args) =>
      let item := callItem index call name args "completed"
      let (self, frames) := self.events [
        ("response.function_call_arguments.done", [("item_id", .string (callId index)),
          ("output_index", .ofU64 self.outputIndex), ("arguments", .string args)]),
        ("response.output_item.done", [("output_index", .ofU64 self.outputIndex), ("item", item)])]
      (self.push item, frames)
    | none => (self, [])
  | none => (self, [])

/-- `response.created`, with the first chunk. -/
def start (self : ChunksToResponses) (chunk : Value) : ChunksToResponses × List SseFrame :=
  if self.started then (self, [])
  else
    let self := { self with
      started := true
      responseId := "resp_" ++ (chunk.index "id").asStr.getD "stream"
      model := (chunk.index "model").asStr.getD "" }
    self.event "response.created" [("response", .ofMembers [("id", .string self.responseId),
      ("object", .string "response"), ("status", .string "in_progress"),
      ("model", .string self.model), ("output", .array [])])]

/-- The message item is open. -/
def openMessage (self : ChunksToResponses) : ChunksToResponses × List SseFrame :=
  if self.openItem = some .message then (self, [])
  else
    andThen self.closeOpenItem fun self =>
      { self with openItem := some .message, text := some "" }.events [
        ("response.output_item.added", [("output_index", .ofU64 self.outputIndex),
          ("item", messageItem self.outputIndex "in_progress" [])]),
        ("response.content_part.added", [("item_id", .string (messageId self.outputIndex)),
          ("output_index", .ofU64 self.outputIndex), ("content_index", .ofU64 0),
          ("part", outputText "")])]

/-- A chunk's content, when there is some. -/
def onContent (self : ChunksToResponses) (content : Value) : ChunksToResponses × List SseFrame :=
  match nonEmptyStr content with
  | some text =>
    andThen self.openMessage fun self =>
      { self with text := self.text.map (· ++ text) }.event "response.output_text.delta" [
        ("item_id", .string (messageId self.outputIndex)),
        ("output_index", .ofU64 self.outputIndex), ("content_index", .ofU64 0),
        ("delta", .string text)]
  | none => (self, [])

/-- A tool call that gives a name opens an item. -/
def onName (self : ChunksToResponses) (call : Value) : ChunksToResponses × List SseFrame :=
  match ((call.index "function").index "name").asStr with
  | some name =>
    let index := toolIndex call
    let callId' := (call.index "id").asStr.getD "call_0"
    andThen self.closeOpenItem fun self =>
      { self with
        calls := self.calls.insert index (callId', name, "")
        openItem := some (.functionCall index) }.event "response.output_item.added" [
          ("output_index", .ofU64 self.outputIndex),
          ("item", callItem index callId' name "" "in_progress")]
  | none => (self, [])

def onArguments (self : ChunksToResponses) (call : Value) : ChunksToResponses × List SseFrame :=
  let index := toolIndex call
  match nonEmptyStr ((call.index "function").index "arguments"), self.calls.get? index with
  | some fragment, some (callId', name, args) =>
    { self with calls := self.calls.insert index (callId', name, args ++ fragment) }.event
      "response.function_call_arguments.delta" [("item_id", .string (callId index)),
        ("output_index", .ofU64 self.outputIndex), ("delta", .string fragment)]
  | _, _ => (self, [])

def onCall (self : ChunksToResponses) (call : Value) : ChunksToResponses × List SseFrame :=
  andThen (self.onName call) fun self => self.onArguments call

def onChunk (self : ChunksToResponses) (chunk : Value) : ChunksToResponses × List SseFrame :=
  let choice := firstChoice chunk
  let delta := choice.index "delta"
  let (self, started) := self.start chunk
  let (self, text) := self.onContent (delta.index "content")
  let (self, calls) := emitAll onCall self (elements (delta.index "tool_calls"))
  ({ self with
      usage := ((usageOf chunk).map responsesUsage).or self.usage
      finish := (choice.index "finish_reason").asStr.or self.finish },
    started ++ text ++ calls)

def finishFrames (self : ChunksToResponses) : List SseFrame :=
  let (self, closed) := self.closeOpenItem
  let incomplete := self.finish = some "length"
  let response := Value.ofMembers ([("id", .string self.responseId), ("object", .string "response"),
    ("status", .string (if incomplete then "incomplete" else "completed")),
    ("model", .string self.model), ("output", .array self.output),
    ("usage", self.usage.getD .null)] ++
    if incomplete then [("incomplete_details", incompleteDetails)] else [])
  closed ++ (self.event "response.completed" [("response", response)]).2

end ChunksToResponses

/-! ## The stream a client receives -/

inductive InboundStream where
  | openAi
  | anthropic (state : OpenAiToAnthropicStream)
  | gemini (state : OpenAiToGeminiStream)
  | responses (state : ChunksToResponses)

namespace InboundStream

def new (dialect : Dialect) : InboundStream :=
  match dialect with
  | .openAi | .bedrock | .codexResponses => .openAi
  | .anthropic => .anthropic .new
  | .gemini => .gemini .new

def newFor (target : RenderTarget) : InboundStream :=
  match target with
  | .dialect d => .new d
  | .responses => .responses .new

def onChunk (self : InboundStream) (chunk : Value) : InboundStream × List SseFrame :=
  match self with
  | .openAi => (.openAi, [.data chunk])
  | .anthropic state =>
    let (state, frames) := state.onChunk chunk
    (.anthropic state, frames)
  | .gemini state =>
    let (state, frames) := state.onChunk chunk
    (.gemini state, frames)
  | .responses state =>
    let (state, frames) := state.onChunk chunk
    (.responses state, frames)

/-- `finish`. -/
def finishFrames (self : InboundStream) : List SseFrame :=
  match self with
  | .openAi => [.done]
  | .anthropic state => state.finishFrames
  | .gemini _ => []
  | .responses state => state.finishFrames

end InboundStream

/-- All frames of a stream whose chunks are these. -/
def renderedFrames (target : RenderTarget) (chunks : List Value) : List SseFrame :=
  let (formatter, frames) := emitAll InboundStream.onChunk (.newFor target) chunks
  frames ++ formatter.finishFrames

theorem renderedFrames_eq (target : RenderTarget) (chunks : List Value) :
    renderedFrames target chunks = (emitAll InboundStream.onChunk (.newFor target) chunks).2 ++
      (emitAll InboundStream.onChunk (.newFor target) chunks).1.finishFrames := rfl

/-- `translated_stream_body`: what a client receives. -/
def renderedStream (target : RenderTarget) (chunks : List Value) : Bytes :=
  (renderedFrames target chunks).flatMap SseFrame.text

end RapidRouter.Providers
