import Mathlib.Data.List.ReduceOption
import RapidRouter.Core.Text
import RapidRouter.Lib.Fallible
import RapidRouter.Lib.Runs
import RapidRouter.Providers.CodexInput
import RapidRouter.Providers.Render

/-!
# A conversation as turns

`translate_messages` of `anthropic.rs`, `gemini.rs` and `bedrock.rs`. The three go
through the messages alike, and differ in the names and shapes of what they write
(`Shape`) and in when a turn without content is left out: Gemini and Bedrock do not
open it, Anthropic drops it in the end. `carried_iff` says which of the
conversations that are accepted arrive whole, in turns that alternate.
-/

namespace RapidRouter.Providers.Turns

open Json Core Runs Fallible
open CodexInput (isSystem othersOf)

inductive Target where
  | anthropic
  | gemini
  | bedrock
  deriving DecidableEq

def invalid (message : String) : GatewayError :=
  (GatewayError.new .invalidRequest message).withParam "messages"

/-! ## The blocks of the three dialects -/

/-- A text part, or the whole content. -/
def textBlock : Target → String → Value
  | .anthropic, s => .ofMembers [("type", .string "text"), ("text", .string s)]
  | .gemini, s | .bedrock, s => .ofMembers [("text", .string s)]

/-- The media type and the data of a data URI, after its scheme. -/
def dataUri (rest message : String) : Except GatewayError (String × String) :=
  match Text.splitOnceStr ";base64," rest with
  | some found => .ok found
  | none => .error (invalid message)

/-- The data of a document, by itself. -/
def pdfData (file : Value) : String :=
  let data := ((file.index "file_data").asStr).getD ""
  (Text.stripPrefix "data:application/pdf;base64," data).getD data

namespace Anthropic

def partToBlock : ContentPart → Except GatewayError Value
  | .text s => .ok (textBlock .anthropic s)
  | .imageUrl image =>
    match Text.stripPrefix "data:" image.url with
    | some rest =>
      (dataUri rest "image data URI must be base64-encoded").map fun found =>
        .ofMembers [("type", .string "image"),
          ("source", .ofMembers [("type", .string "base64"), ("media_type", .string found.1),
            ("data", .string found.2)])]
    | none =>
      .ok (.ofMembers [("type", .string "image"),
        ("source", .ofMembers [("type", .string "url"), ("url", .string image.url)])])
  | .inputAudio _ => .error (invalid "audio content parts are not supported by Anthropic models")
  | .file file =>
    .ok (.ofMembers [("type", .string "document"),
      ("source", .ofMembers [("type", .string "base64"), ("media_type", .string "application/pdf"),
        ("data", .string (pdfData file))])])

def toolUseBlock (call : ToolCall) (input : Value) : Value :=
  .ofMembers [("type", .string "tool_use"), ("id", .string call.id),
    ("name", .string call.function.name), ("input", input)]

def toolResult (id text : String) : Value :=
  .ofMembers [("type", .string "tool_result"), ("tool_use_id", .string id),
    ("content", .string text)]

end Anthropic

namespace Gemini

def partToGemini : ContentPart → Except GatewayError Value
  | .text s => .ok (textBlock .gemini s)
  | .imageUrl image =>
    match Text.stripPrefix "data:" image.url with
    | some rest =>
      (dataUri rest "image data URI must be base64-encoded").map fun found =>
        .ofMembers [("inlineData",
          .ofMembers [("mimeType", .string found.1), ("data", .string found.2)])]
    | none => .ok (.ofMembers [("fileData", .ofMembers [("fileUri", .string image.url)])])
  | .inputAudio audio =>
    let data := ((audio.index "data").asStr).getD ""
    let format := ((audio.index "format").asStr).getD "wav"
    .ok (.ofMembers [("inlineData",
      .ofMembers [("mimeType", .string ("audio/" ++ format)), ("data", .string data)])])
  | .file file =>
    .ok (.ofMembers [("inlineData",
      .ofMembers [("mimeType", .string "application/pdf"), ("data", .string (pdfData file))])])

def functionCallPart (call : ToolCall) (args : Value) : Value :=
  .ofMembers [("functionCall",
    .ofMembers [("name", .string call.function.name), ("args", args)])]

/-- The name of the function that each call id is of, the last call of an id deciding. -/
def callNames (messages : List Message) : List (String × String) :=
  (messages.flatMap Message.calls).foldl
    (fun names call => Entries.insert call.id call.function.name names) []

/-- An answer is an object, made one where it is none. -/
def response (text : String) : Value :=
  ((fromStr text).filter Value.isObject).getD (.ofMembers [("result", .string text)])

def functionResponse (names : List (String × String)) (id text : String) : Value :=
  .ofMembers [("functionResponse",
    .ofMembers [("name", .string ((Entries.find? id names).getD id)), ("response", response text)])]

end Gemini

namespace Bedrock

def partToBlock : ContentPart → Except GatewayError Value
  | .text s => .ok (textBlock .bedrock s)
  | .imageUrl image =>
    match Text.stripPrefix "data:" image.url with
    | some rest =>
      (dataUri rest "image data URI must be base64").map fun found =>
        let format := (Text.stripPrefix "image/" found.1).getD "png"
        .ofMembers [("image", .ofMembers [("format", .string format),
          ("source", .ofMembers [("bytes", .string found.2)])])]
    | none => .error (invalid "Bedrock image parts require base64 data URIs (no remote URLs)")
  | .file file =>
    let name := ((file.index "filename").asStr).getD "document"
    .ok (.ofMembers [("document", .ofMembers [("format", .string "pdf"), ("name", .string name),
      ("source", .ofMembers [("bytes", .string (pdfData file))])])])
  | .inputAudio _ => .error (invalid "audio content parts are not supported by Bedrock Converse")

def toolUseBlock (call : ToolCall) (input : Value) : Value :=
  .ofMembers [("toolUse", .ofMembers [("toolUseId", .string call.id),
    ("name", .string call.function.name), ("input", input)])]

def content (text : String) : Value :=
  match (fromStr text).filter Value.isObject with
  | some v => .array [.ofMembers [("json", v)]]
  | none => .array [.ofMembers [("text", .string text)]]

def toolResult (id text : String) : Value :=
  .ofMembers [("toolResult",
    .ofMembers [("toolUseId", .string id), ("content", content text)])]

end Bedrock

/-! ## The turns -/

namespace Target

def part : Target → ContentPart → Except GatewayError Value
  | anthropic => Anthropic.partToBlock
  | gemini => Gemini.partToGemini
  | bedrock => Bedrock.partToBlock

def call : Target → ToolCall → Value → Value
  | anthropic => Anthropic.toolUseBlock
  | gemini => Gemini.functionCallPart
  | bedrock => Bedrock.toolUseBlock

def assistantRole : Target → String
  | gemini => "model"
  | anthropic | bedrock => "assistant"

/-- The field that the blocks of a turn are under. -/
def field : Target → String
  | gemini => "parts"
  | anthropic | bedrock => "content"

end Target

section
variable (serdeError : String → String) (target : Target)

/-- No arguments are the empty object. -/
def toolInput (call : ToolCall) : Except GatewayError Value :=
  if Text.trim call.function.arguments = "" then .ok (.object [])
  else
    match fromStr call.function.arguments with
    | some input => .ok input
    | none =>
      .error (invalid ("tool call `" ++ call.id ++ "` has non-JSON arguments: " ++
        serdeError call.function.arguments))

def toolUse (call : ToolCall) : Except GatewayError Value :=
  (toolInput serdeError call).map (target.call call)

/-- The text of a tool's answer. -/
def resultText (message : Message) : String := (message.content.map Content.asText).getD ""

/-- The answer of a tool. Only Anthropic insists on the id. -/
def toolAnswer (messages : List Message) (message : Message) : Except GatewayError Value :=
  match target with
  | .anthropic =>
    match message.toolCallId with
    | some id => .ok (Anthropic.toolResult id (resultText message))
    | none => .error (invalid "tool message missing tool_call_id")
  | .gemini =>
    .ok (Gemini.functionResponse (Gemini.callNames messages) (message.toolCallId.getD "")
      (resultText message))
  | .bedrock => .ok (Bedrock.toolResult (message.toolCallId.getD "") (resultText message))

/-- `content_blocks`, and `content_parts` of Gemini. -/
def contentBlocks (message : Message) : Except GatewayError (List Value) :=
  match message.content with
  | none => .ok []
  | some (.text s) => if s = "" then .ok [] else .ok [textBlock target s]
  | some (.parts ps) => ps.mapM target.part

/-- What a message pushes, if anything. The system's are hoisted. -/
def pushed (messages : List Message) (message : Message) :
    Except GatewayError (Option (String × List Value)) :=
  if isSystem message then .ok none
  else if message.role = "user" then do
    let blocks ← contentBlocks target message
    return some ("user", blocks)
  else if message.role = "assistant" then do
    let blocks ← contentBlocks target message
    let calls ← message.calls.mapM (toolUse serdeError target)
    return some (target.assistantRole, blocks ++ calls)
  else if message.role = "tool" then do
    let block ← toolAnswer target messages message
    return some ("user", [block])
  else .error (invalid ("unsupported message role `" ++ message.role ++ "`"))

/-- A turn without content is not opened. -/
def pushFilled (turns : List (String × List Value)) (turn : String × List Value) :
    List (String × List Value) :=
  if filled turn then push turns turn else turns

/-- The turns that are made of what the messages push. -/
def turnsOf (ps : List (String × List Value)) : List (String × List Value) :=
  match target with
  | .anthropic => (merge ps).filter filled
  | .gemini | .bedrock => ps.foldl pushFilled []

def turnValue (turn : String × List Value) : Value :=
  .ofMembers [("role", .string turn.1), (target.field, .array turn.2)]

def translateMessages (messages : List Message) : Except GatewayError (List Value) := do
  let ps ← messages.mapM (pushed serdeError target messages)
  return (turnsOf target ps.reduceOption).map (turnValue target)

end

/-! ## What is to be carried -/

/-- An entry of the turns: a piece of a message, or the answer of a tool. -/
inductive Entry where
  | piece (c : Carrier)
  | result (m : Message)

/-- What a message has to say: everything it carries, and of a tool its answer, which has
the texts. -/
def due (m : Message) : List Entry :=
  if isSystem m then []
  else if m.role = "tool" then .result m :: (othersOf m).map .piece
  else m.carriers.map .piece

/-- The role of the turn of a message. -/
def side (target : Target) (m : Message) : String :=
  if m.role = "assistant" then target.assistantRole else "user"

/-- A document that is there, and not elsewhere under an id. -/
def Whole : Entry → Prop
  | .piece (.document file) => ∃ data, file.index "file_data" = .string data
  | _ => True

/-- A URL that holds an image. -/
def IsDataUri (url mime data : String) : Prop := url = "data:" ++ mime ++ ";base64," ++ data

/-- The arguments of a call as a value. -/
def IsInput (call : ToolCall) (input : Value) : Prop :=
  (Text.trim call.function.arguments = "" ∧ input = .object []) ∨
    fromStr call.function.arguments = some input

/-- A value that is the text, when that is an object. -/
def IsObjectOf (text : String) (v : Value) : Prop := fromStr text = some v ∧ v.isObject = true

/-- The data of a document, without the scheme it may have. -/
def IsDocument (file : Value) (data : Value) : Prop :=
  ∃ s, file.index "file_data" = .string s ∧
    data = .string ((Text.stripPrefix "data:application/pdf;base64," s).getD s)

/-- A block of the Messages API that shows an entry. -/
def AnthropicShows (v : Value) : Entry → Prop
  | .piece (.text s) => v.index "type" = .string "text" ∧ v.index "text" = .string s
  | .piece (.image image) => v.index "type" = .string "image" ∧
      ((v.index "source").index "url" = .string image.url ∨
        ∃ mime data, IsDataUri image.url mime data ∧
          (v.index "source").index "media_type" = .string mime ∧
          (v.index "source").index "data" = .string data)
  | .piece (.audio _) => False
  | .piece (.document file) => v.index "type" = .string "document" ∧
      IsDocument file ((v.index "source").index "data")
  | .piece (.call call) => v.index "type" = .string "tool_use" ∧ v.index "id" = .string call.id ∧
      v.index "name" = .string call.function.name ∧ IsInput call (v.index "input")
  | .result m => v.index "type" = .string "tool_result" ∧
      m.toolCallId.map Value.string = some (v.index "tool_use_id") ∧
      v.index "content" = .string (resultText m)

/-- A part of `generateContent` that shows an entry. -/
def GeminiShows (v : Value) : Entry → Prop
  | .piece (.text s) => v.index "text" = .string s
  | .piece (.image image) => (v.index "fileData").index "fileUri" = .string image.url ∨
      ∃ mime data, IsDataUri image.url mime data ∧
        (v.index "inlineData").index "mimeType" = .string mime ∧
        (v.index "inlineData").index "data" = .string data
  | .piece (.audio audio) =>
      (v.index "inlineData").index "data" = .string (((audio.index "data").asStr).getD "")
  | .piece (.document file) => IsDocument file ((v.index "inlineData").index "data")
  | .piece (.call call) => (v.index "functionCall").index "name" = .string call.function.name ∧
      IsInput call ((v.index "functionCall").index "args")
  | .result m => IsObjectOf (resultText m) ((v.index "functionResponse").index "response") ∨
      ((v.index "functionResponse").index "response").index "result" = .string (resultText m)

/-- A block of the Converse API that shows an entry. -/
def BedrockShows (v : Value) : Entry → Prop
  | .piece (.text s) => v.index "text" = .string s
  | .piece (.image image) => ∃ mime data, IsDataUri image.url mime data ∧
      ((v.index "image").index "source").index "bytes" = .string data
  | .piece (.audio _) => False
  | .piece (.document file) =>
      IsDocument file (((v.index "document").index "source").index "bytes")
  | .piece (.call call) => (v.index "toolUse").index "toolUseId" = .string call.id ∧
      (v.index "toolUse").index "name" = .string call.function.name ∧
      IsInput call ((v.index "toolUse").index "input")
  | .result m =>
      (v.index "toolResult").index "toolUseId" = .string (m.toolCallId.getD "") ∧
      (IsObjectOf (resultText m) ((((v.index "toolResult").index "content").at_ 0).index "json") ∨
        (((v.index "toolResult").index "content").at_ 0).index "text" = .string (resultText m))

def Shows : Target → Value → Entry → Prop
  | .anthropic => AnthropicShows
  | .gemini => GeminiShows
  | .bedrock => BedrockShows

/-- A block under a role, and an entry of a message of that role. -/
def ShowsUnder (target : Target) (block : String × Value) (entry : String × Entry) : Prop :=
  block.1 = entry.1 ∧ Shows target block.2 entry.2

/-- The entries of a conversation, each with the role of its turn. -/
def expected (target : Target) (messages : List Message) : List (String × Entry) :=
  messages.flatMap fun m => (due m).map (side target m, ·)

/-- Turns that alternate, none without content, with every entry of the conversation
once and in order. -/
def Carried (target : Target) (messages : List Message) (out : List Value) : Prop :=
  ∃ turns : List (String × List Value), out = turns.map (turnValue target) ∧
    Alternating turns ∧ (∀ turn ∈ turns, turn.2 ≠ []) ∧
    List.Forall₂ (ShowsUnder target) (tagged turns) (expected target messages)

/-! ## What is lost -/

/-- The pieces of a message that no branch takes: all but the texts of a tool's answer,
and calls that are not an assistant's. -/
def lost (m : Message) : List Carrier :=
  if isSystem m ∨ m.role = "assistant" then []
  else if m.role = "tool" then othersOf m
  else m.calls.map Carrier.call

/-- The entries that the branches take. -/
def sent (m : Message) : List Entry :=
  if m.role = "tool" then [.result m]
  else if m.role = "assistant" then m.carriers.map .piece
  else m.parts.map .piece

/-- What a conversation pushes, a piece a message. -/
def spoken (target : Target) (messages : List Message) : List (String × List Entry) :=
  (messages.filter fun m => ¬ isSystem m).map fun m => (side target m, sent m)

/-- Nothing is left behind, and where a turn without content is dropped in the end, its
neighbours are not of one role. -/
structure Carriable (target : Target) (messages : List Message) : Prop where
  taken : ∀ m ∈ messages, lost m = []
  whole : ∀ m ∈ messages, ¬ isSystem m → ∀ entry ∈ sent m, Whole entry
  unbroken : target = .anthropic → Unbroken (spoken target messages)

/-! ## What a block shows -/

/-- A data URI is made of the two parts that it is split into. -/
theorem isDataUri_of_split {url rest message : String} {found : String × String}
    (hrest : Text.stripPrefix "data:" url = some rest) (h : dataUri rest message = .ok found) :
    IsDataUri url found.1 found.2 := by
  unfold dataUri at h
  cases hsplit : Text.splitOnceStr ";base64," rest with
  | none =>
    rw [hsplit] at h
    cases h
  | some split =>
    rw [hsplit] at h
    cases h
    unfold IsDataUri
    rw [Text.stripPrefix_eq.mp hrest, Text.splitOnceStr_eq hsplit, ← String.append_assoc,
      ← String.append_assoc]

theorem isDocument_pdfData {file : Value} {data : String} (h : file.index "file_data" = .string data) :
    IsDocument file (.string (pdfData file)) := by
  refine ⟨data, h, ?_⟩
  unfold pdfData
  rw [h]
  rfl

theorem anthropic_shows {part : ContentPart} {v : Value} (h : Anthropic.partToBlock part = .ok v)
    (hwhole : Whole (.piece part.carrier)) : AnthropicShows v (.piece part.carrier) := by
  cases part with
  | text s =>
    cases h
    exact ⟨by simp [textBlock, Value.index_ofMembers], by simp [textBlock, Value.index_ofMembers]⟩
  | imageUrl image =>
    dsimp only [Anthropic.partToBlock] at h
    cases hrest : Text.stripPrefix "data:" image.url with
    | none =>
      rw [hrest] at h
      cases h
      exact ⟨by simp [Value.index_ofMembers], .inl (by simp [Value.index_ofMembers])⟩
    | some rest =>
      rw [hrest] at h
      dsimp only at h
      obtain ⟨found, hfound, rfl⟩ := exists_of_map h
      exact ⟨by simp [Value.index_ofMembers], .inr ⟨found.1, found.2,
        isDataUri_of_split hrest hfound, by simp [Value.index_ofMembers],
        by simp [Value.index_ofMembers]⟩⟩
  | inputAudio audio => cases h
  | file file =>
    cases h
    obtain ⟨data, hdata⟩ := hwhole
    refine ⟨by simp [Value.index_ofMembers], ?_⟩
    simpa [Value.index_ofMembers] using isDocument_pdfData hdata

theorem gemini_shows {part : ContentPart} {v : Value} (h : Gemini.partToGemini part = .ok v)
    (hwhole : Whole (.piece part.carrier)) : GeminiShows v (.piece part.carrier) := by
  cases part with
  | text s =>
    cases h
    rfl
  | imageUrl image =>
    dsimp only [Gemini.partToGemini] at h
    cases hrest : Text.stripPrefix "data:" image.url with
    | none =>
      rw [hrest] at h
      cases h
      exact .inl rfl
    | some rest =>
      rw [hrest] at h
      dsimp only at h
      obtain ⟨found, hfound, rfl⟩ := exists_of_map h
      exact .inr ⟨found.1, found.2, isDataUri_of_split hrest hfound,
        by simp [Value.index_ofMembers], by simp [Value.index_ofMembers]⟩
  | inputAudio audio =>
    cases h
    simp [ContentPart.carrier, GeminiShows, Value.index_ofMembers]
  | file file =>
    cases h
    obtain ⟨data, hdata⟩ := hwhole
    simpa [ContentPart.carrier, GeminiShows, Value.index_ofMembers] using isDocument_pdfData hdata

theorem bedrock_shows {part : ContentPart} {v : Value} (h : Bedrock.partToBlock part = .ok v)
    (hwhole : Whole (.piece part.carrier)) : BedrockShows v (.piece part.carrier) := by
  cases part with
  | text s =>
    cases h
    rfl
  | imageUrl image =>
    dsimp only [Bedrock.partToBlock] at h
    cases hrest : Text.stripPrefix "data:" image.url with
    | none =>
      rw [hrest] at h
      cases h
    | some rest =>
      rw [hrest] at h
      dsimp only at h
      obtain ⟨found, hfound, rfl⟩ := exists_of_map h
      exact ⟨found.1, found.2, isDataUri_of_split hrest hfound,
        by simp [Value.index_ofMembers]⟩
  | inputAudio audio => cases h
  | file file =>
    cases h
    obtain ⟨data, hdata⟩ := hwhole
    simpa [ContentPart.carrier, BedrockShows, Value.index_ofMembers] using
      isDocument_pdfData hdata

/-- What shows a document is given its data. -/
theorem whole_of_shows {target : Target} {v : Value} {entry : Entry} (h : Shows target v entry) :
    Whole entry := by
  cases entry with
  | result m => trivial
  | piece c =>
    cases c with
    | text _ | image _ | audio _ | call _ => trivial
    | document file =>
      have hdocument : ∃ data, IsDocument file data := by
        cases target with
        | anthropic => exact ⟨_, h.2⟩
        | gemini => exact ⟨_, h⟩
        | bedrock => exact ⟨_, h⟩
      obtain ⟨_, data, hdata, -⟩ := hdocument
      exact ⟨data, hdata⟩

/-- A block that shows an entry, if the entry can be shown at all. -/
def Renders (target : Target) (v : Value) (entry : Entry) : Prop := Whole entry → Shows target v entry

theorem renders_part {target : Target} {part : ContentPart} {v : Value}
    (h : target.part part = .ok v) : Renders target v (.piece part.carrier) := by
  intro hwhole
  cases target with
  | anthropic => exact anthropic_shows h hwhole
  | gemini => exact gemini_shows h hwhole
  | bedrock => exact bedrock_shows h hwhole

theorem renders_text (target : Target) (s : String) :
    Renders target (textBlock target s) (.piece (.text s)) := by
  have hpart : target.part (.text s) = .ok (textBlock target s) := by
    cases target <;> rfl
  exact renders_part hpart

section
variable {serdeError : String → String} {target : Target}

theorem isInput_toolInput {call : ToolCall} {input : Value}
    (h : toolInput serdeError call = .ok input) : IsInput call input := by
  unfold toolInput at h
  by_cases hblank : Text.trim call.function.arguments = ""
  · rw [if_pos hblank] at h
    cases h
    exact .inl ⟨hblank, rfl⟩
  · rw [if_neg hblank] at h
    cases hparse : fromStr call.function.arguments with
    | none =>
      rw [hparse] at h
      cases h
    | some v =>
      rw [hparse] at h
      cases h
      exact .inr hparse

theorem renders_call {call : ToolCall} {v : Value} (h : toolUse serdeError target call = .ok v) :
    Renders target v (.piece (.call call)) := by
  intro _
  obtain ⟨input, hinput, rfl⟩ := exists_of_map h
  have hsame := isInput_toolInput hinput
  cases target with
  | anthropic =>
    simpa [Shows, AnthropicShows, Target.call, Anthropic.toolUseBlock, Value.index_ofMembers]
      using hsame
  | gemini =>
    simpa [Shows, GeminiShows, Target.call, Gemini.functionCallPart, Value.index_ofMembers]
      using hsame
  | bedrock =>
    simpa [Shows, BedrockShows, Target.call, Bedrock.toolUseBlock, Value.index_ofMembers]
      using hsame

theorem renders_answer {messages : List Message} {m : Message} {v : Value}
    (h : toolAnswer target messages m = .ok v) : Renders target v (.result m) := by
  intro _
  cases target with
  | anthropic =>
    unfold toolAnswer at h
    dsimp only at h
    cases hid : m.toolCallId with
    | none =>
      rw [hid] at h
      cases h
    | some id =>
      rw [hid] at h
      cases h
      simp [Shows, AnthropicShows, Anthropic.toolResult, Value.index_ofMembers, hid]
  | gemini =>
    cases h
    have hanswer : IsObjectOf (resultText m) (Gemini.response (resultText m)) ∨
        (Gemini.response (resultText m)).index "result" = .string (resultText m) := by
      unfold Gemini.response
      cases hparse : (fromStr (resultText m)).filter Value.isObject with
      | none => exact .inr rfl
      | some v => exact .inl (Option.filter_eq_some_iff.mp hparse)
    simpa [Shows, GeminiShows, Gemini.functionResponse, Value.index_ofMembers] using hanswer
  | bedrock =>
    cases h
    have hanswer : IsObjectOf (resultText m) (((Bedrock.content (resultText m)).at_ 0).index "json") ∨
        ((Bedrock.content (resultText m)).at_ 0).index "text" = .string (resultText m) := by
      unfold Bedrock.content
      cases hparse : (fromStr (resultText m)).filter Value.isObject with
      | none => exact .inr rfl
      | some v => exact .inl (Option.filter_eq_some_iff.mp hparse)
    simpa [Shows, BedrockShows, Bedrock.toolResult, Value.index_ofMembers] using hanswer

/-! ## What the messages push -/

theorem renders_blocks {m : Message} {blocks : List Value} (h : contentBlocks target m = .ok blocks) :
    List.Forall₂ (Renders target) blocks (m.parts.map .piece) := by
  unfold contentBlocks at h
  cases hcontent : m.content with
  | none =>
    rw [hcontent] at h
    cases h
    rw [CodexInput.parts_of_none hcontent]
    exact .nil
  | some content =>
    rw [hcontent] at h
    rw [CodexInput.parts_of_content hcontent]
    cases content with
    | text s =>
      dsimp only at h
      rw [carriers_text]
      by_cases hs : s = ""
      · rw [if_pos hs] at h ⊢
        cases h
        exact .nil
      · rw [if_neg hs] at h ⊢
        cases h
        exact .cons (renders_text target s) .nil
    | parts ps =>
      show List.Forall₂ (Renders target) blocks ((ps.map ContentPart.carrier).map .piece)
      rw [List.map_map, List.forall₂_map_right_iff]
      exact (forall₂_of_mapM h).flip.imp fun v part hpart => renders_part hpart

theorem renders_calls {calls : List ToolCall} {blocks : List Value}
    (h : calls.mapM (toolUse serdeError target) = .ok blocks) :
    List.Forall₂ (Renders target) blocks ((calls.map Carrier.call).map .piece) := by
  rw [List.map_map, List.forall₂_map_right_iff]
  exact (forall₂_of_mapM h).flip.imp fun v call hcall => renders_call hcall

/-- What a message pushes renders the entries that are taken of it. -/
structure Pushes (target : Target) (turn : String × List Value) (m : Message) : Prop where
  role : turn.1 = side target m
  renders : List.Forall₂ (Renders target) turn.2 (sent m)

theorem pushed_spec {messages : List Message} {m : Message} {found : Option (String × List Value)}
    (h : pushed serdeError target messages m = .ok found) :
    (isSystem m ∧ found = none) ∨
      (¬ isSystem m ∧ ∃ turn, found = some turn ∧ Pushes target turn m) := by
  unfold pushed at h
  by_cases hsystem : isSystem m
  · rw [if_pos hsystem] at h
    cases h
    exact .inl ⟨hsystem, rfl⟩
  rw [if_neg hsystem] at h
  right
  refine ⟨hsystem, ?_⟩
  by_cases huser : m.role = "user"
  · rw [if_pos huser] at h
    obtain ⟨blocks, hblocks, hpure⟩ := exists_of_bind h
    cases hpure
    have hnames : ¬ m.role = "tool" ∧ ¬ m.role = "assistant" := by
      rw [huser]
      decide
    refine ⟨_, rfl, ?_, ?_⟩
    · unfold side
      rw [if_neg hnames.2]
    · unfold sent
      rw [if_neg hnames.1, if_neg hnames.2]
      exact renders_blocks hblocks
  rw [if_neg huser] at h
  by_cases hassistant : m.role = "assistant"
  · rw [if_pos hassistant] at h
    obtain ⟨blocks, hblocks, hrest⟩ := exists_of_bind h
    obtain ⟨calls, hcalls, hpure⟩ := exists_of_bind hrest
    cases hpure
    have hname : ¬ m.role = "tool" := by
      rw [hassistant]
      decide
    refine ⟨_, rfl, ?_, ?_⟩
    · unfold side
      rw [if_pos hassistant]
    · unfold sent Message.carriers
      rw [if_neg hname, if_pos hassistant, List.map_append]
      exact List.rel_append (renders_blocks hblocks) (renders_calls hcalls)
  rw [if_neg hassistant] at h
  by_cases htool : m.role = "tool"
  · rw [if_pos htool] at h
    obtain ⟨block, hblock, hpure⟩ := exists_of_bind h
    cases hpure
    refine ⟨_, rfl, ?_, ?_⟩
    · unfold side
      rw [if_neg hassistant]
    · unfold sent
      rw [if_pos htool]
      exact .cons (renders_answer hblock) .nil
  · rw [if_neg htool] at h
    cases h

/-- The pieces that are pushed, one for each message that is not the system's. -/
theorem pieces_spec {all messages : List Message} {found : List (Option (String × List Value))}
    (h : messages.mapM (pushed serdeError target all) = .ok found) :
    List.Forall₂ (Pushes target) found.reduceOption (messages.filter fun m => ¬ isSystem m) := by
  have hall := forall₂_of_mapM h
  clear h
  induction hall with
  | nil => exact .nil
  | cons hm _ ih =>
    rcases pushed_spec hm with ⟨hsystem, rfl⟩ | ⟨hsystem, turn, rfl, hturn⟩
    · rw [List.reduceOption_cons_of_none, List.filter_cons_of_neg (by simpa using hsystem)]
      exact ih
    · rw [List.reduceOption_cons_of_some, List.filter_cons_of_pos (by simpa using hsystem)]
      exact .cons hturn ih

end

/-! ## The entries -/

section
variable {target : Target}

theorem due_of_system {m : Message} (h : isSystem m) : due m = [] := if_pos h

theorem lost_of_system {m : Message} (h : isSystem m) : lost m = [] := if_pos (.inl h)

/-- What is taken and what is lost is what there is. -/
theorem due_eq {m : Message} (h : ¬ isSystem m) : due m = sent m ++ (lost m).map .piece := by
  unfold due lost sent
  rw [if_neg h]
  by_cases htool : m.role = "tool"
  · have hother : ¬ (isSystem m ∨ m.role = "assistant") := by
      rw [htool, not_or]
      exact ⟨h, by decide⟩
    rw [if_pos htool, if_pos htool, if_neg hother, if_pos htool]
    rfl
  · rw [if_neg htool, if_neg htool]
    by_cases hassistant : m.role = "assistant"
    · rw [if_pos hassistant, if_pos (.inr hassistant), List.map_nil, List.append_nil]
    · rw [if_neg hassistant, if_neg (not_or.mpr ⟨h, hassistant⟩), if_neg htool]
      unfold Message.carriers
      rw [List.map_append]

/-- The entries that are taken, each with the role of its turn. -/
def taken (target : Target) (messages : List Message) : List (String × Entry) :=
  tagged (spoken target messages)

theorem spoken_of_system {m : Message} (h : isSystem m) (messages : List Message) :
    spoken target (m :: messages) = spoken target messages := by
  unfold spoken
  rw [List.filter_cons_of_neg (by simpa using h)]

theorem spoken_cons {m : Message} (h : ¬ isSystem m) (messages : List Message) :
    spoken target (m :: messages) = (side target m, sent m) :: spoken target messages := by
  unfold spoken
  rw [List.filter_cons_of_pos (by simpa using h), List.map_cons]

theorem length_expected (target : Target) (messages : List Message) :
    (expected target messages).length =
      (taken target messages).length + (messages.map fun m => (lost m).length).sum := by
  induction messages with
  | nil => rfl
  | cons m rest ih =>
    unfold taken expected at ih ⊢
    rw [List.flatMap_cons, List.length_append, ih, List.map_cons, List.sum_cons, List.length_map]
    by_cases h : isSystem m
    · rw [due_of_system h, lost_of_system h, spoken_of_system h]
      show 0 + _ = _ + (0 + _)
      omega
    · have hhead : ((sent m).map fun e => (side target m, e)).length = (sent m).length :=
        List.length_map _
      rw [spoken_cons h, tagged_cons, due_eq h, List.length_append, List.length_append,
        List.length_map, hhead]
      omega

theorem expected_of_taken {messages : List Message} (h : ∀ m ∈ messages, lost m = []) :
    expected target messages = taken target messages := by
  induction messages with
  | nil => rfl
  | cons m rest ih =>
    have hrest := ih fun m hm => h m (List.mem_cons_of_mem _ hm)
    unfold taken expected at hrest ⊢
    rw [List.flatMap_cons, hrest]
    by_cases hsystem : isSystem m
    · rw [due_of_system hsystem, spoken_of_system hsystem]
      rfl
    · rw [spoken_cons hsystem, tagged_cons, due_eq hsystem, h m List.mem_cons_self, List.map_nil,
        List.append_nil]

theorem mem_taken {messages : List Message} {entry : String × Entry} :
    entry ∈ taken target messages ↔
      ∃ m ∈ messages, ¬ isSystem m ∧ ∃ e ∈ sent m, (side target m, e) = entry := by
  simp [taken, tagged, spoken, and_assoc]

/-- The pieces render what is taken, block by block. -/
theorem renders_tagged {ps : List (String × List Value)} {messages : List Message}
    (h : List.Forall₂ (Pushes target) ps messages) :
    List.Forall₂ (fun block entry => block.1 = entry.1 ∧ Renders target block.2 entry.2) (tagged ps)
      (tagged (messages.map fun m => (side target m, sent m))) := by
  induction h with
  | nil => exact .nil
  | cons hpushes _ ih =>
    rw [List.map_cons, tagged_cons, tagged_cons]
    refine List.rel_append ?_ ih
    rw [List.forall₂_map_left_iff, List.forall₂_map_right_iff]
    exact hpushes.renders.imp fun v e he => ⟨hpushes.role, he⟩

theorem alike_pieces {ps : List (String × List Value)} {messages : List Message}
    (h : List.Forall₂ (Pushes target) ps messages) :
    List.Forall₂ Alike ps (messages.map fun m => (side target m, sent m)) := by
  rw [List.forall₂_map_right_iff]
  exact h.imp fun turn m hpushes => ⟨hpushes.role, hpushes.renders.length_eq⟩

/-! ## The turns that are made of them -/

theorem foldl_pushFilled (ps turns : List (String × List Value)) :
    ps.foldl pushFilled turns = (ps.filter filled).foldl push turns := by
  rw [List.foldl_filter]
  rfl

theorem turnsOf_eq_skipped {target : Target} (h : target ≠ .anthropic)
    (ps : List (String × List Value)) : turnsOf target ps = merge (ps.filter filled) := by
  cases target with
  | anthropic => exact absurd rfl h
  | gemini | bedrock => exact foldl_pushFilled ps []

theorem tagged_turnsOf (ps : List (String × List Value)) : tagged (turnsOf target ps) = tagged ps := by
  by_cases h : target = .anthropic
  · subst h
    show tagged ((merge ps).filter filled) = tagged ps
    rw [tagged_filter, tagged_merge]
  · rw [turnsOf_eq_skipped h, tagged_merge, tagged_filter]

theorem filled_turnsOf (ps : List (String × List Value)) :
    ∀ turn ∈ turnsOf target ps, turn.2 ≠ [] := by
  intro turn hturn
  rw [← filled_iff]
  by_cases h : target = .anthropic
  · subst h
    exact (List.mem_filter.mp hturn).2
  · rw [turnsOf_eq_skipped h] at hturn
    exact filled_merge (fun p hp => (List.mem_filter.mp hp).2) turn hturn

/-- Where a turn without content is not opened, turns alternate by themselves. -/
theorem alternating_turnsOf (ps : List (String × List Value)) :
    Alternating (turnsOf target ps) ↔ (target = .anthropic → Unbroken ps) := by
  by_cases h : target = .anthropic
  · subst h
    exact (alternating_filter_merge ps).trans ⟨fun hunbroken _ => hunbroken, fun h => h rfl⟩
  · rw [turnsOf_eq_skipped h]
    exact iff_of_true (alternating_merge _) fun hanthropic => absurd hanthropic h

theorem turnValue_injective (target : Target) : Function.Injective (turnValue target) := by
  have hread : ∀ turn : String × List Value,
      (turnValue target turn).index "role" = .string turn.1 ∧
        (turnValue target turn).index target.field = .array turn.2 := by
    intro turn
    cases target <;> simp [turnValue, Target.field, Value.index_ofMembers]
  intro a b h
  have hrole := congrArg (Value.index · "role") h
  have hblocks := congrArg (Value.index · target.field) h
  rw [(hread a).1, (hread b).1] at hrole
  rw [(hread a).2, (hread b).2] at hblocks
  exact Prod.ext (Value.string.inj hrole) (Value.array.inj hblocks)

theorem shown_of_mem {blocks : List (String × Value)} {entries : List (String × Entry)}
    (h : List.Forall₂ (ShowsUnder target) blocks entries) :
    ∀ entry ∈ entries, Whole entry.2 := by
  induction h with
  | nil => exact fun entry hentry => by cases hentry
  | cons hshows _ ih =>
    intro entry hentry
    rcases List.mem_cons.mp hentry with rfl | hentry
    · exact whole_of_shows hshows.2
    · exact ih entry hentry

theorem shows_of_renders {blocks : List (String × Value)} {entries : List (String × Entry)}
    (h : List.Forall₂ (fun block entry => block.1 = entry.1 ∧ Renders target block.2 entry.2)
      blocks entries) (hwhole : ∀ entry ∈ entries, Whole entry.2) :
    List.Forall₂ (ShowsUnder target) blocks entries := by
  induction h with
  | nil => exact .nil
  | cons hrenders _ ih =>
    refine .cons ⟨hrenders.1, hrenders.2 (hwhole _ List.mem_cons_self)⟩ ?_
    exact ih fun entry hentry => hwhole entry (List.mem_cons_of_mem _ hentry)

end

/-- **A conversation as turns.** A conversation that is accepted arrives whole, in turns
that alternate, unless a message has what its branch does not take, a document comes
without its data, or, for Anthropic, an empty turn is dropped from between two of one
role. -/
theorem carried_iff (serdeError : String → String) (target : Target) (messages : List Message)
    (out : List Value) (h : translateMessages serdeError target messages = .ok out) :
    Carried target messages out ↔ Carriable target messages := by
  obtain ⟨found, hfound, hpure⟩ := exists_of_bind h
  cases hpure
  have hpieces := pieces_spec hfound
  have hrenders := renders_tagged hpieces
  have hunbroken := unbroken_alike (alike_pieces hpieces)
  constructor
  · rintro ⟨turns, hturns, halternating, -, hshows⟩
    have hsame := List.map_injective_iff.mpr (turnValue_injective target) hturns
    rw [← hsame] at halternating hshows
    rw [tagged_turnsOf] at hshows
    -- There is a block for each entry that is taken, and none for one that is lost.
    have htaken : (tagged found.reduceOption).length = (taken target messages).length :=
      hrenders.length_eq
    have hshown := hshows.length_eq
    have hlength := length_expected target messages
    have hzero : (messages.map fun m => (lost m).length).sum = 0 := by omega
    have hlost : ∀ m ∈ messages, lost m = [] := by
      intro m hm
      rw [List.sum_eq_zero_iff_forall_eq_nat] at hzero
      exact List.length_eq_zero_iff.mp (hzero _ (List.mem_map_of_mem hm))
    refine ⟨hlost, ?_, ?_⟩
    · intro m hm hsystem entry hentry
      rw [expected_of_taken hlost] at hshows
      exact shown_of_mem hshows _ (mem_taken.mpr ⟨m, hm, hsystem, entry, hentry, rfl⟩)
    · intro hanthropic
      exact hunbroken.mp ((alternating_turnsOf _).mp halternating hanthropic)
  · intro hcarriable
    refine ⟨_, rfl, ?_, filled_turnsOf _, ?_⟩
    · rw [alternating_turnsOf]
      exact fun hanthropic => hunbroken.mpr (hcarriable.unbroken hanthropic)
    · rw [tagged_turnsOf, expected_of_taken hcarriable.taken]
      refine shows_of_renders hrenders ?_
      intro entry hentry
      obtain ⟨m, hm, hsystem, e, he, rfl⟩ := mem_taken.mp hentry
      exact hcarriable.whole m hm hsystem e he

def said (role text : String) : Message where
  role := role
  content := some (.text text)
  toolCalls := none
  toolCallId := none
  name := none

theorem carried_greeting :
    Carried .anthropic [said "system" "be brief", said "user" "hello"]
      [turnValue .anthropic ("user", [textBlock .anthropic "hello"])] := by
  refine (carried_iff (fun _ => "") .anthropic _ _ rfl).mpr ⟨?_, ?_, ?_⟩
  · intro m hm
    rcases List.mem_cons.mp hm with rfl | hm
    · rfl
    · rw [List.mem_singleton] at hm
      subst hm
      rfl
  · intro m hm hsystem
    rcases List.mem_cons.mp hm with rfl | hm
    · exact absurd (Or.inl rfl) hsystem
    · rw [List.mem_singleton] at hm
      subst hm
      intro entry hentry
      rw [List.mem_singleton.mp hentry]
      trivial
  · intro _
    show Unbroken [("user", [Entry.piece (.text "hello")])]
    exact unbroken_cons.mpr ⟨unbroken_nil, fun _ => follows_nil _⟩

/-- An assistant's turn without content between two of the user's. -/
def silentAnswer : List Message := [said "user" "a", said "assistant" "", said "user" "b"]

/-- It is dropped in the end, and the two turns stand next to each other. -/
theorem silentAnswer_broken :
    ∃ out, translateMessages (fun _ => "") .anthropic silentAnswer = .ok out ∧
      ¬ Carried .anthropic silentAnswer out := by
  refine ⟨[("user", [textBlock .anthropic "a"]), ("user", [textBlock .anthropic "b"])].map
    (turnValue .anthropic), rfl, ?_⟩
  rintro ⟨turns, hturns, halternating, -⟩
  have hsame := List.map_injective_iff.mpr (turnValue_injective .anthropic) hturns
  rw [← hsame] at halternating
  have hneighbours := List.isChain_cons_cons.mp halternating
  exact hneighbours.1 rfl

end RapidRouter.Providers.Turns
