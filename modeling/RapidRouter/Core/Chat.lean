import RapidRouter.Lib.Json.Value

/-!
# The chat model

`router-core/src/chat.rs`, the shape that every dialect is translated from. Beside the types of the source, `Carrier` is one piece of what a
message has to say, whatever it is, and `Message.carriers` lists the pieces in
order.
-/

namespace RapidRouter.Core

open Json

structure ImageUrl where
  url : String
  detail : Option String

inductive ContentPart where
  | text (text : String)
  | imageUrl (imageUrl : ImageUrl)
  | inputAudio (inputAudio : Value)
  | file (file : Value)

inductive Content where
  | text (text : String)
  | parts (parts : List ContentPart)

structure FunctionCall where
  name : String
  arguments : String

structure ToolCall where
  id : String
  callType : String
  function : FunctionCall

structure Message where
  role : String
  content : Option Content
  toolCalls : Option (List ToolCall)
  toolCallId : Option String
  name : Option String

structure FunctionDef where
  name : String
  description : Option String
  parameters : Option Value
  strict : Option Bool

structure Tool where
  toolType : String
  function : FunctionDef

/-- The fields of a request that have a type. -/
def ChatRequest.fields : List String :=
  ["model", "messages", "tools", "tool_choice", "parallel_tool_calls", "temperature", "top_p",
    "max_tokens", "max_completion_tokens", "stop", "n", "stream", "stream_options",
    "response_format", "logprobs", "presence_penalty", "frequency_penalty", "seed", "user"]

/-- A request. A float is the number that it is read from; `extra` is a map, flattened, so
it has none of the fields above it. -/
structure ChatRequest where
  model : String
  messages : List Message
  tools : Option (List Tool)
  toolChoice : Option Value
  parallelToolCalls : Option Bool
  temperature : Option Number
  topP : Option Number
  maxTokens : Option UInt64
  maxCompletionTokens : Option UInt64
  stop : Option Value
  n : Option UInt32
  stream : Option Bool
  streamOptions : Option Value
  responseFormat : Option Value
  logprobs : Option Bool
  presencePenalty : Option Number
  frequencyPenalty : Option Number
  seed : Option Int64
  user : Option String
  extra : List (String × Value)
  extra_sorted : Entries.Sorted extra
  extra_foreign : ∀ member ∈ extra, member.1 ∉ ChatRequest.fields

/-- The ceiling of the answer, whichever field carries it. -/
def ChatRequest.effectiveMaxTokens (req : ChatRequest) : Option UInt64 :=
  req.maxCompletionTokens.or req.maxTokens

def ContentPart.asText : ContentPart → Option String
  | .text s => some s
  | _ => none

/-- The parts that are text, one after the other. -/
def Content.asText : Content → String
  | .text s => s
  | .parts ps => String.join (ps.filterMap ContentPart.asText)

/-! ## What a message carries -/

/-- A piece of a message. -/
inductive Carrier where
  | text (text : String)
  | image (image : ImageUrl)
  | audio (audio : Value)
  | document (file : Value)
  | call (call : ToolCall)

namespace Carrier

def isText : Carrier → Bool
  | text _ => true
  | _ => false

def isImage : Carrier → Bool
  | image _ => true
  | _ => false

def isAudio : Carrier → Bool
  | audio _ => true
  | _ => false

def isDocument : Carrier → Bool
  | document _ => true
  | _ => false

def asText : Carrier → Option String
  | text s => some s
  | _ => none

end Carrier

def ContentPart.carrier : ContentPart → Carrier
  | .text s => .text s
  | .imageUrl image => .image image
  | .inputAudio audio => .audio audio
  | .file v => .document v

/-- An empty text is no part. -/
def Content.carriers : Content → List Carrier
  | .text s => if s = "" then [] else [.text s]
  | .parts ps => ps.map ContentPart.carrier

theorem carriers_text (s : String) :
    (Content.text s).carriers = if s = "" then [] else [.text s] := rfl

namespace Message

/-- The parts of the content. -/
def parts (m : Message) : List Carrier := (m.content.map Content.carriers).getD []

def calls (m : Message) : List ToolCall := m.toolCalls.getD []

/-- The parts of the content and then the calls, as a message has them. -/
def carriers (m : Message) : List Carrier := m.parts ++ m.calls.map Carrier.call

end Message

theorem asText_carriers (content : Content) :
    content.asText = String.join (content.carriers.filterMap Carrier.asText) := by
  cases content with
  | text s =>
    by_cases hs : s = ""
    · subst hs
      rfl
    · show s = String.join ((if s = "" then [] else [Carrier.text s]).filterMap Carrier.asText)
      rw [if_neg hs]
      show s = String.join [s]
      rw [String.join_cons, String.join_nil, String.append_empty]
  | parts ps =>
    have hpart : ∀ part ∈ ps, part.asText = (Carrier.asText ∘ ContentPart.carrier) part := by
      intro part _
      cases part <;> rfl
    show String.join (ps.filterMap ContentPart.asText) =
      String.join ((ps.map ContentPart.carrier).filterMap Carrier.asText)
    rw [List.filterMap_map, List.filterMap_congr hpart]

end RapidRouter.Core
