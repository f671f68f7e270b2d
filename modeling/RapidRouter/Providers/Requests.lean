import RapidRouter.Providers.Turns

/-!
# Requests for other dialects

`build_request` of `anthropic.rs`, `gemini.rs` and `bedrock.rs`, and `codex_request`
(`subscription.rs`): the body of an upstream request, and the names of the parameters
that it leaves out. Each goes through the fields of a request on its own.
-/

namespace RapidRouter.Providers.Requests

open Json Core
open Json.Value (given)
open CodexInput (isSystem)

/-- Why there is no request. A map that is indexed at a key it does not have panics. -/
inductive Failure where
  | error (e : GatewayError)
  | panic

structure BuiltRequest where
  body : Value
  droppedParams : List String

/-! ## What the builders share -/

def refused (message param : String) : Failure :=
  .error ((GatewayError.new .invalidRequest message).withParam param)

/-- A request that asks for what there is not. -/
def reject (asked : Bool) (message param : String) : Except Failure Unit :=
  if asked then .error (refused message param) else .ok ()

def ofError {α : Type} : Except GatewayError α → Except Failure α
  | .ok a => .ok a
  | .error e => .error (.error e)

def ofU64 (n : UInt64) : Value := .number (.posInt n.toNat n.toNat_lt)

def ofU32 (n : UInt32) : Value :=
  .number (.posInt n.toNat (Nat.lt_trans n.toNat_lt (by decide)))

def ofText : Option String → Value
  | some s => .string s
  | none => .null

/-- The texts of the system's messages. -/
def systemTexts (req : ChatRequest) : List String :=
  (req.messages.filter fun m => isSystem m).filterMap fun m => m.content.map Content.asText

def joinedSystem (req : ChatRequest) : Option String :=
  if (systemTexts req).isEmpty then none else some ("\n\n".intercalate (systemTexts req))

/-- One stop sequence is a list of one. -/
def stopSequences : Value → Value
  | .string s => .array [.string s]
  | other => other

/-- The schema of a function's parameters, which an API wants in any case. -/
def schemaOf (tool : Core.Tool) : Value :=
  tool.function.parameters.getD (.ofMembers [("type", .string "object")])

/-- `tool_choice` is the string `none`. -/
def choosesNone (req : ChatRequest) : Bool := (req.toolChoice.bind Value.asStr) = some "none"

/-- `o["function"]["name"]` of a map, which panics without a function. -/
def functionName (choice : Value) : Except Failure Value :=
  match choice.get? "function" with
  | some f => .ok (f.index "name")
  | none => .error .panic

/-- The names of the parameters that are there. -/
def named (params : List (String × Bool)) : List String :=
  params.filterMap fun param => if param.2 then some param.1 else none

def extraKeys (req : ChatRequest) : List String := req.extra.map Prod.fst

def extraValue (req : ChatRequest) (key : String) : Option Value := Entries.find? key req.extra

/-! ## Reasoning -/

/-- The levels of `reasoning_profile` (`presets.rs`), by the name after the last slash. -/
def reasoningLevels (model : String) : List String :=
  let model := (Text.split '/' model).getLast?.getD model
  if model = "gpt-5.6-sol" ∨ model = "gpt-5.6-terra" then
    ["low", "medium", "high", "xhigh", "max", "ultra"]
  else if model = "gpt-5.6-luna" then ["low", "medium", "high", "xhigh", "max"]
  else if model ∈ ["gpt-5.5", "gpt-5.5-codex", "gpt-5.4", "gpt-5.4-mini"] then
    ["low", "medium", "high", "xhigh"]
  else if model ∈ ["claude-fable-5", "claude-opus-5", "claude-opus-4-8", "claude-opus-4-7",
      "claude-sonnet-5"] then
    ["low", "medium", "high", "xhigh", "max"]
  else if model = "claude-opus-4-6" ∨ model = "claude-sonnet-4-6" then
    ["low", "medium", "high", "max"]
  else if model = "claude-opus-4-5" then ["low", "medium", "high"]
  else []

/-! ## Anthropic -/

namespace Anthropic

structure BuiltRequest extends Requests.BuiltRequest where
  jsonSchemaEmulated : Bool

def defaultMaxTokens : UInt64 := 4096

/-- `JSON_SCHEMA_TOOL` -/
def jsonSchemaTool : String := "__rapid_json_output"

def tool (t : Core.Tool) : Value :=
  .ofMembers [("name", .string t.function.name), ("description", ofText t.function.description),
    ("input_schema", schemaOf t)]

/-- The tools of the client, none when it chooses none. -/
def clientTools (req : ChatRequest) : Option (List Value) :=
  if choosesNone req then none else req.tools.map (List.map tool)

/-- The members of the choice. An unknown name is taken for `auto`. -/
def choice : Option Value → Except Failure (Option (List (String × Value)))
  | some (.string s) =>
    .ok (if s = "none" then none
      else if s = "required" then some [("type", .string "any")]
      else some [("type", .string "auto")])
  | some (.object members) => (functionName (.object members)).map fun name =>
      name.asStr.map fun name => [("type", .string "tool"), ("name", .string name)]
  | _ => .ok none

/-- `disable_parallel_tool_use`, where there is a choice to put it in. -/
def withParallel (req : ChatRequest) (members : List (String × Value)) : Value :=
  .ofMembers (members ++
    given "disable_parallel_tool_use"
      (if req.parallelToolCalls = some false then some (.bool true) else none))

/-- The schema of a format that is emulated. -/
def emulated : Option Value → Except Failure (Option Value)
  | none => .ok none
  | some format =>
    match (format.index "type").asStr with
    | some type =>
      if type = "json_schema" then .ok (some ((format.index "json_schema").index "schema"))
      else if type = "json_object" ∨ type = "text" then .ok none
      else .error (refused ("unsupported response_format type `" ++ type ++
        "` for Anthropic models") "response_format")
    | none => .ok none

/-- The tool that takes the answer. -/
def schemaTool (schema : Value) : Value :=
  .ofMembers [("name", .string jsonSchemaTool),
    ("description",
      .string "Emit the response as structured output matching the schema."),
    ("input_schema", schema)]

def allTools (tools : Option (List Value)) : Option Value → Option (List Value)
  | some schema => some (tools.getD [] ++ [schemaTool schema])
  | none => tools

/-- The choice of the tool that takes the answer is instead of any other. -/
def finalChoice (choice : Option Value) : Option Value → Option Value
  | some _ => some (.ofMembers [("type", .string "tool"), ("name", .string jsonSchemaTool)])
  | none => choice

/-- The effort, if the model has it. -/
def effort (req : ChatRequest) (model : String) : Option String :=
  ((extraValue req "reasoning_effort").bind Value.asStr).filter (· ∈ reasoningLevels model)

/-- The parameters that the dialect has no word for. -/
def unsupported (req : ChatRequest) : List (String × Bool) :=
  [("presence_penalty", req.presencePenalty.isSome),
    ("frequency_penalty", req.frequencyPenalty.isSome), ("seed", req.seed.isSome),
    ("stream_options", req.streamOptions.isSome)]

def dropped (req : ChatRequest) (model : String) : List String :=
  named (unsupported req) ++
    (extraKeys req).filter fun key => ¬ (key = "reasoning_effort" ∧ (effort req model).isSome)

def body (req : ChatRequest) (model : String) (messages : List Value)
    (choice schema : Option Value) : Value :=
  .ofMembers ([("model", .string model),
      ("max_tokens", ofU64 (req.effectiveMaxTokens.getD defaultMaxTokens))] ++
    given "system" ((joinedSystem req).map Value.string) ++
    [("messages", .array messages)] ++
    given "temperature" (req.temperature.map Value.number) ++
    given "top_p" (req.topP.map Value.number) ++
    given "stop_sequences" (req.stop.map stopSequences) ++
    given "stream" (if req.stream = some true then some (.bool true) else none) ++
    given "output_config"
      ((effort req model).map fun effort => .ofMembers [("effort", .string effort)]) ++
    given "tools" ((allTools (clientTools req) schema).map Value.array) ++
    given "tool_choice" (finalChoice choice schema))

def buildRequest (serdeError : String → String) (req : ChatRequest) (model : String) :
    Except Failure Anthropic.BuiltRequest := do
  let _ ← reject (req.n.any (1 < ·)) "`n > 1` is not supported by Anthropic models" "n"
  let _ ← reject (req.logprobs = some true) "`logprobs` is not supported by Anthropic models"
    "logprobs"
  let messages ← ofError (Turns.translateMessages serdeError .anthropic req.messages)
  let choice ← choice req.toolChoice
  let schema ← emulated req.responseFormat
  return ⟨⟨body req model messages (choice.map (withParallel req)) schema, dropped req model⟩,
    schema.isSome⟩

end Anthropic

/-! ## Gemini -/

namespace Gemini

mutual

/-- `strip_unsupported_schema_fields` -/
def strip : Value → Value
  | .object members => .object (stripMembers members)
  | .array items => .array (stripItems items)
  | v => v

def stripItems : List Value → List Value
  | [] => []
  | v :: rest => strip v :: stripItems rest

def stripMembers : List (String × Value) → List (String × Value)
  | [] => []
  | (key, v) :: rest =>
    if key = "additionalProperties" ∨ key = "$schema" then stripMembers rest
    else (key, strip v) :: stripMembers rest

end

def declaration (t : Core.Tool) : Value :=
  .ofMembers [("name", .string t.function.name), ("description", ofText t.function.description),
    ("parameters", strip (schemaOf t))]

/-- The type of a format, when it has one. -/
def formatType (req : ChatRequest) : Option String :=
  req.responseFormat.bind fun format => (format.index "type").asStr

def mimeType (req : ChatRequest) : Option Value :=
  if formatType req = some "json_schema" ∨ formatType req = some "json_object" then
    some (.string "application/json")
  else none

def responseSchema (req : ChatRequest) : Option Value :=
  if formatType req = some "json_schema" then
    req.responseFormat.map fun format => strip ((format.index "json_schema").index "schema")
  else none

def generation (req : ChatRequest) : List (String × Value) :=
  given "temperature" (req.temperature.map Value.number) ++
  given "topP" (req.topP.map Value.number) ++
  given "maxOutputTokens" (req.effectiveMaxTokens.map ofU64) ++
  given "stopSequences" (req.stop.map stopSequences) ++
  given "candidateCount" (req.n.map ofU32) ++
  given "responseMimeType" (mimeType req) ++
  given "responseSchema" (responseSchema req)

/-- The mode of calling. Any map is a function by its name. -/
def mode : Value → Except Failure Value
  | .string s =>
    .ok (.ofMembers [("mode", .string
      (if s = "none" then "NONE" else if s = "required" then "ANY" else "AUTO"))])
  | .object members => (functionName (.object members)).map fun name =>
      .ofMembers [("mode", .string "ANY"), ("allowedFunctionNames", .array [name])]
  | _ => .ok (.ofMembers [("mode", .string "AUTO")])

def choice : Option Value → Except Failure (Option Value)
  | some v => (mode v).map some
  | none => .ok none

def unsupported (req : ChatRequest) : List (String × Bool) :=
  [("presence_penalty", req.presencePenalty.isSome),
    ("frequency_penalty", req.frequencyPenalty.isSome), ("seed", req.seed.isSome),
    ("stream_options", req.streamOptions.isSome),
    ("parallel_tool_calls", req.parallelToolCalls.isSome)]

def dropped (req : ChatRequest) : List String := named (unsupported req) ++ extraKeys req

def body (req : ChatRequest) (contents : List Value) (mode : Option Value) : Value :=
  .ofMembers (given "systemInstruction" ((joinedSystem req).map fun text =>
      .ofMembers [("parts", .array [.ofMembers [("text", .string text)]])]) ++
    [("contents", .array contents)] ++
    given "generationConfig"
      (if (generation req).isEmpty then none else some (.ofMembers (generation req))) ++
    given "tools" (req.tools.map fun tools =>
      .array [.ofMembers [("functionDeclarations", .array (tools.map declaration))]]) ++
    given "toolConfig" (mode.map fun mode => .ofMembers [("functionCallingConfig", mode)]))

/-- What the path asks for (`build_outbound`). -/
def action (stream : Bool) : String :=
  if stream then "streamGenerateContent?alt=sse" else "generateContent"

def buildRequest (serdeError : String → String) (req : ChatRequest) :
    Except Failure BuiltRequest := do
  let _ ← reject (req.logprobs = some true) "`logprobs` is not supported for Gemini models"
    "logprobs"
  let contents ← ofError (Turns.translateMessages serdeError .gemini req.messages)
  let mode ← choice req.toolChoice
  return ⟨body req contents mode, dropped req⟩

end Gemini

/-! ## Bedrock -/

namespace Bedrock

def spec (t : Core.Tool) : Value :=
  .ofMembers [("toolSpec", .ofMembers [("name", .string t.function.name),
    ("description", ofText t.function.description),
    ("inputSchema", .ofMembers [("json", schemaOf t)])])]

def inference (req : ChatRequest) : List (String × Value) :=
  given "maxTokens" (req.effectiveMaxTokens.map ofU64) ++
  given "temperature" (req.temperature.map Value.number) ++
  given "topP" (req.topP.map Value.number) ++
  given "stopSequences" (req.stop.map stopSequences)

def choice : Option Value → Except Failure (Option Value)
  | some (.string s) =>
    .ok (if s = "required" then some (.ofMembers [("any", .ofMembers [])])
      else if s = "auto" then some (.ofMembers [("auto", .ofMembers [])])
      else none)
  | some (.object members) => (functionName (.object members)).map fun name =>
      name.asStr.map fun name => .ofMembers [("tool", .ofMembers [("name", .string name)])]
  | _ => .ok none

/-- A choice goes with tools, or nowhere. -/
def toolConfig (req : ChatRequest) : Except Failure (Option Value) :=
  match req.tools with
  | some tools =>
    if choosesNone req then .ok none
    else (choice req.toolChoice).map fun choice =>
      some (.ofMembers ([("tools", .array (tools.map spec))] ++ given "toolChoice" choice))
  | none => .ok none

def unsupported (req : ChatRequest) : List (String × Bool) :=
  [("presence_penalty", req.presencePenalty.isSome),
    ("frequency_penalty", req.frequencyPenalty.isSome), ("seed", req.seed.isSome),
    ("response_format", req.responseFormat.isSome),
    ("stream_options", req.streamOptions.isSome),
    ("parallel_tool_calls", req.parallelToolCalls.isSome)]

def dropped (req : ChatRequest) : List String := named (unsupported req) ++ extraKeys req

def systemBlocks (req : ChatRequest) : Option Value :=
  let blocks := ((systemTexts req).filter (· ≠ "")).map fun text =>
    Value.ofMembers [("text", .string text)]
  if blocks.isEmpty then none else some (.array blocks)

def body (req : ChatRequest) (messages : List Value) (toolConfig : Option Value) : Value :=
  .ofMembers (given "system" (systemBlocks req) ++
    [("messages", .array messages)] ++
    given "inferenceConfig"
      (if (inference req).isEmpty then none else some (.ofMembers (inference req))) ++
    given "toolConfig" toolConfig)

/-- What the path asks for (`build_outbound`). -/
def action (stream : Bool) : String := if stream then "converse-stream" else "converse"

def buildRequest (serdeError : String → String) (req : ChatRequest) :
    Except Failure BuiltRequest := do
  let _ ← reject (req.n.any (1 < ·)) "`n > 1` is not supported by Bedrock models" "n"
  let _ ← reject (req.logprobs = some true) "`logprobs` is not supported by Bedrock models"
    "logprobs"
  let messages ← ofError (Turns.translateMessages serdeError .bedrock req.messages)
  let toolConfig ← toolConfig req
  return ⟨body req messages toolConfig, dropped req⟩

end Bedrock

/-! ## Codex -/

namespace Codex

/-- The knobs of a provider that go into a request. -/
structure CodexSettings where
  reasoningEffort : Option String
  verbosity : Option String

/-- `request_choice` -/
def requestChoice (req : ChatRequest) (name : String) : Option String :=
  ((extraValue req name).bind Value.asStr).filter (· ≠ "")

/-- `codex_text_format`: a schema's fields go up, any other format stays as it is. -/
def codexTextFormat (format : Option Value) : Option Value :=
  match format with
  | some (.object members) =>
    let format := Value.object members
    match (format.get? "type").bind Value.asStr with
    | none => none
    | some type =>
      if type = "text" then none
      else if type = "json_schema" then
        match format.get? "json_schema" with
        | some (.object nested) =>
          some (.object (Entries.insert "type" (.string "json_schema") nested))
        | _ => some format
      else some format
  | _ => none

/-- `codex_tool_choice`: a function's name goes up, anything else stays as it is. -/
def codexToolChoice (choice : Value) : Value :=
  match ((choice.get? "function").bind (·.get? "name")).bind Value.asStr with
  | some name => .ofMembers [("type", .string "function"), ("name", .string name)]
  | none => choice

def tool (t : Core.Tool) : Value :=
  .ofMembers [("type", .string "function"), ("name", .string t.function.name),
    ("description", ofText t.function.description),
    ("parameters", t.function.parameters.getD .null)]

def mentionsJson (message : Value) : Bool :=
  ((message.get? "content").bind Value.asArray).any fun parts =>
    parts.any fun part => ((part.get? "text").bind Value.asStr).any fun text =>
      Text.Occurs "json" (Text.toAsciiLowercase text)

/-- `JSON_OBJECT_HINT`, as a message of the user. -/
def jsonHint : Value :=
  .ofMembers [("type", .string "message"), ("role", .string "user"),
    ("content", .array [.ofMembers [("type", .string "input_text"),
      ("text", .string "Respond with a valid JSON object.")]])]

/-- `ensure_json_mentioned` -/
def ensureJsonMentioned (input : List Value) : List Value :=
  if input.any mentionsJson then input else input ++ [jsonHint]

section
-- The first half of a `blake3` digest in hexadecimal, and the identity of the turn.
variable (digest : Bytes → String) (clientMetadata : Value)

/-- `codex_cache_key` -/
def codexCacheKey (req : ChatRequest) (model instructions : String) : String :=
  (requestChoice req "prompt_cache_key").getD
    ("rr-" ++ digest (utf8 model ++ [0] ++ utf8 instructions ++
      (req.tools.getD []).flatMap fun t => 0 :: utf8 t.function.name))

def text (req : ChatRequest) (settings : CodexSettings) : List (String × Value) :=
  given "format" (codexTextFormat req.responseFormat) ++
  given "verbosity"
    (((requestChoice req "verbosity").or settings.verbosity).map Value.string)

/-- The tools, if there are any. -/
def tools (req : ChatRequest) : Option (List Core.Tool) := req.tools.filter fun tools => !tools.isEmpty

def unsupported (req : ChatRequest) : List (String × Bool) :=
  [("max_tokens", req.maxTokens.isSome || req.maxCompletionTokens.isSome),
    ("temperature", req.temperature.isSome), ("top_p", req.topP.isSome),
    ("stop", req.stop.isSome)]

/-- The extras that a body has a place for. -/
def carriedExtras : List String :=
  ["reasoning_effort", "verbosity", "metadata", "prompt_cache_key"]

def dropped (req : ChatRequest) : List String :=
  named (unsupported req) ++ (extraKeys req).filter (· ∉ carriedExtras)

def body (req : ChatRequest) (model : String) (settings : CodexSettings) (instructions : String)
    (input : List Value) : Value :=
  .ofMembers ([("model", .string model), ("stream", .bool true), ("store", .bool false),
      ("prompt_cache_key", .string (codexCacheKey digest req model instructions)),
      ("instructions", .string instructions), ("input", .array input),
      ("client_metadata", clientMetadata)] ++
    given "text"
      (if (text req settings).isEmpty then none else some (.ofMembers (text req settings))) ++
    given "reasoning" (((requestChoice req "reasoning_effort").or
      settings.reasoningEffort).map fun effort => .ofMembers [("effort", .string effort)]) ++
    given "tools" ((tools req).map fun tools => .array (tools.map tool)) ++
    given "tool_choice" ((tools req).bind fun _ => req.toolChoice.map codexToolChoice))

def codexRequest (req : ChatRequest) (model : String) (settings : CodexSettings) :
    Except Failure BuiltRequest := do
  let (instructions, input) ← ofError (CodexInput.splitSystemAndInput req.messages)
  let needsHint := ((codexTextFormat req.responseFormat).bind fun format =>
    (format.get? "type").bind Value.asStr) = some "json_object"
  return ⟨body digest clientMetadata req model settings (instructions.getD "You are Codex.")
    (if needsHint then ensureJsonMentioned input else input), dropped req⟩

end

end Codex

end RapidRouter.Providers.Requests
