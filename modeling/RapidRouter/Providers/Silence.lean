import RapidRouter.Providers.Params

/-!
# Bedrock and Codex in silence

What a request to Bedrock and to the Codex backend must be for all of its settings to be
kept, and with it what each of the four builders keeps.
-/

namespace RapidRouter.Providers.Requests

open Json Core
open Json.Value (given)
open Fallible

/-! ## Bedrock -/

namespace Bedrock

def Chooses (body : Value) : Choice → Prop
  | .auto => body.at? ["toolConfig", "toolChoice", "auto"] = some (.ofMembers [])
  | .none => body.get? "toolConfig" = none
  | .required => body.at? ["toolConfig", "toolChoice", "any"] = some (.ofMembers [])
  | .function name => body.at? ["toolConfig", "toolChoice", "tool", "name"] = some (.string name)

/-- Where a request has a setting. What only some models take has a place of its own. -/
def Represented (req : ChatRequest) (body : Value) : Setting → Prop
  | .tools tools => choosesNone req = true ∨
      DeclaresAll ["toolSpec"] ["inputSchema", "json"] id (body.at? ["toolConfig", "tools"]) tools
  | .toolChoice v => ∃ choice, Choice.ofValue v = some choice ∧ Chooses body choice
  | .temperature t => body.at? ["inferenceConfig", "temperature"] = some (.number t)
  | .topP p => body.at? ["inferenceConfig", "topP"] = some (.number p)
  | .maxTokens max | .maxCompletionTokens max =>
      body.at? ["inferenceConfig", "maxTokens"] = some (ofU64 max)
  | .stop stop => body.at? ["inferenceConfig", "stopSequences"] = some (stopSequences stop)
  | .n n => n = 1
  | .stream stream => action (req.stream = some true) = action true ↔ stream = true
  | .logprobs logprobs =>
      body.at? ["additionalModelRequestFields", "logprobs"] = some (.bool true) ↔ logprobs = true
  | .user user => body.at? ["requestMetadata", "user"] = some (.string user)
  | .extra key v => body.at? ["additionalModelRequestFields", key] = some v
  | s => (body.get? s.name).isSome

structure Whole (req : ChatRequest) : Prop where
  user : req.user = none
  n : req.n ≠ some 0
  ceiling : OneCeiling req
  choice : ∀ v, req.toolChoice = some v → ∃ choice, Choice.ofValue v = some choice ∧
    (choice = .none ∨ req.tools.isSome)

section
variable {req : ChatRequest} {messages : List Value} {config : Option Value}

theorem at?_inference (name : String) :
    (body req messages config).at? ["inferenceConfig", name] =
      Value.lastMember name (inference req) := by
  rw [← Value.bind_at?_nonempty, Value.at?_cons]
  simp [body, Value.get?_build]

theorem at?_maxTokens : (body req messages config).at? ["inferenceConfig", "maxTokens"] =
    req.effectiveMaxTokens.map ofU64 := by
  simp [at?_inference, inference]

theorem at?_toolConfig (path : List String) :
    (body req messages config).at? ("toolConfig" :: path) = config.bind (Value.at? path) := by
  rw [Value.at?_cons]
  simp [body, Value.get?_build]

theorem get?_toolConfig : (body req messages config).get? "toolConfig" = config := by
  simp [body, Value.get?_build]

/-- A body has no place for what only some models take. -/
theorem get?_foreign {name : String}
    (hname : name ∈ ["additionalModelRequestFields", "requestMetadata"]) :
    (body req messages config).get? name = none := by
  rcases List.mem_pair.mp hname with rfl | rfl <;> simp [body, Value.get?_build]

/-- What a choice is written as, with tools. -/
def choiceOf : Choice → Option Value
  | .auto => some (.ofMembers [("auto", .ofMembers [])])
  | .none => none
  | .required => some (.ofMembers [("any", .ofMembers [])])
  | .function name => some (.ofMembers [("tool", .ofMembers [("name", .string name)])])

theorem choice_of_known {v : Value} {c : Choice} (hv : Choice.ofValue v = some c) :
    Bedrock.choice (some v) = .ok (choiceOf c) := by
  cases v with
  | string s =>
    rcases Choice.of_string hv with ⟨rfl, rfl⟩ | ⟨rfl, rfl⟩ | ⟨rfl, rfl⟩ <;> rfl
  | object members =>
    obtain ⟨name, hname, rfl⟩ := Choice.of_object hv
    show (functionName (.object members)).map _ = _
    rw [hname]
    rfl
  | _ => cases hv

/-- There is a configuration when there are tools and they may be called. -/
theorem toolConfig_cases (h : toolConfig req = .ok config) :
    (req.tools = none ∨ choosesNone req = true) ∧ config = none ∨
      ∃ tools picked, req.tools = some tools ∧ ¬ choosesNone req = true ∧
        Bedrock.choice req.toolChoice = .ok picked ∧
        config = some (.ofMembers ([("tools", .array (tools.map spec))] ++
          given "toolChoice" picked)) := by
  unfold toolConfig at h
  split at h
  · next tools htools =>
    split at h
    · next hnone => exact Or.inl ⟨Or.inr hnone, (Except.ok.inj h).symm⟩
    · next hnone =>
      obtain ⟨picked, hchoice, hconfig⟩ := exists_of_map h
      exact Or.inr ⟨tools, picked, htools, hnone, hchoice, hconfig.symm⟩
  · next htools => exact Or.inl ⟨Or.inl htools, (Except.ok.inj h).symm⟩

theorem declares_spec (t : Core.Tool) :
    Declares ["toolSpec"] ["inputSchema", "json"] id (spec t) t := by
  refine ⟨?_, ?_, ?_⟩
  · simp [spec, Value.at?_cons, Value.at?_nil, Value.get?_build]
  · intro text htext
    simp [spec, Value.at?_cons, Value.at?_nil, Value.get?_build, htext, ofText]
  · intro v hv
    simp [spec, Value.at?_cons, Value.at?_nil, Value.get?_build, schemaOf, hv]

theorem represented_tools (h : toolConfig req = .ok config) {tools : List Core.Tool}
    (htools : req.tools = some tools) :
    Represented req (body req messages config) (.tools tools) := by
  rcases toolConfig_cases h with ⟨hnone, _⟩ | ⟨others, picked, hothers, _, _, hconfig⟩
  · rcases hnone with hnone | hnone
    · rw [hnone] at htools
      cases htools
    · exact Or.inl hnone
  · rw [hothers] at htools
    cases htools
    refine Or.inr ⟨tools.map spec, [], ?_, forall₂_declares declares_spec tools⟩
    rw [at?_toolConfig, hconfig, Option.bind_some, Value.at?_single]
    simp [Value.get?_build]

/-- A choice is in the body with the tools that it is of. -/
theorem chooses_iff (h : toolConfig req = .ok config) {v : Value} {c : Choice}
    (hv : req.toolChoice = some v) (hc : Choice.ofValue v = some c) :
    Chooses (body req messages config) c ↔ c = .none ∨ req.tools.isSome := by
  have hnone : choosesNone req = true ↔ c = .none := by
    rw [choosesNone_iff, hv, Option.some.injEq, ← Choice.ofValue_none_iff, hc, Option.some.injEq]
  rcases toolConfig_cases h with ⟨hwhy, rfl⟩ | ⟨tools, picked, htools, hcalls, hchoice, rfl⟩
  · rcases hwhy with htools | hnoCall
    · cases c <;> simp [Chooses, at?_toolConfig, get?_toolConfig, htools]
    · rw [hnone.mp hnoCall]
      simp [Chooses, get?_toolConfig]
  · rw [hv, choice_of_known hc] at hchoice
    cases hchoice
    cases c with
    | none => exact absurd (hnone.mpr rfl) hcalls
    | auto | required | function name =>
      simp [Chooses, get?_toolConfig, htools, choiceOf, Value.at?_cons, Value.at?_nil,
        Value.get?_build]

theorem kept_iff {represented : Setting → Prop} {s : Setting} (hs : s.isField = true)
    (hword : ∀ name ∈ s.names, (name, true) ∉ unsupported req) :
    Kept represented (dropped req) s ↔ represented s :=
  kept_field_iff hs (List.Subset.refl _) hword

theorem whole_of_noneLost (hconfig : toolConfig req = .ok config)
    (h : NoneLost req (Represented req (body req messages config)) (dropped req)) :
    Whole req where
  user := by
    by_contra hsome
    obtain ⟨user, huser⟩ := Option.ne_none_iff_exists'.mp hsome
    have hrep := (kept_iff rfl (by simp [Setting.names, Setting.name, unsupported])).mp
      (h (.user user) huser)
    simp [Represented, Value.at?_cons, get?_foreign] at hrep
  n := by
    intro hzero
    have hrep := (kept_iff rfl (by simp [Setting.names, Setting.name, unsupported])).mp
      (h (.n 0) hzero)
    exact absurd hrep (by simp [Represented])
  ceiling := by
    refine oneCeiling_of_effective fun max hmax => ?_
    have hrep := (kept_iff rfl (by simp [Setting.names, Setting.name, unsupported])).mp
      (h (.maxTokens max) hmax)
    exact effective_of_map (at?_maxTokens.symm.trans hrep)
  choice := by
    intro v hv
    have hrep := (kept_iff rfl (by simp [Setting.names, Setting.name, unsupported])).mp
      (h (.toolChoice v) hv)
    obtain ⟨c, hc, hchooses⟩ := hrep
    exact ⟨c, hc, (chooses_iff hconfig hv hc).mp hchooses⟩

theorem noneLost_of_whole (hmany : req.n.any (1 < ·) = false) (hlogprobs : req.logprobs ≠ some true)
    (hconfig : toolConfig req = .ok config) (hwhole : Whole req) :
    NoneLost req (Represented req (body req messages config)) (dropped req) := by
  intro s hset
  cases s with
  | tools tools => exact Or.inl (represented_tools hconfig hset)
  | toolChoice v =>
    obtain ⟨c, hc, hgoes⟩ := hwhole.choice v hset
    exact Or.inl ⟨c, hc, (chooses_iff hconfig hset hc).mpr hgoes⟩
  | temperature t =>
    exact Or.inl (by simp [Represented, at?_inference, inference, show _ = _ from hset])
  | topP p =>
    exact Or.inl (by simp [Represented, at?_inference, inference, show _ = _ from hset])
  | maxTokens max =>
    exact Or.inl (by simp [Represented, at?_maxTokens, hwhole.ceiling.effective hset])
  | maxCompletionTokens max =>
    exact Or.inl (by simp [Represented, at?_maxTokens, effective_of_completion hset])
  | stop stop =>
    exact Or.inl (by simp [Represented, at?_inference, inference, show _ = _ from hset])
  | n n =>
    refine Or.inl (one_of_not_many ?_ ?_)
    · intro hzero
      exact hwhole.n (hzero ▸ hset)
    · rw [show req.n = some n from hset] at hmany
      simpa using hmany
  | stream stream =>
    refine Or.inl ?_
    cases stream <;> simp [Represented, action, show _ = _ from hset]
  | logprobs logprobs =>
    refine Or.inl ?_
    cases logprobs with
    | true => exact absurd hset hlogprobs
    | false => simp [Represented, Value.at?_cons, get?_foreign]
  | parallelToolCalls v | streamOptions v | responseFormat v | presencePenalty v
  | frequencyPenalty v | seed v =>
    refine kept_of_unsupported (List.mem_singleton_self _) ?_
    simp [Setting.name, unsupported, show _ = _ from hset]
  | user user =>
    rw [Sets, hwhole.user] at hset
    cases hset
  | extra key v =>
    exact Or.inr ⟨key, List.mem_singleton_self key, List.mem_append_right _ (mem_extraKeys hset)⟩

theorem noneLost_iff {serdeError : String → String} {built : BuiltRequest}
    (h : buildRequest serdeError req = .ok built) :
    NoneLost req (Represented req built.body) built.droppedParams ↔ Whole req := by
  unfold buildRequest at h
  obtain ⟨_, hmany, h⟩ := exists_of_bind h
  obtain ⟨_, hlogprobs, h⟩ := exists_of_bind h
  obtain ⟨messages, _, h⟩ := exists_of_bind h
  obtain ⟨config, hconfig, h⟩ := exists_of_bind h
  cases h
  constructor
  · exact whole_of_noneLost hconfig
  · exact noneLost_of_whole (not_asked hmany) (by simpa using not_asked hlogprobs) hconfig

end

end Bedrock

/-! ## Codex -/

namespace Codex

/-- The choice of a body: as the client has it, or by a function's name; none where there
are no tools. -/
def Chooses (body v : Value) : Prop :=
  body.get? "tool_choice" = some v ∨
  v = .string "none" ∧ body.get? "tools" = none ∨
  ∃ name, v.at? ["function", "name"] = some (.string name) ∧
    body.at? ["tool_choice", "type"] = some (.string "function") ∧
    body.at? ["tool_choice", "name"] = some (.string name)

/-- The format of a body: any but a schema as it is, a schema with its fields in the
format itself. Text is what there is without. -/
def Formats (body format : Value) : Prop :=
  format.get? "type" = some (.string "text") ∨
  body.at? ["text", "format"] = some format ∨
  format.get? "type" = some (.string "json_schema") ∧
    ∃ sent nested, body.at? ["text", "format"] = some sent ∧
      format.get? "json_schema" = some nested ∧
      sent.get? "type" = some (.string "json_schema") ∧
      ∀ key, key ≠ "type" → sent.get? key = nested.get? key

/-- Where an extra has its place. -/
def placeOf (key : String) : List String :=
  if key = "reasoning_effort" then ["reasoning", "effort"]
  else if key = "verbosity" then ["text", "verbosity"]
  else [key]

/-- Where a body has a setting. It streams in any case, for a client that does not as well:
the answer is put together on this side. -/
def Represented (req : ChatRequest) (body : Value) : Setting → Prop
  | .tools tools => tools = [] ∨
      DeclaresAll [] ["parameters"] id (body.get? "tools") tools
  | .toolChoice v => Chooses body v
  | .parallelToolCalls parallel => choosesNone req = true ∨
      (body.get? "parallel_tool_calls" = some (.bool false) ↔ parallel = false)
  | .temperature t => body.get? "temperature" = some (.number t)
  | .topP p => body.get? "top_p" = some (.number p)
  | .maxTokens max | .maxCompletionTokens max =>
      body.get? "max_output_tokens" = some (ofU64 max)
  | .n n => n = 1
  | .stream _ => body.get? "stream" = some (.bool true)
  | .responseFormat format => Formats body format
  | .logprobs logprobs => body.get? "logprobs" = some (.bool true) ↔ logprobs = true
  | .user user => body.get? "user" = some (.string user)
  | .extra key v => body.at? (placeOf key) = some v
  | s => (body.get? s.name).isSome

/-- A string with something in it. -/
def Worded (v : Value) : Prop := ∃ s, s ≠ "" ∧ v = .string s

structure Whole (settings : CodexSettings) (req : ChatRequest) : Prop where
  user : req.user = none
  n : ∀ n, req.n = some n → n = 1
  logprobs : req.logprobs ≠ some true
  parallel : req.parallelToolCalls = some false → choosesNone req = true
  streamOptions : req.streamOptions = none
  presencePenalty : req.presencePenalty = none
  frequencyPenalty : req.frequencyPenalty = none
  seed : req.seed = none
  format : ∀ format, req.responseFormat = some format →
    ∃ type, format.get? "type" = some (.string type)
  choice : ∀ v, req.toolChoice = some v → v = .string "none" ∨ (tools req).isSome
  metadata : extraValue req "metadata" = none
  effort : ∀ v, extraValue req "reasoning_effort" = some v →
    Worded v ∨ settings.reasoningEffort.map Value.string = some v
  verbosity : ∀ v, extraValue req "verbosity" = some v →
    Worded v ∨ settings.verbosity.map Value.string = some v
  cacheKey : ∀ v, extraValue req "prompt_cache_key" = some v → Worded v

section
variable {digest : Bytes → String} {clientMetadata : Value} {req : ChatRequest} {model : String}
  {settings : CodexSettings} {instructions : String} {input : List Value}

theorem at?_text (name : String) :
    (body digest clientMetadata req model settings instructions input).at? ["text", name] =
      Value.lastMember name (text req settings) := by
  rw [← Value.bind_at?_nonempty, Value.at?_cons]
  simp [body, Value.get?_build]

theorem get?_tools :
    (body digest clientMetadata req model settings instructions input).get? "tools" =
      (tools req).map fun tools => .array (tools.map tool) := by
  simp [body, Value.get?_build]

theorem get?_toolChoice :
    (body digest clientMetadata req model settings instructions input).get? "tool_choice" =
      (tools req).bind fun _ => req.toolChoice.map codexToolChoice := by
  simp [body, Value.get?_build]

theorem at?_toolChoice (name : String) :
    (body digest clientMetadata req model settings instructions input).at? ["tool_choice", name] =
      ((tools req).bind fun _ => req.toolChoice.map codexToolChoice).bind (Value.at? [name]) := by
  rw [Value.at?_cons, get?_toolChoice]

/-- A body has no members but its own. -/
theorem get?_foreign {name : String} (hname : name ∈ ["user", "logprobs", "parallel_tool_calls",
    "stream_options", "presence_penalty", "frequency_penalty", "seed", "metadata"]) :
    (body digest clientMetadata req model settings instructions input).get? name = none := by
  simp only [List.mem_cons, List.not_mem_nil, or_false] at hname
  rcases hname with rfl | rfl | rfl | rfl | rfl | rfl | rfl | rfl <;>
  simp [body, Value.get?_build]

theorem declares_tool (t : Core.Tool) : Declares [] ["parameters"] id (tool t) t := by
  refine ⟨?_, ?_, ?_⟩
  · simp [tool, Value.at?_cons, Value.at?_nil, Value.get?_build]
  · intro text htext
    simp [tool, Value.at?_cons, Value.at?_nil, Value.get?_build, htext, ofText]
  · intro v hv
    simp [tool, Value.at?_cons, Value.at?_nil, Value.get?_build, hv]

theorem represented_tools {given : List Core.Tool} (hgiven : req.tools = some given) :
    Represented req (body digest clientMetadata req model settings instructions input)
      (.tools given) := by
  by_cases hempty : given = []
  · exact Or.inl hempty
  · refine Or.inr ⟨given.map tool, [], ?_, forall₂_declares declares_tool given⟩
    rw [get?_tools]
    simp [tools, hgiven, hempty]

/-- A function's name goes up; there is no name in what stays as it is. -/
theorem codexToolChoice_cases (v : Value) :
    codexToolChoice v = v ∨ ∃ name, v.at? ["function", "name"] = some (.string name) ∧
      codexToolChoice v = .ofMembers [("type", .string "function"), ("name", .string name)] := by
  unfold codexToolChoice
  split
  · next name hname =>
    obtain ⟨nameValue, hvalue, hstr⟩ := Option.bind_eq_some_iff.mp hname
    refine Or.inr ⟨name, ?_, rfl⟩
    rw [← Value.eq_string_of_asStr hstr, ← hvalue, Value.at?_cons]
    cases v.get? "function" with
    | none => rfl
    | some f => exact Value.at?_single "name" f
  · exact Or.inl rfl

theorem chooses_iff {v : Value} (hv : req.toolChoice = some v) :
    Chooses (body digest clientMetadata req model settings instructions input) v ↔
      v = .string "none" ∨ (tools req).isSome := by
  unfold Chooses
  rw [at?_toolChoice, at?_toolChoice, get?_toolChoice, get?_tools, hv]
  cases htools : tools req with
  | none => simp
  | some given =>
    have hsent : codexToolChoice v = v ∨ ∃ name, v.at? ["function", "name"] = some (.string name) ∧
        (codexToolChoice v).at? ["type"] = some (.string "function") ∧
        (codexToolChoice v).at? ["name"] = some (.string name) := by
      rcases codexToolChoice_cases v with hsame | ⟨name, hname, hsent⟩
      · exact Or.inl hsame
      · refine Or.inr ⟨name, hname, ?_, ?_⟩ <;>
        simp [hsent, Value.at?_single, Value.get?_build]
    simp only [Option.bind_some, Option.map_some, Option.some.injEq, Option.isSome_some,
      or_true, iff_true]
    exact hsent.imp_right Or.inr

/-! ## The format -/

theorem at?_format :
    (body digest clientMetadata req model settings instructions input).at? ["text", "format"] =
      codexTextFormat req.responseFormat := by
  simp [at?_text, text]

/-- The format of an object of a type, by the type. -/
theorem codexTextFormat_typed {format : Value} {type : String}
    (htype : format.get? "type" = some (.string type)) :
    type = "text" ∨ codexTextFormat (some format) = some format ∨
      type = "json_schema" ∧ ∃ nested, format.get? "json_schema" = some (.object nested) ∧
        codexTextFormat (some format) =
          some (.object (Entries.insert "type" (.string "json_schema") nested)) := by
  cases format with
  | object members =>
    simp only [codexTextFormat, htype, Option.bind_some, Value.asStr]
    by_cases htext : type = "text"
    · exact Or.inl htext
    · refine Or.inr ?_
      rw [if_neg htext]
      by_cases hschema : type = "json_schema"
      · rw [if_pos hschema]
        split
        · next nested hnested => exact Or.inr ⟨hschema, nested, hnested, rfl⟩
        · exact Or.inl rfl
      · rw [if_neg hschema]
        exact Or.inl rfl
  | _ => cases htype

/-- What is sent as it is has a type. -/
theorem typed_of_codexTextFormat {format sent : Value}
    (h : codexTextFormat (some format) = some sent) :
    ∃ type, format.get? "type" = some (.string type) := by
  cases format with
  | object members =>
    simp only [codexTextFormat] at h
    split at h
    · cases h
    · next type htype =>
      obtain ⟨v, hv, hstr⟩ := Option.bind_eq_some_iff.mp htype
      exact ⟨type, by rw [hv, Value.eq_string_of_asStr hstr]⟩
  | _ => cases h

theorem formats_iff {format : Value} (hformat : req.responseFormat = some format) :
    Formats (body digest clientMetadata req model settings instructions input) format ↔
      ∃ type, format.get? "type" = some (.string type) := by
  unfold Formats
  rw [at?_format, hformat]
  constructor
  · intro h
    rcases h with htext | hsame | ⟨hschema, _⟩
    · exact ⟨_, htext⟩
    · exact typed_of_codexTextFormat hsame
    · exact ⟨_, hschema⟩
  · intro h
    obtain ⟨type, htype⟩ := h
    rcases codexTextFormat_typed htype with rfl | hsame | ⟨rfl, nested, hnested, hsent⟩
    · exact Or.inl htype
    · exact Or.inr (Or.inl hsame)
    · refine Or.inr (Or.inr ⟨htype, _, _, hsent, hnested, ?_, ?_⟩)
      · show Entries.find? "type" (Entries.insert "type" _ nested) = _
        rw [Entries.find?_insert, if_pos rfl]
      · intro key hkey
        show Entries.find? key (Entries.insert "type" _ nested) = Entries.find? key nested
        rw [Entries.find?_insert, if_neg hkey]

/-! ## The extras -/

theorem requestChoice_worded {key s : String}
    (h : extraValue req key = some (.string s)) (hs : s ≠ "") :
    requestChoice req key = some s := by
  unfold requestChoice
  rw [h]
  exact Option.filter_eq_some_iff.mpr ⟨rfl, decide_eq_true hs⟩

theorem requestChoice_ne_empty {key s : String} (h : requestChoice req key = some s) : s ≠ "" :=
  of_decide_eq_true (Option.filter_eq_some_iff.mp h).2

theorem requestChoice_other {key : String} {v : Value} (h : extraValue req key = some v)
    (hv : ¬ Worded v) : requestChoice req key = none := by
  unfold requestChoice
  rw [h]
  cases hstr : v.asStr with
  | none => simp [hstr]
  | some s =>
    by_cases hs : s = ""
    · simp [hstr, hs]
    · exact absurd ⟨s, hs, Value.eq_string_of_asStr hstr⟩ hv

/-- A knob of a provider's is turned by a client with a word for it. -/
theorem knob_iff {key : String} {setting : Option String} {v : Value}
    (h : extraValue req key = some v) :
    ((requestChoice req key).or setting).map Value.string = some v ↔
      Worded v ∨ setting.map Value.string = some v := by
  by_cases hv : Worded v
  · obtain ⟨s, hs, rfl⟩ := hv
    rw [requestChoice_worded h hs]
    simp [Worded, hs]
  · rw [requestChoice_other h hv, Option.none_or]
    simp [hv]

theorem at?_effort :
    (body digest clientMetadata req model settings instructions input).at?
      ["reasoning", "effort"] =
      ((requestChoice req "reasoning_effort").or settings.reasoningEffort).map Value.string := by
  cases heffort : (requestChoice req "reasoning_effort").or settings.reasoningEffort <;>
  simp [body, Value.at?_cons, Value.at?_nil, Value.get?_build, heffort]

theorem at?_verbosity :
    (body digest clientMetadata req model settings instructions input).at? ["text", "verbosity"] =
      ((requestChoice req "verbosity").or settings.verbosity).map Value.string := by
  simp [at?_text, text]

theorem cacheKey_iff {v : Value} (h : extraValue req "prompt_cache_key" = some v) :
    (body digest clientMetadata req model settings instructions input).at? ["prompt_cache_key"] =
      some v ↔ Worded v := by
  have hbody : (body digest clientMetadata req model settings instructions input).at?
      ["prompt_cache_key"] = some (.string (codexCacheKey digest req model instructions)) := by
    simp [body, Value.at?_single, Value.get?_build]
  rw [hbody, Option.some.injEq]
  unfold codexCacheKey
  constructor
  · intro heq
    subst heq
    cases hchoice : requestChoice req "prompt_cache_key" with
    | some key => exact ⟨key, requestChoice_ne_empty hchoice, rfl⟩
    | none =>
      refine ⟨_, fun hempty => ?_, rfl⟩
      -- A key of this side's own starts with its mark.
      rw [Option.getD_none] at hempty
      exact absurd hempty (by simp)
  · intro hv
    obtain ⟨s, hs, rfl⟩ := hv
    rw [requestChoice_worded h hs]
    rfl

/-! ## The whole -/

theorem kept_iff {represented : Setting → Prop} {s : Setting} (hs : s.isField = true)
    (hword : ∀ name ∈ s.names, (name, true) ∉ unsupported req) :
    Kept represented (dropped req) s ↔ represented s :=
  kept_field_iff hs (List.filter_subset_self _) hword

/-- An extra that a body has a place for is in no report. -/
theorem kept_extra_iff {represented : Setting → Prop} {key : String} {v : Value}
    (hmem : (key, v) ∈ req.extra) (hcarried : key ∈ carriedExtras) :
    Kept represented (dropped req) (.extra key v) ↔ represented (.extra key v) := by
  constructor
  · intro h
    rcases h with hrep | ⟨name, hname, hdropped⟩
    · exact hrep
    · rw [show name = key from List.mem_singleton.mp hname] at hdropped
      rcases List.mem_append.mp hdropped with hfield | hextra
      · -- The fields of a report are not extras.
        refine absurd ?_ (req.extra_foreign _ hmem)
        have hword := mem_named.mp hfield
        simp only [unsupported, List.mem_cons, Prod.mk.injEq, List.not_mem_nil, or_false] at hword
        rcases hword with ⟨rfl, _⟩ | ⟨rfl, _⟩ | ⟨rfl, _⟩ | ⟨rfl, _⟩ <;>
        simp [ChatRequest.fields]
      · exact absurd hcarried (of_decide_eq_true (List.mem_filter.mp hextra).2)
  · exact Or.inl

/-- A field that no body has and no report names is not set. -/
theorem unset_of_noneLost {α : Type} {field : Option α} (setting : α → Setting)
    (hset : ∀ v, field = some v → Sets req (setting v))
    (hfield : ∀ v, (setting v).isField = true)
    (hword : ∀ v, ∀ name ∈ (setting v).names, (name, true) ∉ unsupported req)
    {represented : Setting → Prop} (hrep : ∀ v, ¬ represented (setting v))
    (h : NoneLost req represented (dropped req)) : field = none := by
  by_contra hsome
  obtain ⟨v, hv⟩ := Option.ne_none_iff_exists'.mp hsome
  exact hrep v ((kept_iff (hfield v) (hword v)).mp (h (setting v) (hset v hv)))

theorem whole_of_noneLost
    (h : NoneLost req (Represented req
      (body digest clientMetadata req model settings instructions input)) (dropped req)) :
    Whole settings req where
  user := unset_of_noneLost .user (fun _ hv => hv) (fun _ => rfl)
    (by simp [Setting.names, Setting.name, unsupported])
    (by simp [Represented, get?_foreign]) h
  n := by
    intro n hn
    exact (kept_iff rfl (by simp [Setting.names, Setting.name, unsupported])).mp (h (.n n) hn)
  logprobs := by
    intro htrue
    have hrep := (kept_iff rfl (by simp [Setting.names, Setting.name, unsupported])).mp
      (h (.logprobs true) htrue)
    simp [Represented, get?_foreign] at hrep
  parallel := by
    intro hfalse
    have hrep := (kept_iff rfl (by simp [Setting.names, Setting.name, unsupported])).mp
      (h (.parallelToolCalls false) hfalse)
    simpa [Represented, get?_foreign] using hrep
  streamOptions := unset_of_noneLost .streamOptions (fun _ hv => hv) (fun _ => rfl)
    (by simp [Setting.names, Setting.name, unsupported])
    (by simp [Represented, Setting.name, get?_foreign]) h
  presencePenalty := unset_of_noneLost .presencePenalty (fun _ hv => hv) (fun _ => rfl)
    (by simp [Setting.names, Setting.name, unsupported])
    (by simp [Represented, Setting.name, get?_foreign]) h
  frequencyPenalty := unset_of_noneLost .frequencyPenalty (fun _ hv => hv) (fun _ => rfl)
    (by simp [Setting.names, Setting.name, unsupported])
    (by simp [Represented, Setting.name, get?_foreign]) h
  seed := unset_of_noneLost .seed (fun _ hv => hv) (fun _ => rfl)
    (by simp [Setting.names, Setting.name, unsupported])
    (by simp [Represented, Setting.name, get?_foreign]) h
  format := by
    intro format hformat
    have hrep := (kept_iff rfl (by simp [Setting.names, Setting.name, unsupported])).mp
      (h (.responseFormat format) hformat)
    exact (formats_iff hformat).mp hrep
  choice := by
    intro v hv
    have hrep := (kept_iff rfl (by simp [Setting.names, Setting.name, unsupported])).mp
      (h (.toolChoice v) hv)
    exact (chooses_iff hv).mp hrep
  metadata := by
    by_contra hsome
    obtain ⟨v, hv⟩ := Option.ne_none_iff_exists'.mp hsome
    have hmem := extraValue_iff.mp hv
    have hrep := (kept_extra_iff hmem (by simp [carriedExtras])).mp (h (.extra "metadata" v) hmem)
    simp [Represented, placeOf, Value.at?_single, get?_foreign] at hrep
  effort := by
    intro v hv
    have hmem := extraValue_iff.mp hv
    have hrep := (kept_extra_iff hmem (by simp [carriedExtras])).mp
      (h (.extra "reasoning_effort" v) hmem)
    exact (knob_iff hv).mp (at?_effort.symm.trans hrep)
  verbosity := by
    intro v hv
    have hmem := extraValue_iff.mp hv
    have hrep := (kept_extra_iff hmem (by simp [carriedExtras])).mp (h (.extra "verbosity" v) hmem)
    exact (knob_iff hv).mp (at?_verbosity.symm.trans hrep)
  cacheKey := by
    intro v hv
    have hmem := extraValue_iff.mp hv
    have hrep := (kept_extra_iff hmem (by simp [carriedExtras])).mp
      (h (.extra "prompt_cache_key" v) hmem)
    exact (cacheKey_iff hv).mp hrep

theorem noneLost_of_whole (hwhole : Whole settings req) :
    NoneLost req (Represented req
      (body digest clientMetadata req model settings instructions input)) (dropped req) := by
  intro s hset
  cases s with
  | tools tools => exact Or.inl (represented_tools hset)
  | toolChoice v => exact Or.inl ((chooses_iff hset).mpr (hwhole.choice v hset))
  | parallelToolCalls parallel =>
    refine Or.inl ?_
    cases parallel with
    | true => exact Or.inr (by simp [get?_foreign])
    | false => exact Or.inl (hwhole.parallel hset)
  | temperature v | topP v | maxTokens v | stop v =>
    refine kept_of_unsupported (List.mem_singleton_self _) ?_
    simp [Setting.name, unsupported, show _ = _ from hset]
  | maxCompletionTokens max =>
    have hmem : ("max_tokens", true) ∈ unsupported req := by
      simp [unsupported, show _ = _ from hset]
    exact kept_of_unsupported (by simp [Setting.names]) hmem
  | n n => exact Or.inl (hwhole.n n hset)
  | stream stream => exact Or.inl (by simp [Represented, body, Value.get?_build])
  | responseFormat format => exact Or.inl ((formats_iff hset).mpr (hwhole.format format hset))
  | logprobs logprobs =>
    refine Or.inl ?_
    cases logprobs with
    | true => exact absurd hset hwhole.logprobs
    | false => simp [Represented, get?_foreign]
  | streamOptions v =>
    rw [Sets, hwhole.streamOptions] at hset
    cases hset
  | presencePenalty v =>
    rw [Sets, hwhole.presencePenalty] at hset
    cases hset
  | frequencyPenalty v =>
    rw [Sets, hwhole.frequencyPenalty] at hset
    cases hset
  | seed v =>
    rw [Sets, hwhole.seed] at hset
    cases hset
  | user v =>
    rw [Sets, hwhole.user] at hset
    cases hset
  | extra key v =>
    by_cases hcarried : key ∈ carriedExtras
    · have hv := extraValue_iff.mpr hset
      simp only [carriedExtras, List.mem_cons, List.not_mem_nil, or_false] at hcarried
      refine Or.inl ?_
      rcases hcarried with rfl | rfl | rfl | rfl
      · exact at?_effort.trans ((knob_iff hv).mpr (hwhole.effort v hv))
      · exact at?_verbosity.trans ((knob_iff hv).mpr (hwhole.verbosity v hv))
      · rw [hwhole.metadata] at hv
        cases hv
      · exact (cacheKey_iff hv).mpr (hwhole.cacheKey v hv)
    · refine Or.inr ⟨key, List.mem_singleton_self key, List.mem_append_right _ ?_⟩
      exact List.mem_filter.mpr ⟨mem_extraKeys hset, decide_eq_true hcarried⟩

end

theorem noneLost_iff {digest : Bytes → String} {clientMetadata : Value} {req : ChatRequest}
    {model : String} {settings : CodexSettings} {built : BuiltRequest}
    (h : codexRequest digest clientMetadata req model settings = .ok built) :
    NoneLost req (Represented req built.body) built.droppedParams ↔ Whole settings req := by
  unfold codexRequest at h
  obtain ⟨⟨instructions, input⟩, _, h⟩ := exists_of_bind h
  cases h
  constructor
  · exact whole_of_noneLost
  · exact noneLost_of_whole

end Codex

/-! ## The four builders -/

/-- What each builder loses in silence, it loses for what a request sets. -/
theorem kept_by_builders_iff (serdeError : String → String) (digest : Bytes → String)
    (clientMetadata : Value) (req : ChatRequest) (model : String)
    (settings : Codex.CodexSettings) :
    (∀ built, Anthropic.buildRequest serdeError req model = .ok built →
      (NoneLost req (Anthropic.Represented req built.body) built.droppedParams ↔
        Anthropic.Whole req)) ∧
    (∀ built, Gemini.buildRequest serdeError req = .ok built →
      (NoneLost req (Gemini.Represented req built.body) built.droppedParams ↔
        Gemini.Whole req)) ∧
    (∀ built, Bedrock.buildRequest serdeError req = .ok built →
      (NoneLost req (Bedrock.Represented req built.body) built.droppedParams ↔
        Bedrock.Whole req)) ∧
    ∀ built, Codex.codexRequest digest clientMetadata req model settings = .ok built →
      (NoneLost req (Codex.Represented req built.body) built.droppedParams ↔
        Codex.Whole settings req) :=
  ⟨fun _ => Anthropic.noneLost_iff, fun _ => Gemini.noneLost_iff, fun _ => Bedrock.noneLost_iff,
    fun _ => Codex.noneLost_iff⟩

/-- A request of one message, and maybe of a user. -/
def greeting (user : Option String) : ChatRequest where
  model := "m"
  messages := [⟨"user", some (.text "hello"), none, none, none⟩]
  tools := none
  toolChoice := none
  parallelToolCalls := none
  temperature := some (.posInt 1 (by decide))
  topP := none
  maxTokens := some 100
  maxCompletionTokens := none
  stop := some (.string "END")
  n := some 1
  stream := some true
  streamOptions := none
  responseFormat := none
  logprobs := none
  presencePenalty := none
  frequencyPenalty := none
  seed := none
  user := user
  extra := [("reasoning_effort", .string "high")]
  extra_sorted := List.pairwise_singleton _ _
  extra_foreign := by simp [ChatRequest.fields]

/-- A request without a user is kept by each of the four. -/
theorem kept_by_builders_greeting :
    (∃ built, Anthropic.buildRequest id (greeting none) "claude-opus-4-6" = .ok built ∧
      NoneLost (greeting none) (Anthropic.Represented (greeting none) built.body)
        built.droppedParams) ∧
    (∃ built, Gemini.buildRequest id (greeting none) = .ok built ∧
      NoneLost (greeting none) (Gemini.Represented (greeting none) built.body)
        built.droppedParams) ∧
    (∃ built, Bedrock.buildRequest id (greeting none) = .ok built ∧
      NoneLost (greeting none) (Bedrock.Represented (greeting none) built.body)
        built.droppedParams) ∧
    ∃ built, Codex.codexRequest (fun _ => "") .null (greeting none) "gpt-5.5" ⟨none, none⟩ =
        .ok built ∧
      NoneLost (greeting none) (Codex.Represented (greeting none) built.body)
        built.droppedParams := by
  have h := kept_by_builders_iff id (fun _ => "") .null (greeting none)
  refine ⟨⟨_, rfl, ((h "claude-opus-4-6" ⟨none, none⟩).1 _ rfl).mpr ?_⟩,
    ⟨_, rfl, ((h "" ⟨none, none⟩).2.1 _ rfl).mpr ?_⟩,
    ⟨_, rfl, ((h "" ⟨none, none⟩).2.2.1 _ rfl).mpr ?_⟩,
    ⟨_, rfl, ((h "gpt-5.5" ⟨none, none⟩).2.2.2 _ rfl).mpr ?_⟩⟩
  · exact
      { user := rfl
        n := by simp [greeting]
        ceiling := by intro _ _ _ h; cases h
        format := by intro _ h; cases h
        choice := by intro _ h; cases h
        parallel := by intro h; cases h }
  · exact
      { user := rfl
        ceiling := by intro _ _ _ h; cases h
        format := by intro _ h; cases h
        choice := by intro _ h; cases h }
  · exact
      { user := rfl
        n := by simp [greeting]
        ceiling := by intro _ _ _ h; cases h
        choice := by intro _ h; cases h }
  · exact
      { user := rfl
        n := by simp [greeting]
        logprobs := by intro h; cases h
        parallel := by intro h; cases h
        streamOptions := rfl
        presencePenalty := rfl
        frequencyPenalty := rfl
        seed := rfl
        format := by intro _ h; cases h
        choice := by intro _ h; cases h
        metadata := by simp [extraValue, greeting, Entries.find?]
        effort := by simp [extraValue, greeting, Entries.find?, Codex.Worded]
        verbosity := by simp [extraValue, greeting, Entries.find?]
        cacheKey := by simp [extraValue, greeting, Entries.find?] }

/-- A user is lost by each of the four. -/
theorem greeting_loses_user :
    (∃ built, Anthropic.buildRequest id (greeting (some "u-1")) "claude-opus-4-6" = .ok built ∧
      ¬ NoneLost (greeting (some "u-1"))
        (Anthropic.Represented (greeting (some "u-1")) built.body) built.droppedParams) ∧
    (∃ built, Gemini.buildRequest id (greeting (some "u-1")) = .ok built ∧
      ¬ NoneLost (greeting (some "u-1"))
        (Gemini.Represented (greeting (some "u-1")) built.body) built.droppedParams) ∧
    (∃ built, Bedrock.buildRequest id (greeting (some "u-1")) = .ok built ∧
      ¬ NoneLost (greeting (some "u-1"))
        (Bedrock.Represented (greeting (some "u-1")) built.body) built.droppedParams) ∧
    ∃ built, Codex.codexRequest (fun _ => "") .null (greeting (some "u-1")) "gpt-5.5"
        ⟨none, none⟩ = .ok built ∧
      ¬ NoneLost (greeting (some "u-1"))
        (Codex.Represented (greeting (some "u-1")) built.body) built.droppedParams := by
  refine ⟨⟨_, rfl, fun h => ?_⟩, ⟨_, rfl, fun h => ?_⟩, ⟨_, rfl, fun h => ?_⟩,
    ⟨_, rfl, fun h => ?_⟩⟩
  · have hbuilt : Anthropic.buildRequest id (greeting (some "u-1")) "claude-opus-4-6" = .ok _ := rfl
    exact nomatch ((Anthropic.noneLost_iff hbuilt).mp h).user
  · have hbuilt : Gemini.buildRequest id (greeting (some "u-1")) = .ok _ := rfl
    exact nomatch ((Gemini.noneLost_iff hbuilt).mp h).user
  · have hbuilt : Bedrock.buildRequest id (greeting (some "u-1")) = .ok _ := rfl
    exact nomatch ((Bedrock.noneLost_iff hbuilt).mp h).user
  · exact nomatch (Codex.whole_of_noneLost h).user

end RapidRouter.Providers.Requests
