import RapidRouter.Lib.Fallible
import RapidRouter.Providers.Requests

/-!
# No parameter is lost in silence

A parameter that a request sets is in the upstream request, or is named among those left
out. `Setting` is a parameter with what it is set to, and `Represented` says for each
dialect where a request of that dialect has it. `Whole` is what a request must be for all
of its settings to be kept.
-/

namespace RapidRouter.Providers.Requests

open Json Core
open Json.Value (given)
open Fallible

/-! ## What a request sets -/

/-- A parameter, and what it is set to. -/
inductive Setting where
  | tools (tools : List Core.Tool)
  | toolChoice (choice : Value)
  | parallelToolCalls (parallel : Bool)
  | temperature (temperature : Number)
  | topP (topP : Number)
  | maxTokens (max : UInt64)
  | maxCompletionTokens (max : UInt64)
  | stop (stop : Value)
  | n (n : UInt32)
  | stream (stream : Bool)
  | streamOptions (options : Value)
  | responseFormat (format : Value)
  | logprobs (logprobs : Bool)
  | presencePenalty (penalty : Number)
  | frequencyPenalty (penalty : Number)
  | seed (seed : Int64)
  | user (user : String)
  | extra (key : String) (v : Value)

namespace Setting

def name : Setting → String
  | tools _ => "tools"
  | toolChoice _ => "tool_choice"
  | parallelToolCalls _ => "parallel_tool_calls"
  | temperature _ => "temperature"
  | topP _ => "top_p"
  | maxTokens _ => "max_tokens"
  | maxCompletionTokens _ => "max_completion_tokens"
  | stop _ => "stop"
  | n _ => "n"
  | stream _ => "stream"
  | streamOptions _ => "stream_options"
  | responseFormat _ => "response_format"
  | logprobs _ => "logprobs"
  | presencePenalty _ => "presence_penalty"
  | frequencyPenalty _ => "frequency_penalty"
  | seed _ => "seed"
  | user _ => "user"
  | extra key _ => key

/-- The names that a report may have it under. Either field of the ceiling is `max_tokens`. -/
def names : Setting → List String
  | maxCompletionTokens _ => ["max_completion_tokens", "max_tokens"]
  | s => [s.name]

/-- A field of its own, not an extra. -/
def isField : Setting → Bool
  | extra _ _ => false
  | _ => true

end Setting

/-- A request sets a parameter. -/
def Sets (req : ChatRequest) : Setting → Prop
  | .tools tools => req.tools = some tools
  | .toolChoice choice => req.toolChoice = some choice
  | .parallelToolCalls parallel => req.parallelToolCalls = some parallel
  | .temperature t => req.temperature = some t
  | .topP p => req.topP = some p
  | .maxTokens max => req.maxTokens = some max
  | .maxCompletionTokens max => req.maxCompletionTokens = some max
  | .stop stop => req.stop = some stop
  | .n n => req.n = some n
  | .stream stream => req.stream = some stream
  | .streamOptions options => req.streamOptions = some options
  | .responseFormat format => req.responseFormat = some format
  | .logprobs logprobs => req.logprobs = some logprobs
  | .presencePenalty penalty => req.presencePenalty = some penalty
  | .frequencyPenalty penalty => req.frequencyPenalty = some penalty
  | .seed seed => req.seed = some seed
  | .user user => req.user = some user
  | .extra key v => (key, v) ∈ req.extra

/-- In the request, or named among the parameters left out. -/
def Kept (represented : Setting → Prop) (droppedParams : List String) (s : Setting) : Prop :=
  represented s ∨ ∃ name ∈ s.names, name ∈ droppedParams

/-- No setting of a request is lost in silence. -/
def NoneLost (req : ChatRequest) (represented : Setting → Prop) (droppedParams : List String) :
    Prop :=
  ∀ s, Sets req s → Kept represented droppedParams s

/-- The two fields of the ceiling agree, when both are set. -/
def OneCeiling (req : ChatRequest) : Prop :=
  ∀ max, req.maxTokens = some max → ∀ other, req.maxCompletionTokens = some other → max = other

theorem OneCeiling.effective {req : ChatRequest} {max : UInt64} (h : OneCeiling req)
    (hmax : req.maxTokens = some max) : req.effectiveMaxTokens = some max := by
  unfold ChatRequest.effectiveMaxTokens
  cases hother : req.maxCompletionTokens with
  | none => exact hmax
  | some other => rw [h max hmax other hother, Option.some_or]

theorem effective_of_completion {req : ChatRequest} {max : UInt64}
    (hmax : req.maxCompletionTokens = some max) : req.effectiveMaxTokens = some max := by
  rw [ChatRequest.effectiveMaxTokens, hmax, Option.some_or]

theorem oneCeiling_of_effective {req : ChatRequest}
    (h : ∀ max, req.maxTokens = some max → req.effectiveMaxTokens = some max) :
    OneCeiling req := by
  intro max hmax other hother
  have heffective := h max hmax
  rw [effective_of_completion hother] at heffective
  exact (Option.some.inj heffective).symm

/-- What a client may choose of its tools. -/
inductive Choice where
  | auto
  | none
  | required
  | function (name : String)

def Choice.ofValue : Value → Option Choice
  | .string s =>
    if s = "auto" then some .auto
    else if s = "none" then some .none
    else if s = "required" then some .required
    else Option.none
  | v => ((v.at? ["function", "name"]).bind Value.asStr).map Choice.function

/-- A tool is declared at a place in a value, its parameters at another. -/
def Declares (place schema : List String) (clean : Value → Value) (item : Value) (t : Core.Tool) :
    Prop :=
  (item.at? (place ++ ["name"])) = some (.string t.function.name) ∧
  (∀ text, t.function.description = some text →
    item.at? (place ++ ["description"]) = some (.string text)) ∧
  ∀ v, t.function.parameters = some v → item.at? (place ++ schema) = some (clean v)

/-- The tools are declared in an array one after the other, whatever is after them. -/
def DeclaresAll (place schema : List String) (clean : Value → Value) (array : Option Value)
    (tools : List Core.Tool) : Prop :=
  ∃ items more, array = some (.array (items ++ more)) ∧
    List.Forall₂ (Declares place schema clean) items tools

/-! ## What is shared -/

theorem mem_named {name : String} {params : List (String × Bool)} :
    name ∈ named params ↔ (name, true) ∈ params := by
  unfold named
  rw [List.mem_filterMap]
  constructor
  · intro ⟨param, hmem, hname⟩
    obtain ⟨other, present⟩ := param
    cases present with
    | true =>
      cases hname
      exact hmem
    | false => cases hname
  · intro hmem
    exact ⟨(name, true), hmem, rfl⟩

theorem not_mem_extraKeys (req : ChatRequest) {name : String} (hname : name ∈ ChatRequest.fields) :
    name ∉ extraKeys req := by
  intro hmem
  obtain ⟨member, hmember, rfl⟩ := List.mem_map.mp hmem
  exact req.extra_foreign member hmember hname

/-- A report names a field only for itself: an extra has another name. -/
theorem field_dropped_iff {req : ChatRequest} {name : String} {params : List (String × Bool)}
    {rest : List String} (hname : name ∈ ChatRequest.fields) (hrest : rest ⊆ extraKeys req) :
    name ∈ named params ++ rest ↔ (name, true) ∈ params := by
  rw [List.mem_append, mem_named]
  constructor
  · intro hmem
    rcases hmem with hmem | hmem
    · exact hmem
    · exact absurd (hrest hmem) (not_mem_extraKeys req hname)
  · exact Or.inl

theorem extraValue_iff {req : ChatRequest} {key : String} {v : Value} :
    extraValue req key = some v ↔ (key, v) ∈ req.extra :=
  (Entries.mem_iff_find? req.extra_sorted).symm

theorem mem_extraKeys {req : ChatRequest} {key : String} {v : Value} (h : (key, v) ∈ req.extra) :
    key ∈ extraKeys req :=
  List.mem_map_of_mem h

theorem names_subset_fields {s : Setting} (hs : s.isField = true) :
    s.names ⊆ ChatRequest.fields := by
  cases s with
  | extra key v => cases hs
  | _ => simp [Setting.names, Setting.name, ChatRequest.fields]

/-- A field that the dialect has a word for is kept when it is in the request. -/
theorem kept_field_iff {req : ChatRequest} {represented : Setting → Prop}
    {params : List (String × Bool)} {rest : List String} {s : Setting} (hs : s.isField = true)
    (hrest : rest ⊆ extraKeys req) (hword : ∀ name ∈ s.names, (name, true) ∉ params) :
    Kept represented (named params ++ rest) s ↔ represented s := by
  constructor
  · intro h
    rcases h with hrep | ⟨name, hname, hmem⟩
    · exact hrep
    · have hfield := names_subset_fields hs hname
      exact absurd ((field_dropped_iff hfield hrest).mp hmem) (hword name hname)
  · exact Or.inl

/-- A field that the dialect has no word for is named. -/
theorem kept_of_unsupported {represented : Setting → Prop} {params : List (String × Bool)}
    {rest : List String} {s : Setting} {name : String} (hname : name ∈ s.names)
    (hmem : (name, true) ∈ params) : Kept represented (named params ++ rest) s :=
  Or.inr ⟨name, hname, List.mem_append_left _ (mem_named.mpr hmem)⟩

theorem forall₂_declares {place schema : List String} {clean : Value → Value} {item : Core.Tool → Value}
    (hitem : ∀ t, Declares place schema clean (item t) t) (tools : List Core.Tool) :
    List.Forall₂ (Declares place schema clean) (tools.map item) tools :=
  List.forall₂_map_left_iff.mpr (List.forall₂_same.mpr fun t _ => hitem t)

theorem choosesNone_iff {req : ChatRequest} :
    choosesNone req = true ↔ req.toolChoice = some (.string "none") := by
  unfold choosesNone
  rw [decide_eq_true_iff]
  cases req.toolChoice with
  | none => simp
  | some v => cases v <;> simp [Value.asStr]

theorem Choice.ofValue_string (s : String) :
    Choice.ofValue (.string s) =
      if s = "auto" then some .auto
      else if s = "none" then some .none
      else if s = "required" then some .required
      else Option.none := rfl

theorem Choice.ofValue_object (members : List (String × Value)) :
    Choice.ofValue (.object members) =
      (((Value.object members).at? ["function", "name"]).bind Value.asStr).map Choice.function :=
  rfl

theorem Choice.of_string {s : String} {c : Choice} (h : Choice.ofValue (.string s) = some c) :
    s = "auto" ∧ c = .auto ∨ s = "none" ∧ c = .none ∨ s = "required" ∧ c = .required := by
  rw [Choice.ofValue_string] at h
  by_cases hauto : s = "auto"
  · rw [if_pos hauto] at h
    exact Or.inl ⟨hauto, (Option.some.inj h).symm⟩
  · rw [if_neg hauto] at h
    by_cases hnone : s = "none"
    · rw [if_pos hnone] at h
      exact Or.inr (Or.inl ⟨hnone, (Option.some.inj h).symm⟩)
    · rw [if_neg hnone] at h
      by_cases hrequired : s = "required"
      · rw [if_pos hrequired] at h
        exact Or.inr (Or.inr ⟨hrequired, (Option.some.inj h).symm⟩)
      · rw [if_neg hrequired] at h
        cases h

theorem Choice.of_object {members : List (String × Value)} {c : Choice}
    (h : Choice.ofValue (.object members) = some c) :
    ∃ name, functionName (.object members) = .ok (.string name) ∧ c = .function name := by
  rw [Choice.ofValue_object, Value.at?_cons] at h
  unfold functionName
  cases hf : (Value.object members).get? "function" with
  | none =>
    rw [hf] at h
    cases h
  | some f =>
    rw [hf, Option.bind_some, Value.at?_single] at h
    obtain ⟨name, hname, hc⟩ := Option.map_eq_some_iff.mp h
    obtain ⟨v, hv, hstr⟩ := Option.bind_eq_some_iff.mp hname
    refine ⟨name, ?_, hc.symm⟩
    show Except.ok (f.index "name") = _
    rw [Value.index, hv, Option.getD_some, Value.eq_string_of_asStr hstr]

theorem Choice.ofValue_none_iff {v : Value} :
    Choice.ofValue v = some .none ↔ v = .string "none" := by
  constructor
  · intro h
    cases v with
    | string s =>
      rcases Choice.of_string h with ⟨_, hc⟩ | ⟨hs, _⟩ | ⟨_, hc⟩
      · cases hc
      · rw [hs]
      · cases hc
    | object members =>
      obtain ⟨name, _, hc⟩ := Choice.of_object h
      cases hc
    | _ => cases h
  · intro h
    subst h
    rfl

theorem choosesNone_of_known {req : ChatRequest} {v : Value} {c : Choice}
    (hv : req.toolChoice = some v) (hc : Choice.ofValue v = some c) (hnone : c = .none) :
    choosesNone req = true := by
  subst hnone
  rw [choosesNone_iff, hv, Choice.ofValue_none_iff.mp hc]

theorem ofU64_injective {m n : UInt64} (h : ofU64 m = ofU64 n) : m = n := by
  unfold ofU64 at h
  simp only [Value.number.injEq, Number.posInt.injEq] at h
  exact UInt64.toNat_inj.mp h

theorem one_of_not_many {n : UInt32} (hzero : n ≠ 0) (hmany : n ≤ 1) : n = 1 := by
  have hle : n.toNat ≤ 1 := hmany
  have hne : n.toNat ≠ 0 := fun h => hzero (UInt32.toNat_inj.mp h)
  exact UInt32.toNat_inj.mp (show n.toNat = 1 by omega)

theorem not_asked {asked : Bool} {message param : String} {u : Unit}
    (h : reject asked message param = .ok u) : asked = false := by
  cases asked with
  | false => rfl
  | true => cases h

theorem effective_of_map {max? : Option UInt64} {max : UInt64}
    (h : max?.map ofU64 = some (ofU64 max)) : max? = some max := by
  obtain ⟨other, hother, heq⟩ := Option.map_eq_some_iff.mp h
  rw [hother, ofU64_injective heq]

/-! ## Anthropic -/

namespace Anthropic

/-- What a body chooses. When it chooses none, no tool is there but the one that takes the
answer. -/
def Chooses (body : Value) : Choice → Prop
  | .auto => body.at? ["tool_choice", "type"] = some (.string "auto")
  | .none => ∀ items, body.get? "tools" = some (.array items) →
      ∀ item ∈ items, item.get? "name" = some (.string jsonSchemaTool)
  | .required => body.at? ["tool_choice", "type"] = some (.string "any")
  | .function name => body.at? ["tool_choice", "type"] = some (.string "tool") ∧
      body.at? ["tool_choice", "name"] = some (.string name)

/-- The format that a body asks for: text, or the input of a tool that has to be called. -/
def Formats (body format : Value) : Prop :=
  format.index "type" = .string "text" ∨
  format.index "type" = .string "json_schema" ∧ Chooses body (.function jsonSchemaTool) ∧
    ∃ items, body.get? "tools" = some (.array items) ∧
      ∃ item ∈ items, item.get? "name" = some (.string jsonSchemaTool) ∧
        item.get? "input_schema" = some ((format.index "json_schema").index "schema")

/-- Where a body has a setting. There is one answer, without the logarithms, unless a body
asks for more; and no tools for a client that chooses none. -/
def Represented (req : ChatRequest) (body : Value) : Setting → Prop
  | .tools tools => choosesNone req = true ∨
      DeclaresAll [] ["input_schema"] id (body.get? "tools") tools
  | .toolChoice v => ∃ choice, Choice.ofValue v = some choice ∧ Chooses body choice
  | .parallelToolCalls parallel => choosesNone req = true ∨
      (body.at? ["tool_choice", "disable_parallel_tool_use"] = some (.bool true) ↔
        parallel = false)
  | .temperature t => body.get? "temperature" = some (.number t)
  | .topP p => body.get? "top_p" = some (.number p)
  | .maxTokens max | .maxCompletionTokens max => body.get? "max_tokens" = some (ofU64 max)
  | .stop stop => body.get? "stop_sequences" = some (stopSequences stop)
  | .n n => n = 1
  | .stream stream => body.get? "stream" = some (.bool true) ↔ stream = true
  | .responseFormat format => Formats body format
  | .logprobs logprobs => body.get? "logprobs" = some (.bool true) ↔ logprobs = true
  | .user user => body.at? ["metadata", "user_id"] = some (.string user)
  | .extra key v =>
    body.at? (if key = "reasoning_effort" then ["output_config", "effort"] else [key]) = some v
  | s => (body.get? s.name).isSome

/-- The answer is to be of a schema. -/
def AsksSchema (req : ChatRequest) : Prop :=
  ∃ format, req.responseFormat = some format ∧ format.index "type" = .string "json_schema"

/-- What a request must be for a body to keep all of it. -/
structure Whole (req : ChatRequest) : Prop where
  user : req.user = none
  n : req.n ≠ some 0
  ceiling : OneCeiling req
  format : ∀ format, req.responseFormat = some format →
    format.index "type" = .string "text" ∨ format.index "type" = .string "json_schema"
  choice : ∀ v, req.toolChoice = some v → ∃ choice, Choice.ofValue v = some choice ∧
    (AsksSchema req → choice = .none ∨ choice = .function jsonSchemaTool)
  parallel : req.parallelToolCalls = some false → choosesNone req = true ∨
    req.toolChoice.isSome ∧ ¬ AsksSchema req

section
variable {req : ChatRequest} {model : String} {messages : List Value} {choice schema : Option Value}

theorem get?_toolChoice :
    (body req model messages choice schema).get? "tool_choice" = finalChoice choice schema := by
  simp [body, Value.get?_build]

theorem get?_tools : (body req model messages choice schema).get? "tools" =
    (allTools (clientTools req) schema).map Value.array := by
  simp [body, Value.get?_build]

theorem get?_temperature : (body req model messages choice schema).get? "temperature" =
    req.temperature.map Value.number := by
  simp [body, Value.get?_build]

theorem get?_topP : (body req model messages choice schema).get? "top_p" =
    req.topP.map Value.number := by
  simp [body, Value.get?_build]

theorem get?_maxTokens : (body req model messages choice schema).get? "max_tokens" =
    some (ofU64 (req.effectiveMaxTokens.getD defaultMaxTokens)) := by
  simp [body, Value.get?_build]

theorem get?_stop : (body req model messages choice schema).get? "stop_sequences" =
    req.stop.map stopSequences := by
  simp [body, Value.get?_build]

theorem get?_stream : (body req model messages choice schema).get? "stream" =
    if req.stream = some true then some (.bool true) else none := by
  simp [body, Value.get?_build]

theorem get?_effort : (body req model messages choice schema).get? "output_config" =
    (effort req model).map fun effort => .ofMembers [("effort", .string effort)] := by
  simp [body, Value.get?_build]

/-- A body has no members but its own. -/
theorem get?_foreign {name : String} (hname : name ∈ ["metadata", "logprobs"]) :
    (body req model messages choice schema).get? name = none := by
  rcases List.mem_pair.mp hname with rfl | rfl <;>
  simp [body, Value.get?_build]

/-- The members that a choice is written as. -/
def choiceMembers : Choice → Option (List (String × Value))
  | .auto => some [("type", .string "auto")]
  | .none => none
  | .required => some [("type", .string "any")]
  | .function name => some [("type", .string "tool"), ("name", .string name)]

theorem choice_of_known {v : Value} {c : Choice} (hv : Choice.ofValue v = some c) :
    Anthropic.choice (some v) = .ok (choiceMembers c) := by
  cases v with
  | string s =>
    rcases Choice.of_string hv with ⟨rfl, rfl⟩ | ⟨rfl, rfl⟩ | ⟨rfl, rfl⟩ <;> rfl
  | object members =>
    obtain ⟨name, hname, rfl⟩ := Choice.of_object hv
    show (functionName (.object members)).map _ = _
    rw [hname]
    rfl
  | _ => cases hv

/-- A schema is emulated, and nothing else is. -/
theorem emulated_cases {format : Value} {schema : Option Value}
    (h : emulated (some format) = .ok schema) :
    format.index "type" = .string "json_schema" ∧
        schema = some ((format.index "json_schema").index "schema") ∨
      format.index "type" ≠ .string "json_schema" ∧ schema = none := by
  simp only [emulated] at h
  cases htype : format.index "type" with
  | string type =>
    rw [htype] at h
    simp only [Value.asStr] at h
    by_cases hschema : type = "json_schema"
    · subst hschema
      rw [if_pos rfl] at h
      exact Or.inl ⟨rfl, (Except.ok.inj h).symm⟩
    · rw [if_neg hschema] at h
      refine Or.inr ⟨by simpa using hschema, ?_⟩
      split at h
      · exact (Except.ok.inj h).symm
      · cases h
  | _ =>
    rw [htype] at h
    exact Or.inr ⟨by simp, (Except.ok.inj h).symm⟩

theorem isSome_emulated (h : emulated req.responseFormat = .ok schema) :
    schema.isSome = true ↔ AsksSchema req := by
  unfold AsksSchema
  cases hformat : req.responseFormat with
  | none =>
    rw [hformat] at h
    cases h
    simp
  | some format =>
    rw [hformat] at h
    rcases emulated_cases h with ⟨htype, hschema⟩ | ⟨htype, hschema⟩
    · simp [htype, hschema]
    · simp [htype, hschema]

/-- A choice is in the body unless the tool that takes the answer is chosen instead. -/
theorem chooses_iff {c : Choice} (hnone : c = .none → choosesNone req = true) :
    Chooses (body req model messages ((choiceMembers c).map (withParallel req)) schema) c ↔
      (schema.isSome → c = .none ∨ c = .function jsonSchemaTool) := by
  cases c with
  | auto =>
    cases schema <;>
    simp [Chooses, Value.at?_cons, Value.at?_nil, get?_toolChoice, finalChoice, choiceMembers,
      withParallel, Value.get?_build]
  | none =>
    cases schema with
    | none => simp [Chooses, get?_tools, allTools, clientTools, hnone rfl]
    | some v =>
      simp [Chooses, get?_tools, allTools, clientTools, hnone rfl, schemaTool, Value.get?_build]
  | required =>
    cases schema <;>
    simp [Chooses, Value.at?_cons, Value.at?_nil, get?_toolChoice, finalChoice, choiceMembers,
      withParallel, Value.get?_build]
  | function name =>
    cases schema <;>
    simp [Chooses, Value.at?_cons, Value.at?_nil, get?_toolChoice, finalChoice, choiceMembers,
      withParallel, Value.get?_build, eq_comm]

theorem declares_tool (t : Core.Tool) : Declares [] ["input_schema"] id (tool t) t := by
  refine ⟨?_, ?_, ?_⟩
  · simp [tool, Value.at?_cons, Value.at?_nil, Value.get?_build]
  · intro text htext
    simp [tool, Value.at?_cons, Value.at?_nil, Value.get?_build, htext, ofText]
  · intro v hv
    simp [tool, Value.at?_cons, Value.at?_nil, Value.get?_build, schemaOf, hv]

theorem represented_tools {tools : List Core.Tool} (htools : req.tools = some tools) :
    Represented req (body req model messages choice schema) (.tools tools) := by
  by_cases hnone : choosesNone req = true
  · exact Or.inl hnone
  · refine Or.inr ?_
    rw [get?_tools]
    have hclient : clientTools req = some (tools.map tool) := by
      unfold clientTools
      rw [if_neg hnone, htools]
      rfl
    rw [hclient]
    cases schema with
    | none =>
      refine ⟨tools.map tool, [], ?_, forall₂_declares declares_tool tools⟩
      rw [List.append_nil]
      rfl
    | some v =>
      exact ⟨tools.map tool, [schemaTool v], rfl, forall₂_declares declares_tool tools⟩

/-- What a choice is written as says nothing of parallel calls. -/
theorem lastMember_parallel {v : Option Value} {members : List (String × Value)}
    (h : Anthropic.choice v = .ok (some members)) :
    Value.lastMember "disable_parallel_tool_use" members = none := by
  unfold Anthropic.choice at h
  split at h
  · have hmembers := Except.ok.inj h
    split at hmembers
    · cases hmembers
    · split at hmembers <;>
      · cases hmembers
        simp
  · obtain ⟨name, _, hname⟩ := exists_of_map h
    obtain ⟨text, _, hmembers⟩ := Option.map_eq_some_iff.mp hname
    subst hmembers
    simp
  · cases h

/-- The flag goes with a choice of the client's, and stays behind with it. -/
theorem at?_parallel {picked : Option (List (String × Value))}
    (h : Anthropic.choice req.toolChoice = .ok picked) :
    (body req model messages (picked.map (withParallel req)) schema).at?
      ["tool_choice", "disable_parallel_tool_use"] = some (.bool true) ↔
      req.parallelToolCalls = some false ∧ picked.isSome ∧ ¬ schema.isSome := by
  rw [Value.at?_cons, get?_toolChoice]
  cases schema with
  | some v => simp [finalChoice, Value.at?_cons, Value.at?_nil, Value.get?_build]
  | none =>
    cases picked with
    | none => simp [finalChoice]
    | some members =>
      have hflag := lastMember_parallel h
      by_cases hparallel : req.parallelToolCalls = some false <;>
      simp [finalChoice, withParallel, Value.at?_cons, Value.at?_nil, Value.get?_build, hflag,
        hparallel]

theorem represented_parallel_iff {picked : Option (List (String × Value))}
    (hchoice : Anthropic.choice req.toolChoice = .ok picked)
    (hschema : schema.isSome = true ↔ AsksSchema req) :
    (∀ parallel, req.parallelToolCalls = some parallel →
      Represented req (body req model messages (picked.map (withParallel req)) schema)
        (.parallelToolCalls parallel)) ↔
    (req.parallelToolCalls = some false → choosesNone req = true ∨
      picked.isSome ∧ ¬ AsksSchema req) := by
  unfold Represented
  simp only [at?_parallel hchoice, hschema]
  constructor
  · intro h hfalse
    rcases h false hfalse with hnone | hflag
    · exact Or.inl hnone
    · exact Or.inr (hflag.mpr rfl).2
  · intro h parallel hparallel
    cases parallel with
    | true => exact Or.inr (by simp [hparallel])
    | false =>
      rcases h hparallel with hnone | hgoes
      · exact Or.inl hnone
      · exact Or.inr (by simp [hparallel, hgoes])

theorem formats_iff {format : Value} {picked : Option Value}
    (hformat : req.responseFormat = some format) (h : emulated req.responseFormat = .ok schema) :
    Formats (body req model messages picked schema) format ↔
      format.index "type" = .string "text" ∨ format.index "type" = .string "json_schema" := by
  rw [hformat] at h
  unfold Formats
  constructor
  · intro hrep
    rcases hrep with htext | hschema
    · exact Or.inl htext
    · exact Or.inr hschema.1
  · intro htype
    rcases htype with htext | htype
    · exact Or.inl htext
    · refine Or.inr ⟨htype, ?_⟩
      rcases emulated_cases h with ⟨_, hschema⟩ | ⟨hother, _⟩
      · subst hschema
        refine ⟨?_, (clientTools req).getD [] ++ [schemaTool ((format.index "json_schema").index
          "schema")], ?_, schemaTool ((format.index "json_schema").index "schema"), ?_, ?_, ?_⟩
        · simp [Chooses, Value.at?_cons, Value.at?_nil, get?_toolChoice, finalChoice,
            Value.get?_build]
        · rw [get?_tools]
          rfl
        · simp
        · simp [schemaTool, Value.get?_build]
        · simp [schemaTool, Value.get?_build]
      · exact absurd htype hother

theorem kept_iff {represented : Setting → Prop} {s : Setting} (hs : s.isField = true)
    (hword : ∀ name ∈ s.names, (name, true) ∉ unsupported req) :
    Kept represented (dropped req model) s ↔ represented s :=
  kept_field_iff hs (List.filter_subset_self _) hword

theorem kept_extra {key : String} {v : Value} (hmem : (key, v) ∈ req.extra) :
    Kept (Represented req (body req model messages choice schema)) (dropped req model)
      (.extra key v) := by
  by_cases hcarried : key = "reasoning_effort" ∧ (effort req model).isSome = true
  · obtain ⟨hkey, heffort⟩ := hcarried
    subst hkey
    obtain ⟨level, hlevel⟩ := Option.isSome_iff_exists.mp heffort
    -- The effort is the string that the extra is.
    have hv : v = .string level := by
      obtain ⟨hasked, _⟩ := Option.filter_eq_some_iff.mp hlevel
      rw [extraValue_iff.mpr hmem, Option.bind_some] at hasked
      cases v <;> simp_all [Value.asStr]
    refine Or.inl ?_
    simp [Represented, Value.at?_cons, Value.at?_nil, get?_effort, hlevel, Value.get?_build, hv]
  · refine Or.inr ⟨key, List.mem_singleton_self key, List.mem_append_right _ ?_⟩
    exact List.mem_filter.mpr ⟨mem_extraKeys hmem, decide_eq_true hcarried⟩

/-- The condition on each of the settings comes from the settings themselves. -/
theorem whole_of_noneLost {picked : Option (List (String × Value))}
    (hchoice : Anthropic.choice req.toolChoice = .ok picked)
    (hschema : emulated req.responseFormat = .ok schema)
    (h : NoneLost req
      (Represented req (body req model messages (picked.map (withParallel req)) schema))
      (dropped req model)) : Whole req where
  user := by
    by_contra hsome
    obtain ⟨user, huser⟩ := Option.ne_none_iff_exists'.mp hsome
    have hrep := (kept_iff rfl (by simp [Setting.names, Setting.name, unsupported])).mp
      (h (.user user) huser)
    simp [Represented, Value.at?_cons, get?_foreign] at hrep
  n := by
    intro hzero
    have hrep := (kept_iff rfl (by simp [Setting.names, Setting.name, unsupported])).mp
      (h (.n 0) hzero)
    exact absurd hrep (by simp [Represented])
  ceiling := by
    intro max hmax other hother
    have hrep := (kept_iff rfl (by simp [Setting.names, Setting.name, unsupported])).mp
      (h (.maxTokens max) hmax)
    simp only [Represented, get?_maxTokens, effective_of_completion hother, Option.getD_some,
      Option.some.injEq] at hrep
    exact (ofU64_injective hrep).symm
  format := by
    intro format hformat
    have hrep := (kept_iff rfl (by simp [Setting.names, Setting.name, unsupported])).mp
      (h (.responseFormat format) hformat)
    exact (formats_iff hformat hschema).mp hrep
  choice := by
    intro v hv
    have hrep := (kept_iff rfl (by simp [Setting.names, Setting.name, unsupported])).mp
      (h (.toolChoice v) hv)
    obtain ⟨c, hc, hchooses⟩ := hrep
    rw [hv, choice_of_known hc] at hchoice
    cases hchoice
    refine ⟨c, hc, fun hasks => ?_⟩
    exact (chooses_iff (choosesNone_of_known hv hc)).mp hchooses
      ((isSome_emulated hschema).mpr hasks)
  parallel := by
    intro hparallel
    have hrep := (represented_parallel_iff hchoice (isSome_emulated hschema)).mp
      (fun parallel hset => (kept_iff rfl (by simp [Setting.names, Setting.name, unsupported])).mp
        (h (.parallelToolCalls parallel) hset)) hparallel
    refine hrep.imp_right fun hgoes => ⟨?_, hgoes.2⟩
    cases hv : req.toolChoice with
    | some v => rfl
    | none =>
      rw [hv] at hchoice
      cases hchoice
      cases hgoes.1

theorem noneLost_of_whole {picked : Option (List (String × Value))}
    (hmany : req.n.any (1 < ·) = false) (hlogprobs : req.logprobs ≠ some true)
    (hchoice : Anthropic.choice req.toolChoice = .ok picked)
    (hschema : emulated req.responseFormat = .ok schema) (hwhole : Whole req) :
    NoneLost req
      (Represented req (body req model messages (picked.map (withParallel req)) schema))
      (dropped req model) := by
  intro s hset
  cases s with
  | tools tools => exact Or.inl (represented_tools hset)
  | toolChoice v =>
    obtain ⟨c, hc, hforced⟩ := hwhole.choice v hset
    have hknown := hchoice
    rw [show req.toolChoice = some v from hset, choice_of_known hc] at hknown
    cases hknown
    refine Or.inl ⟨c, hc, (chooses_iff (choosesNone_of_known hset hc)).mpr fun hsome => ?_⟩
    exact hforced ((isSome_emulated hschema).mp hsome)
  | parallelToolCalls parallel =>
    refine Or.inl ((represented_parallel_iff hchoice (isSome_emulated hschema)).mpr ?_ _ hset)
    intro hfalse
    rcases hwhole.parallel hfalse with hnone | ⟨hgiven, hschema⟩
    · exact Or.inl hnone
    · obtain ⟨v, hv⟩ := Option.isSome_iff_exists.mp hgiven
      obtain ⟨c, hc, _⟩ := hwhole.choice v hv
      have hknown := hchoice
      rw [hv, choice_of_known hc] at hknown
      cases hknown
      by_cases hnone : c = .none
      · exact Or.inl (choosesNone_of_known hv hc hnone)
      · exact Or.inr ⟨by cases c <;> simp_all [choiceMembers], hschema⟩
  | temperature t => exact Or.inl (by simp [Represented, get?_temperature, show _ = _ from hset])
  | topP p => exact Or.inl (by simp [Represented, get?_topP, show _ = _ from hset])
  | maxTokens max =>
    exact Or.inl (by simp [Represented, get?_maxTokens, hwhole.ceiling.effective hset])
  | maxCompletionTokens max =>
    exact Or.inl (by simp [Represented, get?_maxTokens, effective_of_completion hset])
  | stop stop => exact Or.inl (by simp [Represented, get?_stop, show _ = _ from hset])
  | n n =>
    refine Or.inl (one_of_not_many ?_ ?_)
    · intro hzero
      exact hwhole.n (hzero ▸ hset)
    · rw [show req.n = some n from hset] at hmany
      simpa using hmany
  | stream stream =>
    refine Or.inl ?_
    cases stream <;> simp [Represented, get?_stream, show _ = _ from hset]
  | responseFormat format =>
    exact Or.inl ((formats_iff hset hschema).mpr (hwhole.format format hset))
  | logprobs logprobs =>
    refine Or.inl ?_
    cases logprobs with
    | true => exact absurd hset hlogprobs
    | false => simp [Represented, get?_foreign]
  | streamOptions v | presencePenalty v | frequencyPenalty v | seed v =>
    refine kept_of_unsupported (List.mem_singleton_self _) ?_
    simp [Setting.name, unsupported, show _ = _ from hset]
  | user user =>
    rw [Sets, hwhole.user] at hset
    cases hset
  | extra key v => exact kept_extra hset

theorem buildRequest_ok {serdeError : String → String} {built : Anthropic.BuiltRequest}
    (h : buildRequest serdeError req model = .ok built) :
    req.n.any (1 < ·) = false ∧ req.logprobs ≠ some true ∧
      ∃ messages picked schema, Anthropic.choice req.toolChoice = .ok picked ∧
        emulated req.responseFormat = .ok schema ∧
        built = ⟨⟨body req model messages (picked.map (withParallel req)) schema,
          dropped req model⟩, schema.isSome⟩ := by
  unfold buildRequest at h
  obtain ⟨_, hmany, h⟩ := exists_of_bind h
  obtain ⟨_, hlogprobs, h⟩ := exists_of_bind h
  obtain ⟨messages, _, h⟩ := exists_of_bind h
  obtain ⟨picked, hchoice, h⟩ := exists_of_bind h
  obtain ⟨schema, hschema, h⟩ := exists_of_bind h
  cases h
  exact ⟨not_asked hmany, by simpa using not_asked hlogprobs, messages, picked, schema, hchoice,
    hschema, rfl⟩

theorem noneLost_iff {serdeError : String → String} {built : Anthropic.BuiltRequest}
    (h : buildRequest serdeError req model = .ok built) :
    NoneLost req (Represented req built.body) built.droppedParams ↔ Whole req := by
  obtain ⟨hmany, hlogprobs, messages, picked, schema, hchoice, hschema, rfl⟩ := buildRequest_ok h
  constructor
  · exact whole_of_noneLost hchoice hschema
  · exact noneLost_of_whole hmany hlogprobs hchoice hschema

end

end Anthropic

/-! ## Gemini -/

namespace Gemini

def Chooses (body : Value) : Choice → Prop
  | .auto => body.at? ["toolConfig", "functionCallingConfig", "mode"] = some (.string "AUTO")
  | .none => body.at? ["toolConfig", "functionCallingConfig", "mode"] = some (.string "NONE")
  | .required => body.at? ["toolConfig", "functionCallingConfig", "mode"] = some (.string "ANY") ∧
      body.at? ["toolConfig", "functionCallingConfig", "allowedFunctionNames"] = none
  | .function name =>
      body.at? ["toolConfig", "functionCallingConfig", "mode"] = some (.string "ANY") ∧
      body.at? ["toolConfig", "functionCallingConfig", "allowedFunctionNames"] =
        some (.array [.string name])

def Formats (body format : Value) : Prop :=
  format.index "type" = .string "text" ∨
  body.at? ["generationConfig", "responseMimeType"] = some (.string "application/json") ∧
    (format.index "type" = .string "json_object" ∨
      format.index "type" = .string "json_schema" ∧
        body.at? ["generationConfig", "responseSchema"] =
          some (strip ((format.index "json_schema").index "schema")))

/-- Where a request has a setting. It is the path that asks for a stream; a schema is
without the words that the API does not take. -/
def Represented (req : ChatRequest) (body : Value) : Setting → Prop
  | .tools tools => ∃ group, body.get? "tools" = some (.array [group]) ∧
      DeclaresAll [] ["parameters"] strip (group.get? "functionDeclarations") tools
  | .toolChoice v => ∃ choice, Choice.ofValue v = some choice ∧ Chooses body choice
  | .temperature t => body.at? ["generationConfig", "temperature"] = some (.number t)
  | .topP p => body.at? ["generationConfig", "topP"] = some (.number p)
  | .maxTokens max | .maxCompletionTokens max =>
      body.at? ["generationConfig", "maxOutputTokens"] = some (ofU64 max)
  | .stop stop => body.at? ["generationConfig", "stopSequences"] = some (stopSequences stop)
  | .n n => body.at? ["generationConfig", "candidateCount"] = some (ofU32 n)
  | .stream stream => action (req.stream = some true) = action true ↔ stream = true
  | .responseFormat format => Formats body format
  | .logprobs logprobs =>
      body.at? ["generationConfig", "responseLogprobs"] = some (.bool true) ↔ logprobs = true
  | .extra key v => body.get? key = some v
  | s => (body.get? s.name).isSome

structure Whole (req : ChatRequest) : Prop where
  user : req.user = none
  ceiling : OneCeiling req
  format : ∀ format, req.responseFormat = some format → format.index "type" = .string "text" ∨
    format.index "type" = .string "json_object" ∨ format.index "type" = .string "json_schema"
  choice : ∀ v, req.toolChoice = some v → (Choice.ofValue v).isSome

section
variable {req : ChatRequest} {contents : List Value} {picked : Option Value}

theorem at?_generation (name : String) :
    (body req contents picked).at? ["generationConfig", name] =
      Value.lastMember name (generation req) := by
  rw [← Value.bind_at?_nonempty, Value.at?_cons]
  simp [body, Value.get?_build]

theorem at?_mode (name : String) :
    (body req contents picked).at? ["toolConfig", "functionCallingConfig", name] =
      picked.bind (Value.at? [name]) := by
  cases picked <;> simp [body, Value.get?_build, Value.at?_cons, Value.at?_nil]

theorem declares_declaration (t : Core.Tool) :
    Declares [] ["parameters"] strip (declaration t) t := by
  refine ⟨?_, ?_, ?_⟩
  · simp [declaration, Value.at?_cons, Value.at?_nil, Value.get?_build]
  · intro text htext
    simp [declaration, Value.at?_cons, Value.at?_nil, Value.get?_build, htext, ofText]
  · intro v hv
    simp [declaration, Value.at?_cons, Value.at?_nil, Value.get?_build, schemaOf, hv]

theorem represented_tools {tools : List Core.Tool} (htools : req.tools = some tools) :
    Represented req (body req contents picked) (.tools tools) := by
  refine ⟨.ofMembers [("functionDeclarations", .array (tools.map declaration))], ?_,
    tools.map declaration, [], ?_, forall₂_declares declares_declaration tools⟩
  · simp [body, Value.get?_build, htools]
  · simp [Value.get?_build]

/-- The mode that a choice is written as. -/
def modeOf : Choice → Value
  | .auto => .ofMembers [("mode", .string "AUTO")]
  | .none => .ofMembers [("mode", .string "NONE")]
  | .required => .ofMembers [("mode", .string "ANY")]
  | .function name => .ofMembers [("mode", .string "ANY"),
      ("allowedFunctionNames", .array [.string name])]

theorem mode_of_known {v : Value} {c : Choice} (hv : Choice.ofValue v = some c) :
    mode v = .ok (modeOf c) := by
  cases v with
  | string s =>
    rcases Choice.of_string hv with ⟨rfl, rfl⟩ | ⟨rfl, rfl⟩ | ⟨rfl, rfl⟩ <;> rfl
  | object members =>
    obtain ⟨name, hname, rfl⟩ := Choice.of_object hv
    show (functionName (.object members)).map _ = _
    rw [hname]
    rfl
  | _ => cases hv

theorem chooses_modeOf (c : Choice) : Chooses (body req contents (some (modeOf c))) c := by
  cases c <;> simp [Chooses, at?_mode, Value.at?_single, modeOf, Value.get?_build]

theorem formats_iff {format : Value} (hformat : req.responseFormat = some format) :
    Formats (body req contents picked) format ↔ format.index "type" = .string "text" ∨
      format.index "type" = .string "json_object" ∨
        format.index "type" = .string "json_schema" := by
  have hmime : Value.lastMember "responseMimeType" (generation req) = mimeType req := by
    simp [generation]
  have hschema : Value.lastMember "responseSchema" (generation req) = responseSchema req := by
    simp [generation]
  have htype : formatType req = (format.index "type").asStr := by
    simp [formatType, hformat]
  unfold Formats
  rw [at?_generation, at?_generation, hmime, hschema]
  unfold mimeType responseSchema
  rw [htype, hformat]
  cases format.index "type" with
  | string type =>
    by_cases hobject : type = "json_object" <;>
    by_cases hschema : type = "json_schema" <;>
    simp [Value.asStr, hobject, hschema]
  | _ => simp [Value.asStr]

theorem kept_iff {represented : Setting → Prop} {s : Setting} (hs : s.isField = true)
    (hword : ∀ name ∈ s.names, (name, true) ∉ unsupported req) :
    Kept represented (dropped req) s ↔ represented s :=
  kept_field_iff hs (List.Subset.refl _) hword

/-- The ceiling of a body is that of the request, under either name. -/
theorem at?_maxTokens : (body req contents picked).at? ["generationConfig", "maxOutputTokens"] =
    req.effectiveMaxTokens.map ofU64 := by
  simp [at?_generation, generation]

theorem whole_of_noneLost
    (h : NoneLost req (Represented req (body req contents picked)) (dropped req)) :
    Whole req where
  user := by
    by_contra hsome
    obtain ⟨user, huser⟩ := Option.ne_none_iff_exists'.mp hsome
    have hrep := (kept_iff rfl (by simp [Setting.names, Setting.name, unsupported])).mp
      (h (.user user) huser)
    simp [Represented, Setting.name, body, Value.get?_build] at hrep
  ceiling := by
    refine oneCeiling_of_effective fun max hmax => ?_
    have hrep := (kept_iff rfl (by simp [Setting.names, Setting.name, unsupported])).mp
      (h (.maxTokens max) hmax)
    exact effective_of_map (at?_maxTokens.symm.trans hrep)
  format := by
    intro format hformat
    have hrep := (kept_iff rfl (by simp [Setting.names, Setting.name, unsupported])).mp
      (h (.responseFormat format) hformat)
    exact (formats_iff hformat).mp hrep
  choice := by
    intro v hv
    have hrep := (kept_iff rfl (by simp [Setting.names, Setting.name, unsupported])).mp
      (h (.toolChoice v) hv)
    obtain ⟨c, hc, _⟩ := hrep
    rw [hc]
    rfl

theorem noneLost_of_whole (hlogprobs : req.logprobs ≠ some true)
    (hchoice : Gemini.choice req.toolChoice = .ok picked) (hwhole : Whole req) :
    NoneLost req (Represented req (body req contents picked)) (dropped req) := by
  intro s hset
  cases s with
  | tools tools => exact Or.inl (represented_tools hset)
  | toolChoice v =>
    obtain ⟨c, hc⟩ := Option.isSome_iff_exists.mp (hwhole.choice v hset)
    rw [show req.toolChoice = some v from hset] at hchoice
    obtain ⟨m, hm, rfl⟩ := exists_of_map hchoice
    rw [mode_of_known hc] at hm
    cases hm
    exact Or.inl ⟨c, hc, chooses_modeOf c⟩
  | temperature t =>
    exact Or.inl (by simp [Represented, at?_generation, generation, show _ = _ from hset])
  | topP p =>
    exact Or.inl (by simp [Represented, at?_generation, generation, show _ = _ from hset])
  | maxTokens max =>
    exact Or.inl (by simp [Represented, at?_maxTokens, hwhole.ceiling.effective hset])
  | maxCompletionTokens max =>
    exact Or.inl (by simp [Represented, at?_maxTokens, effective_of_completion hset])
  | stop stop =>
    exact Or.inl (by simp [Represented, at?_generation, generation, show _ = _ from hset])
  | n n => exact Or.inl (by simp [Represented, at?_generation, generation, show _ = _ from hset])
  | stream stream =>
    refine Or.inl ?_
    cases stream <;> simp [Represented, action, show _ = _ from hset]
  | responseFormat format => exact Or.inl ((formats_iff hset).mpr (hwhole.format format hset))
  | logprobs logprobs =>
    refine Or.inl ?_
    cases logprobs with
    | true => exact absurd hset hlogprobs
    | false => simp [Represented, at?_generation, generation]
  | parallelToolCalls v | streamOptions v | presencePenalty v | frequencyPenalty v | seed v =>
    refine kept_of_unsupported (List.mem_singleton_self _) ?_
    simp [Setting.name, unsupported, show _ = _ from hset]
  | user user =>
    rw [Sets, hwhole.user] at hset
    cases hset
  | extra key v =>
    exact Or.inr ⟨key, List.mem_singleton_self key, List.mem_append_right _ (mem_extraKeys hset)⟩

theorem noneLost_iff {serdeError : String → String} {built : BuiltRequest}
    (h : buildRequest serdeError req = .ok built) :
    NoneLost req (Represented req built.body) built.droppedParams ↔ Whole req := by
  unfold buildRequest at h
  obtain ⟨_, hlogprobs, h⟩ := exists_of_bind h
  obtain ⟨contents, _, h⟩ := exists_of_bind h
  obtain ⟨picked, hchoice, h⟩ := exists_of_bind h
  cases h
  constructor
  · exact whole_of_noneLost
  · exact noneLost_of_whole (by simpa using not_asked hlogprobs) hchoice

end

end Gemini

end RapidRouter.Providers.Requests
