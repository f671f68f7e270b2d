import RapidRouter.Providers.Render

/-!
# Chunks, and the completion they fold to

Every upstream translator of a stream builds its chunks alike (`openAiChunk`),
from a handful of deltas, and `aggregateChunks` folds chunks back into one
completion. What the fold keeps of a chunk is its delta, its finish and its
usage (`Aggregate.onChunk_delta`); a completion is compared by what a client
takes from it, its `answer`.
-/

namespace RapidRouter.Providers

open Json

/-! ## Chunks -/

/-- `to_string` of a value. -/
def printText (v : Value) : String := (fromUtf8? v.print).getD ""

theorem utf8_printText (v : Value) : utf8 (printText v) = v.print := by
  obtain ⟨s, hs⟩ := (oneLine_print v).isText
  unfold printText
  rw [hs, fromUtf8?_utf8]
  rfl

/-- What parsed once can be printed and parsed again. -/
theorem fromStr_printText {text : String} {v : Value} (h : fromStr text = some v) :
    fromStr (printText v) = some v := by
  unfold fromStr
  rw [utf8_printText]
  exact Value.fromSlice_print_of_read h

/-- `chunk` of a translator: one choice with a delta. -/
def openAiChunk (id model : String) (delta : Value) (finish : Option String) : Value :=
  .ofMembers [("id", .string id), ("object", .string "chat.completion.chunk"),
    ("model", .string model),
    ("choices", .array [.ofMembers [("index", .ofU64 0), ("delta", delta),
      ("finish_reason", (finish.map .string).getD .null)]])]

/-- `chunk["usage"] = usage`. -/
def withUsage (chunk usage : Value) : Value := (chunk.setIndex "usage" usage).getD chunk

/-- The delta that opens the message. -/
def roleDelta : Value := .ofMembers [("role", .string "assistant"), ("content", .string "")]

def contentDelta (text : Value) : Value := .ofMembers [("content", text)]

/-- The delta that opens a tool call. -/
def callDelta (index : Nat) (id name : Value) (arguments : String) : Value :=
  .ofMembers [("tool_calls", .array [.ofMembers [("index", .ofU64 index), ("id", id),
    ("type", .string "function"),
    ("function", .ofMembers [("name", name), ("arguments", .string arguments)])]])]

def argumentsDelta (index : Nat) (fragment : String) : Value :=
  .ofMembers [("tool_calls", .array [.ofMembers [("index", .ofU64 index),
    ("function", .ofMembers [("arguments", .string fragment)])]])]

/-- A whole tool call, as a message lists it. -/
def functionCall (id name arguments : Value) : Value :=
  .ofMembers [("id", id), ("type", .string "function"),
    ("function", .ofMembers [("name", name), ("arguments", arguments)])]

/-- The message of a whole answer: its content is null when there are only calls. -/
def answerMessage (text : String) (calls : List Value) : Value :=
  let content := if text = "" ∧ calls ≠ [] then .null else .string text
  .ofMembers ([("role", .string "assistant"), ("content", content)] ++
    if calls = [] then [] else [("tool_calls", .array calls)])

def openAiCompletion (id model message : Value) (finish : String) (usage : Value) : Value :=
  .ofMembers [("id", id), ("object", .string "chat.completion"), ("model", model),
    ("choices", .array [.ofMembers [("index", .ofU64 0), ("message", message),
      ("finish_reason", .string finish)]]),
    ("usage", usage)]

/-! ## The fold -/

/-- What is reassembled of an answer. A call is its id, its name and its arguments. -/
structure Assembled where
  content : String
  calls : List (String × String × String)
  finish : String
  usage : Option Value

/-- The variables of `aggregate_chunks`. -/
structure Aggregate extends Assembled where
  id : String
  model : String

namespace Aggregate

def init : Aggregate := ⟨⟨"", [], "stop", none⟩, "chatcmpl-codex", ""⟩

/-- `resize` of the calls up to an index, when there are fewer. -/
def upTo (calls : List (String × String × String)) (index : Nat) : List (String × String × String) :=
  calls ++ List.replicate (index + 1 - calls.length) ("", "", "")

/-- `&mut calls[index]`. -/
def editCall (calls : List (String × String × String)) (index : Nat)
    (f : String × String × String → String × String × String) : List (String × String × String) :=
  (upTo calls index).modify index f

def onCall (calls : List (String × String × String)) (call : Value) :
    List (String × String × String) :=
  editCall calls (toolIndex call) fun entry =>
    ((nonEmptyStr (call.index "id")).getD entry.1,
      (nonEmptyStr ((call.index "function").index "name")).getD entry.2.1,
      entry.2.2 ++ ((call.index "function").index "arguments").asStr.getD "")

def onChunk (self : Aggregate) (chunk : Value) : Aggregate :=
  let choice := firstChoice chunk
  let delta := choice.index "delta"
  { id := (chunk.index "id").asStr.getD self.id
    model := (nonEmptyStr (chunk.index "model")).getD self.model
    usage := if (chunk.index "usage").isObject then some (chunk.index "usage") else self.usage
    finish := (choice.index "finish_reason").asStr.getD self.finish
    content := self.content ++ (delta.index "content").asStr.getD ""
    calls := (elements (delta.index "tool_calls")).foldl onCall self.calls }

/-- The message: its content is null when there are only calls. -/
def message (self : Assembled) : Value :=
  let content := if self.content ≠ "" ∨ self.calls = [] then .string self.content else .null
  .ofMembers ([("role", .string "assistant"), ("content", content)] ++
    if self.calls = [] then []
    else [("tool_calls", .array (self.calls.map fun (id, name, arguments) =>
      functionCall (.string id) (.string name) (.string arguments)))])

def completion (self : Aggregate) : Value :=
  .ofMembers ([("id", .string self.id), ("object", .string "chat.completion"),
    ("model", .string self.model),
    ("choices", .array [.ofMembers [("index", .ofU64 0), ("message", message self.toAssembled),
      ("finish_reason", .string self.finish)]])] ++
    self.usage.toList.map fun usage => ("usage", usage))

end Aggregate

/-- `aggregate_chunks`. -/
def aggregateChunks (chunks : List Value) : Value :=
  (chunks.foldl Aggregate.onChunk .init).completion

/-! ## What a client takes from a completion -/

structure Call where
  id : Value
  name : Value
  arguments : Value

structure Answer where
  content : Value
  calls : List Call
  finish : Value
  usage : Value

def callOf (call : Value) : Call :=
  ⟨call.index "id", (call.index "function").index "name", (call.index "function").index "arguments"⟩

def answer (completion : Value) : Answer :=
  let message := (firstChoice completion).index "message"
  { content := message.index "content"
    calls := (elements (message.index "tool_calls")).map callOf
    finish := (firstChoice completion).index "finish_reason"
    usage := completion.index "usage" }

/-- A call with its arguments parsed, if they can be. -/
def Call.parsed (call : Call) : Value × Value × Option Value :=
  (call.id, call.name, call.arguments.asStr.bind fromStr)

/-- The same answers, the arguments being compared by what they parse to. -/
def Answer.Same (a b : Answer) : Prop :=
  a.content = b.content ∧ a.calls.map Call.parsed = b.calls.map Call.parsed ∧
    a.finish = b.finish ∧ a.usage = b.usage

theorem answer_completion (self : Aggregate) :
    answer self.completion =
      { content := if self.content ≠ "" ∨ self.calls = [] then .string self.content else .null
        calls := self.calls.map fun (id, name, arguments) =>
          ⟨.string id, .string name, .string arguments⟩
        finish := .string self.finish
        usage := self.usage.getD .null } := by
  have hchoice : firstChoice self.completion = .ofMembers [("index", .ofU64 0),
      ("message", Aggregate.message self.toAssembled), ("finish_reason", .string self.finish)] := by
    cases hu : self.usage <;>
      simp [firstChoice, Aggregate.completion, Value.index_ofMembers, Value.at_, hu]
  have husage : self.completion.index "usage" = self.usage.getD .null := by
    cases hu : self.usage <;> simp [Aggregate.completion, Value.index_ofMembers, hu]
  unfold answer
  rw [hchoice, husage]
  cases hcalls : self.calls with
  | nil => simp [Aggregate.message, Value.index_ofMembers, hcalls, elements, Value.asArray]
  | cons call rest =>
    simp [Aggregate.message, Value.index_ofMembers, hcalls, elements, Value.asArray, callOf,
      functionCall, Function.comp_def]

theorem answer_openAiCompletion (id model : Value) (text : String) (calls : List Value)
    (finish : String) (usage : Value) :
    answer (openAiCompletion id model (answerMessage text calls) finish usage) =
      { content := if text = "" ∧ calls ≠ [] then .null else .string text
        calls := calls.map callOf
        finish := .string finish
        usage := usage } := by
  have hchoice : firstChoice (openAiCompletion id model (answerMessage text calls) finish usage) =
      .ofMembers [("index", .ofU64 0), ("message", answerMessage text calls),
        ("finish_reason", .string finish)] := by
    simp [firstChoice, openAiCompletion, Value.index_ofMembers, Value.at_]
  have husage : (openAiCompletion id model (answerMessage text calls) finish usage).index "usage" =
      usage := by
    simp [openAiCompletion, Value.index_ofMembers]
  unfold answer
  rw [hchoice, husage]
  by_cases hcalls : calls = [] <;>
    simp [answerMessage, Value.index_ofMembers, hcalls, elements, Value.asArray]

/-! ## What the fold keeps of a chunk -/

/-- A delta as the translators build them. -/
inductive Delta where
  | role
  | content (text : String)
  | call (index : Nat) (id name : Value) (arguments : String)
  | arguments (index : Nat) (fragment : String)
  | finish (reason : String) (usage : Value)

namespace Delta

def chunk (id model : String) : Delta → Value
  | .role => openAiChunk id model roleDelta none
  | .content text => openAiChunk id model (contentDelta (.string text)) none
  | .call index callId name args => openAiChunk id model (callDelta index callId name args) none
  | .arguments index fragment => openAiChunk id model (argumentsDelta index fragment) none
  | .finish reason usage =>
    withUsage (openAiChunk id model (.ofMembers []) (some reason)) usage

/-- What a delta adds to what is reassembled. -/
def apply (a : Assembled) : Delta → Assembled
  | .role => a
  | .content text => { a with content := a.content ++ text }
  | .call index id name args =>
    { a with calls := Aggregate.editCall a.calls (index % 2 ^ 64) fun entry =>
        ((nonEmptyStr id).getD entry.1, (nonEmptyStr name).getD entry.2.1, entry.2.2 ++ args) }
  | .arguments index fragment =>
    { a with calls := Aggregate.editCall a.calls (index % 2 ^ 64) fun entry =>
        (entry.1, entry.2.1, entry.2.2 ++ fragment) }
  | .finish reason usage =>
    { a with finish := reason, usage := if usage.isObject then some usage else a.usage }

end Delta

section

variable (id model : String) (delta : Value) (finish : Option String)

theorem firstChoice_chunk : firstChoice (openAiChunk id model delta finish) =
    .ofMembers [("index", .ofU64 0), ("delta", delta),
      ("finish_reason", (finish.map .string).getD .null)] := by
  simp [firstChoice, openAiChunk, Value.index_ofMembers, Value.at_]

theorem usage_chunk : (openAiChunk id model delta finish).index "usage" = .null := by
  simp [openAiChunk, Value.index_ofMembers]

end

/-- What the fold takes of a chunk that a translator built. -/
theorem Aggregate.onChunk_chunk (self : Aggregate) (id model : String) (delta : Value) :
    (self.onChunk (openAiChunk id model delta none)).toAssembled =
      { self.toAssembled with
        content := self.content ++ (delta.index "content").asStr.getD ""
        calls := (elements (delta.index "tool_calls")).foldl onCall self.calls } := by
  unfold onChunk
  rw [firstChoice_chunk, usage_chunk]
  simp [Value.index_ofMembers, Value.asStr, Value.isObject]

theorem Aggregate.onChunk_delta (self : Aggregate) (id model : String) (d : Delta) :
    (self.onChunk (d.chunk id model)).toAssembled = d.apply self.toAssembled := by
  cases d with
  | role =>
    rw [show Delta.role.chunk id model = openAiChunk id model roleDelta none from rfl,
      onChunk_chunk]
    simp [roleDelta, Value.index_ofMembers, Value.asStr, elements, Value.asArray, Delta.apply]
  | content text =>
    rw [show (Delta.content text).chunk id model =
      openAiChunk id model (contentDelta (.string text)) none from rfl, onChunk_chunk]
    simp [contentDelta, Value.index_ofMembers, Value.asStr, elements, Value.asArray, Delta.apply]
  | call index callId name args =>
    rw [show (Delta.call index callId name args).chunk id model =
      openAiChunk id model (callDelta index callId name args) none from rfl, onChunk_chunk]
    simp [callDelta, Value.index_ofMembers, Value.asStr, elements, Value.asArray, Delta.apply,
      onCall, toolIndex, Value.asU64, Value.ofU64]
  | arguments index fragment =>
    rw [show (Delta.arguments index fragment).chunk id model =
      openAiChunk id model (argumentsDelta index fragment) none from rfl, onChunk_chunk]
    simp [argumentsDelta, Value.index_ofMembers, Value.asStr, elements, Value.asArray, Delta.apply,
      onCall, toolIndex, Value.asU64, Value.ofU64, nonEmptyStr]
  | finish reason usage =>
    unfold onChunk
    have hchunk : withUsage (openAiChunk id model (.ofMembers []) (some reason)) usage = .ofMembers
        [("id", .string id), ("object", .string "chat.completion.chunk"), ("model", .string model),
          ("choices", .array [.ofMembers [("index", .ofU64 0), ("delta", .ofMembers []),
            ("finish_reason", .string reason)]]), ("usage", usage)] := rfl
    rw [show (Delta.finish reason usage).chunk id model =
      withUsage (openAiChunk id model (.ofMembers []) (some reason)) usage from rfl, hchunk]
    simp [firstChoice, Value.index_ofMembers, Value.at_, Value.asStr, elements, Value.asArray,
      Delta.apply]

/-- A finish without usage. -/
theorem Aggregate.onChunk_finish (self : Aggregate) (id model reason : String) :
    (self.onChunk (openAiChunk id model (.ofMembers []) (some reason))).toAssembled =
      { self.toAssembled with finish := reason } := by
  unfold onChunk
  rw [firstChoice_chunk, usage_chunk]
  simp [Value.index_ofMembers, Value.asStr, elements, Value.asArray, Value.isObject]

/-- Chunks that carry these deltas. -/
def Carries (chunks : List Value) (deltas : List Delta) : Prop :=
  List.Forall₂ (fun c d => ∃ id model, c = d.chunk id model) chunks deltas

theorem Carries.append {chunks chunks' : List Value} {deltas deltas' : List Delta}
    (h : Carries chunks deltas) (h' : Carries chunks' deltas') :
    Carries (chunks ++ chunks') (deltas ++ deltas') := List.rel_append h h'

theorem carries_one (id model : String) (d : Delta) : Carries [d.chunk id model] [d] :=
  .cons ⟨id, model, rfl⟩ .nil

/-- Indices are 64 bits wide. -/
theorem callDelta_mod (index : Nat) (id name : Value) (args : String) :
    callDelta (index % 2 ^ 64) id name args = callDelta index id name args := by
  unfold callDelta Value.ofU64
  simp only [Nat.mod_mod]

theorem argumentsDelta_mod (index : Nat) (fragment : String) :
    argumentsDelta (index % 2 ^ 64) fragment = argumentsDelta index fragment := by
  unfold argumentsDelta Value.ofU64
  simp only [Nat.mod_mod]

theorem Carries.foldl {chunks : List Value} {deltas : List Delta} (h : Carries chunks deltas)
    (self : Aggregate) : (chunks.foldl Aggregate.onChunk self).toAssembled =
      deltas.foldl Delta.apply self.toAssembled := by
  induction h generalizing self with
  | nil => rfl
  | cons hc _ ih =>
    obtain ⟨id, model, rfl⟩ := hc
    rw [List.foldl_cons, List.foldl_cons, ih, Aggregate.onChunk_delta]

/-! ## Calls under dense indices -/

theorem modify_middle {α : Type} (before : List α) (x : α) (after : List α) (f : α → α) :
    (before ++ x :: after).modify before.length f = before ++ f x :: after := by
  induction before with
  | nil => rfl
  | cons y before ih => exact congrArg (y :: ·) ih

theorem Aggregate.editCall_next (calls : List (String × String × String))
    (f : String × String × String → String × String × String) :
    editCall calls calls.length f = calls ++ [f ("", "", "")] := by
  unfold editCall upTo
  rw [Nat.add_sub_cancel_left, List.replicate_one, modify_middle]

/-- An index that there is. -/
theorem Aggregate.editCall_at (before after : List (String × String × String))
    (entry : String × String × String)
    (f : String × String × String → String × String × String) :
    editCall (before ++ entry :: after) before.length f = before ++ f entry :: after := by
  unfold editCall upTo
  have hlength : before.length + 1 - (before ++ entry :: after).length = 0 := by
    rw [List.length_append, List.length_cons]
    omega
  rw [hlength, List.replicate_zero, List.append_nil, modify_middle]

theorem Aggregate.editCall_lt {calls : List (String × String × String)} {index : Nat}
    (h : index < calls.length) (f : String × String × String → String × String × String) :
    editCall calls index f = calls.modify index f := by
  unfold editCall upTo
  rw [show index + 1 - calls.length = 0 by omega, List.replicate_zero, List.append_nil]

/-- A call under the next index is a new one. -/
theorem Delta.apply_call {a : Assembled} {index : Nat} (h : index = a.calls.length)
    (hlt : index < 2 ^ 64) (id name : Value) (args : String) :
    (Delta.call index id name args).apply a = { a with
      calls := a.calls ++ [((nonEmptyStr id).getD "", (nonEmptyStr name).getD "", args)] } := by
  show ({ a with calls := Aggregate.editCall a.calls (index % 2 ^ 64) _ } : Assembled) = _
  rw [Nat.mod_eq_of_lt hlt, h, Aggregate.editCall_next]
  simp only [String.empty_append]

/-- A fragment under the last index is for the last call. -/
theorem Delta.apply_arguments {a : Assembled} {calls : List (String × String × String)}
    {id name args : String} (h : a.calls = calls ++ [(id, name, args)]) (hlt : calls.length < 2 ^ 64)
    (fragment : String) : (Delta.arguments calls.length fragment).apply a = { a with
      calls := calls ++ [(id, name, args ++ fragment)] } := by
  show ({ a with calls := Aggregate.editCall a.calls (calls.length % 2 ^ 64) _ } : Assembled) = _
  rw [Nat.mod_eq_of_lt hlt, h, Aggregate.editCall_at]

theorem Aggregate.onCall_length {calls : List (String × String × String)} (call : Value)
    (h : calls.length ≤ 2 ^ 64) : (onCall calls call).length ≤ 2 ^ 64 := by
  have hindex : toolIndex call < 2 ^ 64 := by
    unfold toolIndex
    cases hi : (call.index "index").asU64 with
    | none => exact Nat.two_pow_pos 64
    | some n => exact Value.asU64_lt hi
  unfold onCall editCall upTo
  rw [List.length_modify, List.length_append, List.length_replicate]
  omega

/-- There are no more calls than indices. -/
theorem Aggregate.foldl_length (chunks : List Value) {self : Aggregate}
    (h : self.calls.length ≤ 2 ^ 64) :
    (chunks.foldl Aggregate.onChunk self).calls.length ≤ 2 ^ 64 := by
  induction chunks generalizing self with
  | nil => exact h
  | cons chunk chunks ih =>
    exact ih (List.foldlRecOn (motive := fun calls => calls.length ≤ 2 ^ 64) _ onCall h
      fun calls hcalls call _ => onCall_length call hcalls)

theorem nonEmptyStr_getD (v : Value) : (nonEmptyStr v).getD "" = v.asStr.getD "" := by
  unfold nonEmptyStr
  cases v.asStr with
  | none => rfl
  | some s =>
    by_cases h : s = ""
    · rw [h]
      rfl
    · rw [Option.filter_some, if_pos (by simpa using h)]

end RapidRouter.Providers
