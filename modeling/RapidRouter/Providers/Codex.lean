import RapidRouter.Core.Router
import RapidRouter.Lib.Firsts
import RapidRouter.Providers.Streamed

/-!
# Codex, event by event

`CodexStreamToOpenAi` (`subscription.rs`) translates the events of the Codex
backend. A call's arguments come in fragments after the event that announces
it, or all at once with the event that it is done, and the translator takes
the fragments of a call exactly when it was announced.

What a run of events is reassembled to is what the events say themselves
(`Tracks.run`): each call once, in the order in which the calls appeared, with
what the events under its index leave of it (`entry`). `codex_calls` says when
that is the arguments the call was done with.
-/

namespace RapidRouter.Providers

open Json Emit Firsts RapidRouter.Core

/-! ## Failures -/

structure StreamFailure where
  code : String
  message : String
  deriving DecidableEq

namespace StreamFailure

/-- `from_error_object`. -/
def fromErrorObject (error : Value) (fallbackCode : String) : StreamFailure :=
  { code := (((error.index "code").asStr.or (error.index "type").asStr).filter (· ≠ "")).getD
      fallbackCode
    message := (nonEmptyStr (error.index "message")).getD
      "the provider ended the stream without a response" }

def toGatewayError (self : StreamFailure) : GatewayError :=
  let class_ : ErrorClass :=
    match self.code with
    | "server_is_overloaded" | "service_unavailable_error" | "overloaded" => .noCapacity
    | "rate_limit_exceeded" | "rate_limit_error" | "usage_limit_reached" => .rateLimited
    | _ => .upstreamError
  .new class_ (self.code ++ ": " ++ self.message)

/-- `to_openai_chunk`: an error, and no choices. -/
def toOpenAiChunk (self : StreamFailure) : Value :=
  .ofMembers [("error", .ofMembers [("message", .string self.message),
    ("type", .string self.toGatewayError.class_.openaiType), ("code", .string self.code)])]

end StreamFailure

/-! ## The translator -/

/-- Without a prompt count there is nothing usable. -/
def codexUsage (usage : Value) : Option Value :=
  let count (name : String) : Option Nat := (usage.index name).asU64
  let detail (name sub : String) : Nat := (((usage.index name).index sub).asU64).getD 0
  match usage.isObject, (count "input_tokens").or (count "prompt_tokens") with
  | true, some prompt =>
    let completion := ((count "output_tokens").or (count "completion_tokens")).getD 0
    let total := (count "total_tokens").getD (prompt + completion)
    some (.ofMembers [("prompt_tokens", .ofU64 prompt), ("completion_tokens", .ofU64 completion),
      ("total_tokens", .ofU64 total),
      ("prompt_tokens_details", .ofMembers
        [("cached_tokens", .ofU64 (detail "input_tokens_details" "cached_tokens"))]),
      ("completion_tokens_details", .ofMembers
        [("reasoning_tokens", .ofU64 (detail "output_tokens_details" "reasoning_tokens"))])])
  | _, _ => none

structure CodexStreamToOpenAi where
  id : String
  model : String
  roleSent : Bool
  /-- The tool index of each output index. -/
  toolIndices : OrdMap Nat Nat
  nextToolIndex : Nat
  sawToolCall : Bool
  usage : Option Value
  failure : Option StreamFailure

namespace CodexStreamToOpenAi

def new (model : String) : CodexStreamToOpenAi := ⟨"", model, false, .empty, 0, false, none, none⟩

def chunk (self : CodexStreamToOpenAi) (delta : Value) (finish : Option String) : Value :=
  openAiChunk (if self.id = "" then "chatcmpl-codex" else self.id) self.model delta finish

/-- The first event with content opens the message. -/
def openRole (self : CodexStreamToOpenAi) : CodexStreamToOpenAi × List Value :=
  if self.roleSent then (self, [])
  else ({ self with roleSent := true }, [self.chunk roleDelta none])

/-- A chunk that the message must be open for. -/
def say (self : CodexStreamToOpenAi) (delta : Value) : CodexStreamToOpenAi × List Value :=
  let (self, role) := self.openRole
  (self, role ++ [self.chunk delta none])

def outputIndex (data : Value) : Nat := (data.index "output_index").asU64.getD 0

/-- The id that a call goes by. -/
def callId (item : Value) : String :=
  ((item.index "call_id").asStr.or (item.index "id").asStr).getD ""

def isFunctionCall (item : Value) : Bool := (item.index "type").asStr == some "function_call"

def onCreated (self : CodexStreamToOpenAi) (data : Value) : CodexStreamToOpenAi :=
  let response := data.index "response"
  { self with
    id := (response.index "id").asStr.getD self.id
    model := (response.index "model").asStr.getD self.model }

/-- The next tool index, for this output index. -/
def assign (self : CodexStreamToOpenAi) (outputIndex : Nat) : CodexStreamToOpenAi :=
  { self with
    toolIndices := self.toolIndices.insert outputIndex self.nextToolIndex
    nextToolIndex := (self.nextToolIndex + 1) % 2 ^ 64 }

/-- `entry(output_index).or_insert_with`: the tool index that a call is announced under. -/
def announced (self : CodexStreamToOpenAi) (outputIndex : Nat) : Nat × CodexStreamToOpenAi :=
  match self.toolIndices.get? outputIndex with
  | some toolIndex => (toolIndex, self)
  | none => (self.nextToolIndex, self.assign outputIndex)

def onItemAdded (self : CodexStreamToOpenAi) (data : Value) : CodexStreamToOpenAi × List Value :=
  let item := data.index "item"
  if isFunctionCall item then
    let (toolIndex, self) := self.announced (outputIndex data)
    { self with sawToolCall := true }.say
      (callDelta toolIndex (.string (callId item)) (item.index "name") "")
  else (self, [])

def onTextDelta (self : CodexStreamToOpenAi) (data : Value) : CodexStreamToOpenAi × List Value :=
  match (data.index "delta").asStr with
  | some delta => self.say (contentDelta (.string delta))
  | none => (self, [])

def onArgumentsDelta (self : CodexStreamToOpenAi) (data : Value) : List Value :=
  match self.toolIndices.get? (outputIndex data) with
  | some toolIndex =>
    [self.chunk (argumentsDelta toolIndex ((data.index "delta").asStr.getD "")) none]
  | none => []

def onItemDone (self : CodexStreamToOpenAi) (data : Value) : CodexStreamToOpenAi × List Value :=
  let item := data.index "item"
  if isFunctionCall item then
    match self.toolIndices.get? (outputIndex data) with
    -- announced, and so its arguments are taken to be complete
    | some _ => (self, [])
    | none =>
      let toolIndex := self.nextToolIndex
      { self.assign (outputIndex data) with sawToolCall := true }.say
        (callDelta toolIndex (.string (callId item)) (item.index "name")
          ((item.index "arguments").asStr.getD ""))
  else (self, [])

/-- Only the first failure is told. -/
def noteFailure (self : CodexStreamToOpenAi) (failure : StreamFailure) :
    CodexStreamToOpenAi × List Value :=
  match self.failure with
  | some _ => (self, [])
  | none => ({ self with failure := some failure }, [failure.toOpenAiChunk])

/-- The finish of an answer, which calls decide when there were any. -/
def finishReason (sawToolCall incomplete : Bool) : String :=
  if sawToolCall then "tool_calls" else if incomplete then "length" else "stop"

/-- `response.completed` or `response.incomplete`. -/
def onTerminal (self : CodexStreamToOpenAi) (incomplete : Bool) (data : Value) :
    CodexStreamToOpenAi × List Value :=
  let self := { self with usage := codexUsage ((data.index "response").index "usage") }
  let chunk := self.chunk (.ofMembers []) (some (finishReason self.sawToolCall incomplete))
  (self, [(self.usage.map (withUsage chunk)).getD chunk])

/-- An event of this kind, with this data. -/
def onData (self : CodexStreamToOpenAi) (kind : String) (data : Value) :
    CodexStreamToOpenAi × List Value :=
  match kind with
  | "response.created" => (self.onCreated data, [])
  | "response.output_item.added" => self.onItemAdded data
  | "response.output_text.delta" => self.onTextDelta data
  | "response.function_call_arguments.delta" => (self, self.onArgumentsDelta data)
  | "response.output_item.done" => self.onItemDone data
  | "error" => self.noteFailure (.fromErrorObject (data.index "error") "stream_error")
  | "response.failed" => self.noteFailure
      (.fromErrorObject ((data.index "response").index "error") "response_failed")
  | "response.completed" => self.onTerminal false data
  | "response.incomplete" => self.onTerminal true data
  | _ => (self, [])

/-- The event's name, or the type its data gives. -/
def kindOf (event : SseEvent) (data : Value) : String :=
  ((event.event.map fun name => (fromUtf8? name).getD "").or (data.index "type").asStr).getD ""

def onEvent (self : CodexStreamToOpenAi) (event : SseEvent) : CodexStreamToOpenAi × List Value :=
  if event.data = utf8 "[DONE]" then (self, [])
  else
    match fromSlice event.data with
    | some data => self.onData (kindOf event data) data
    | none => (self, [])

end CodexStreamToOpenAi

/-! ## What events say -/

namespace Codex

/-- What an event says of the answer. -/
inductive Said where
  | created (id model : Option String)
  | added (index : Nat) (id : String) (name : Value)
  | text (delta : String)
  | arguments (index : Nat) (fragment : String)
  | done (index : Nat) (id : String) (name : Value) (arguments : String)
  | failed (failure : StreamFailure)
  | ended (usage : Option Value) (incomplete : Bool)

open CodexStreamToOpenAi (outputIndex callId isFunctionCall kindOf)

def saidAdded (data : Value) : Option Said :=
  let item := data.index "item"
  if isFunctionCall item then
    some (.added (outputIndex data) (callId item) (item.index "name"))
  else none

def saidDone (data : Value) : Option Said :=
  let item := data.index "item"
  if isFunctionCall item then
    some (.done (outputIndex data) (callId item) (item.index "name")
      ((item.index "arguments").asStr.getD ""))
  else none

def saidData (kind : String) (data : Value) : Option Said :=
  match kind with
  | "response.created" => some (.created ((data.index "response").index "id").asStr
      ((data.index "response").index "model").asStr)
  | "response.output_item.added" => saidAdded data
  | "response.output_text.delta" => (data.index "delta").asStr.map .text
  | "response.function_call_arguments.delta" =>
    some (.arguments (outputIndex data) ((data.index "delta").asStr.getD ""))
  | "response.output_item.done" => saidDone data
  | "error" => some (.failed (.fromErrorObject (data.index "error") "stream_error"))
  | "response.failed" => some (.failed
      (.fromErrorObject ((data.index "response").index "error") "response_failed"))
  | "response.completed" =>
    some (.ended (codexUsage ((data.index "response").index "usage")) false)
  | "response.incomplete" =>
    some (.ended (codexUsage ((data.index "response").index "usage")) true)
  | _ => none

def said (event : SseEvent) : Option Said :=
  (fromSlice event.data).bind fun data => saidData (kindOf event data) data

end Codex

open Codex

namespace CodexStreamToOpenAi

/-- What the translator does with what an event says. -/
def step (self : CodexStreamToOpenAi) : Said → CodexStreamToOpenAi × List Value
  | .created id model => ({ self with id := id.getD self.id, model := model.getD self.model }, [])
  | .added index id name =>
    { (self.announced index).2 with sawToolCall := true }.say
      (callDelta (self.announced index).1 (.string id) name "")
  | .text delta => self.say (contentDelta (.string delta))
  | .arguments index fragment =>
    match self.toolIndices.get? index with
    | some toolIndex => (self, [self.chunk (argumentsDelta toolIndex fragment) none])
    | none => (self, [])
  | .done index id name arguments =>
    match self.toolIndices.get? index with
    | some _ => (self, [])
    | none => { self.assign index with sawToolCall := true }.say
        (callDelta self.nextToolIndex (.string id) name arguments)
  | .failed failure => self.noteFailure failure
  | .ended usage incomplete =>
    let chunk := self.chunk (.ofMembers []) (some (finishReason self.sawToolCall incomplete))
    ({ self with usage := usage }, [(usage.map (withUsage chunk)).getD chunk])

theorem onItemAdded_said (self : CodexStreamToOpenAi) (data : Value) :
    self.onItemAdded data = (saidAdded data).elim (self, []) self.step := by
  unfold onItemAdded saidAdded
  cases hcall : isFunctionCall (data.index "item") with
  | false => simp only [Bool.false_eq_true, if_false, hcall, Option.elim_none]
  | true =>
    simp only [if_true, hcall, Option.elim_some, step]

theorem onTextDelta_said (self : CodexStreamToOpenAi) (data : Value) :
    self.onTextDelta data = ((data.index "delta").asStr.map Said.text).elim (self, []) self.step := by
  unfold onTextDelta
  cases (data.index "delta").asStr <;> rfl

theorem onArgumentsDelta_said (self : CodexStreamToOpenAi) (data : Value) :
    (self, self.onArgumentsDelta data) =
      self.step (.arguments (outputIndex data) ((data.index "delta").asStr.getD "")) := by
  unfold onArgumentsDelta
  dsimp only [CodexStreamToOpenAi.step]
  cases self.toolIndices.get? (outputIndex data) <;> rfl

theorem onItemDone_said (self : CodexStreamToOpenAi) (data : Value) :
    self.onItemDone data = (saidDone data).elim (self, []) self.step := by
  unfold onItemDone saidDone
  cases hcall : isFunctionCall (data.index "item") with
  | false => simp only [Bool.false_eq_true, if_false, hcall, Option.elim_none]
  | true => simp only [if_true, hcall, Option.elim_some, step]

theorem onData_said (self : CodexStreamToOpenAi) (kind : String) (data : Value) :
    self.onData kind data = (saidData kind data).elim (self, []) self.step := by
  unfold onData
  split
  · rfl
  · exact self.onItemAdded_said data
  · exact self.onTextDelta_said data
  · exact self.onArgumentsDelta_said data
  · exact self.onItemDone_said data
  · rfl
  · rfl
  · rfl
  · rfl
  · rename_i h₁ h₂ h₃ h₄ h₅ h₆ h₇ h₈ h₉
    have hnone : saidData kind data = none := by
      unfold saidData
      split
      · exact absurd rfl h₁
      · exact absurd rfl h₂
      · exact absurd rfl h₃
      · exact absurd rfl h₄
      · exact absurd rfl h₅
      · exact absurd rfl h₆
      · exact absurd rfl h₇
      · exact absurd rfl h₈
      · exact absurd rfl h₉
      · rfl
    rw [hnone]
    rfl

theorem onEvent_eq (self : CodexStreamToOpenAi) (event : SseEvent) :
    self.onEvent event =
      match fromSlice event.data with
      | some data => self.onData (kindOf event data) data
      | none => (self, []) := by
  unfold onEvent
  by_cases hdone : event.data = utf8 "[DONE]"
  · have hnone : fromSlice (utf8 "[DONE]") = none := rfl
    rw [if_pos hdone, hdone, hnone]
  · rw [if_neg hdone]

theorem onEvents_said (self : CodexStreamToOpenAi) (events : List SseEvent) :
    emitAll onEvent self events = emitAll step self (events.filterMap said) := by
  have heq : onEvent = fun self event =>
      match fromSlice event.data with
      | some data => self.onData (kindOf event data) data
      | none => (self, []) := funext fun self => funext fun event => self.onEvent_eq event
  rw [heq]
  exact emitAll_said onData_said self events

theorem say_state (s : CodexStreamToOpenAi) (delta : Value) :
    (s.say delta).1 = { s with roleSent := true } := by
  unfold say openRole
  cases h : s.roleSent
  · rfl
  · show s = _
    rw [← h]

theorem chunk_fold {d : Delta} {delta : Value}
    (hd : ∀ id model, d.chunk id model = openAiChunk id model delta none)
    (s : CodexStreamToOpenAi) (agg : Aggregate) :
    (agg.onChunk (s.chunk delta none)).toAssembled = d.apply agg.toAssembled := by
  rw [show s.chunk delta none = d.chunk _ _ from (hd _ _).symm, Aggregate.onChunk_delta]

theorem say_fold {d : Delta} {delta : Value}
    (hd : ∀ id model, d.chunk id model = openAiChunk id model delta none)
    (s : CodexStreamToOpenAi) (agg : Aggregate) :
    ((s.say delta).2.foldl Aggregate.onChunk agg).toAssembled = d.apply agg.toAssembled := by
  unfold say openRole
  cases s.roleSent
  · have hrole := chunk_fold (d := .role) (fun _ _ => rfl) s agg
    show (Aggregate.onChunk (agg.onChunk (s.chunk roleDelta none)) _).toAssembled = _
    rw [chunk_fold hd, hrole]
    rfl
  · exact chunk_fold hd s agg

end CodexStreamToOpenAi

theorem onChunk_failure (agg : Aggregate) (f : StreamFailure) : agg.onChunk f.toOpenAiChunk = agg := by
  have hindex (k : String) (hk : k ≠ "error") : f.toOpenAiChunk.index k = .null := by
    simp [StreamFailure.toOpenAiChunk, Value.index_ofMembers, hk]
  have hchoice : firstChoice f.toOpenAiChunk = .null := by
    unfold firstChoice
    rw [hindex "choices" (by decide)]
    rfl
  unfold Aggregate.onChunk
  rw [hchoice, hindex "id" (by decide), hindex "model" (by decide), hindex "usage" (by decide)]
  show Aggregate.mk ⟨agg.content ++ "", agg.calls, agg.finish, agg.usage⟩ agg.id agg.model = agg
  rw [String.append_empty]

/-! ## What a run of events comes to -/

namespace Codex

/-- The output index of an event that carries a call. -/
def Said.item? : Said → Option Nat
  | .added index _ _ | .done index _ _ _ => some index
  | _ => none

/-- The output index that an event is about. -/
def Said.index? : Said → Option Nat
  | .added index _ _ | .arguments index _ | .done index _ _ _ => some index
  | _ => none

/-- The calls in the order in which they appear. -/
def opened (run : List Said) : List Nat := firsts (run.filterMap Said.item?)

/-- An id and a name that are given replace those that there are. -/
def named (id : String) (name : Value) (entry : String × String × String) :
    String × String × String :=
  ((nonEmptyStr (.string id)).getD entry.1, (nonEmptyStr name).getD entry.2.1, entry.2.2)

/-- What an event leaves of the call under an index. -/
def onEntry (index : Nat) (entry : Option (String × String × String)) :
    Said → Option (String × String × String)
  | .added i id name => if i = index then some (named id name (entry.getD ("", "", ""))) else entry
  | .arguments i fragment =>
    if i = index then entry.map fun e => (e.1, e.2.1, e.2.2 ++ fragment) else entry
  | .done i id name arguments =>
    if i = index then some (entry.getD (id, name.asStr.getD "", arguments)) else entry
  | _ => entry

def entry (index : Nat) (run : List Said) : Option (String × String × String) :=
  run.foldl (onEntry index) none

def entryOf (run : List Said) (index : Nat) : String × String × String :=
  (entry index run).getD ("", "", "")

def Said.text? : Said → Option String
  | .text delta => some delta
  | _ => none

/-- The usage of a terminal event. -/
def Said.usage? : Said → Option Value
  | .ended usage _ => usage
  | _ => none

/-- An output index has 64 bits, and a usage is an object. -/
structure Said.Fits (x : Said) : Prop where
  index : ∀ index, x.item? = some index → index < 2 ^ 64
  usage : ∀ u, x.usage? = some u → u.isObject = true

def texts (run : List Said) : String := String.join (run.filterMap Said.text?)

def Said.failure? : Said → Option StreamFailure
  | .failed failure => some failure
  | _ => none

/-- The first failure. -/
def failure (run : List Said) : Option StreamFailure := run.findSome? Said.failure?

/-- The last usage that a terminal event has. -/
def usage (run : List Said) : Option Value := (run.filterMap Said.usage?).getLast?

/-- Whether there was a call, and the finish. -/
def onFinish (acc : Bool × Option String) : Said → Bool × Option String
  | .added _ _ _ | .done _ _ _ _ => (true, acc.2)
  | .ended _ incomplete => (acc.1, some (CodexStreamToOpenAi.finishReason acc.1 incomplete))
  | _ => acc

/-- The finish that the last terminal event gives. -/
def finish (run : List Said) : Option String := (run.foldl onFinish (false, none)).2

theorem opened_concat (run : List Said) (x : Said) :
    opened (run ++ [x]) = (x.item?.map (add (opened run))).getD (opened run) := by
  unfold opened
  rw [List.filterMap_append]
  cases h : x.item? with
  | none =>
    rw [List.filterMap_cons_none h, List.filterMap_nil, List.append_nil]
    rfl
  | some i =>
    rw [List.filterMap_cons_some h, List.filterMap_nil, firsts_concat]
    rfl

theorem entry_concat (index : Nat) (run : List Said) (x : Said) :
    entry index (run ++ [x]) = onEntry index (entry index run) x := List.foldl_append

theorem texts_concat (run : List Said) (x : Said) :
    texts (run ++ [x]) = texts run ++ x.text?.getD "" := by
  unfold texts
  rw [List.filterMap_append, String.join_append]
  cases h : x.text? with
  | none =>
    rw [List.filterMap_cons_none h]
    rfl
  | some delta =>
    rw [List.filterMap_cons_some h]
    simp [String.join]

theorem failure_concat (run : List Said) (x : Said) :
    failure (run ++ [x]) = (failure run).or x.failure? := by
  unfold failure
  rw [List.findSome?_append]
  cases h : x.failure? <;> simp [List.findSome?, h]

theorem usage_concat (run : List Said) (x : Said) :
    usage (run ++ [x]) = x.usage?.or (usage run) := by
  unfold usage
  rw [List.filterMap_append, List.getLast?_append]
  cases h : x.usage? <;> simp [h]

theorem foldl_onFinish_concat (run : List Said) (x : Said) :
    (run ++ [x]).foldl onFinish (false, none) = onFinish (run.foldl onFinish (false, none)) x :=
  List.foldl_append

/-- An event under another index leaves a call alone. -/
theorem onEntry_ne {index : Nat} {e : Option (String × String × String)} {x : Said}
    (h : x.index? ≠ some index) : onEntry index e x = e := by
  cases x with
  | added i id name => exact if_neg fun heq => h (congrArg some heq)
  | done i id name args => exact if_neg fun heq => h (congrArg some heq)
  | arguments i f => exact if_neg fun heq => h (congrArg some heq)
  | created id model => rfl
  | text delta => rfl
  | failed f => rfl
  | ended u incomplete => rfl

/-- There is a call under an index once one appeared there. -/
theorem entry_isSome (index : Nat) (run : List Said) :
    (entry index run).isSome = true ↔ index ∈ opened run := by
  induction run using List.reverseRecOn with
  | nil => exact ⟨fun h => (by cases h), fun h => (by cases h)⟩
  | append_singleton run x ih =>
    rw [entry_concat, opened_concat]
    cases x with
    | added i id name =>
      show (onEntry index (entry index run) (.added i id name)).isSome = true ↔
        index ∈ add (opened run) i
      rw [mem_add, ← ih]
      by_cases h : index = i <;> simp [onEntry, h, Ne.symm]
    | done i id name args =>
      show (onEntry index (entry index run) (.done i id name args)).isSome = true ↔
        index ∈ add (opened run) i
      rw [mem_add, ← ih]
      by_cases h : index = i <;> simp [onEntry, h, Ne.symm]
    | arguments i f =>
      show (onEntry index (entry index run) (.arguments i f)).isSome = true ↔ index ∈ opened run
      rw [← ih]
      by_cases h : i = index <;> simp [onEntry, h]
    | created id model => exact ih
    | text delta => exact ih
    | failed f => exact ih
    | ended u incomplete => exact ih

/-- Once a call appeared, there was one. -/
theorem saw_of_mem {index : Nat} {run : List Said} (h : index ∈ opened run) :
    (run.foldl onFinish (false, none)).1 = true := by
  induction run using List.reverseRecOn with
  | nil => cases h
  | append_singleton run x ih =>
    rw [foldl_onFinish_concat]
    rw [opened_concat] at h
    cases x with
    | added i id name => rfl
    | done i id name args => rfl
    | arguments i f => exact ih h
    | created id model => exact ih h
    | text delta => exact ih h
    | failed f => exact ih h
    | ended u incomplete => exact ih h

theorem nodup_opened (run : List Said) : (opened run).Nodup := nodup_firsts _

theorem opened_lt {run : List Said} (h : ∀ x ∈ run, x.Fits) : ∀ i ∈ opened run, i < 2 ^ 64 := by
  intro i hi
  obtain ⟨x, hx, hitem⟩ := List.mem_filterMap.mp (mem_firsts.mp hi)
  exact (h x hx).index i hitem

theorem opened_length {run : List Said} (h : ∀ x ∈ run, x.Fits) :
    (opened run).length ≤ 2 ^ 64 :=
  length_le (nodup_firsts _) (opened_lt h)

/-! ## What the chunks of a run are reassembled to -/

/-- The calls: the tool index of each that appeared, and what is reassembled of them. -/
structure Numbers (s : CodexStreamToOpenAi) (a : Assembled) (run : List Said) : Prop where
  tools : ∀ i, s.toolIndices.get? i =
    if i ∈ opened run then some ((opened run).idxOf i) else none
  next : s.nextToolIndex = (opened run).length % 2 ^ 64
  calls : a.calls = (opened run).map (entryOf run)

/-- All the rest. -/
structure Told (s : CodexStreamToOpenAi) (a : Assembled) (run : List Said) : Prop where
  saw : s.sawToolCall = (run.foldl onFinish (false, none)).1
  failure : s.failure = failure run
  content : a.content = texts run
  finish : a.finish = (finish run).getD "stop"
  usage : a.usage = usage run

theorem entryOf_concat {run : List Said} {x : Said} {index : Nat} (h : x.index? = some index) :
    entryOf (run ++ [x]) = Function.update (entryOf run) index
      ((onEntry index (entry index run) x).getD ("", "", "")) := by
  funext i
  unfold entryOf
  rw [entry_concat]
  by_cases hi : i = index
  · rw [hi, Function.update_self]
  · rw [Function.update_of_ne hi, onEntry_ne]
    rw [h]
    exact fun heq => hi (Option.some.inj heq).symm

theorem entryOf_other {run : List Said} {x : Said} (h : x.index? = none) :
    entryOf (run ++ [x]) = entryOf run := by
  funext i
  unfold entryOf
  rw [entry_concat, onEntry_ne]
  rw [h]
  exact fun heq => by cases heq

theorem entry_none {run : List Said} {index : Nat} (h : index ∉ opened run) :
    entry index run = none := by
  rw [← entry_isSome, Bool.not_eq_true, Option.isSome_eq_false_iff, Option.isNone_iff_eq_none] at h
  exact h

theorem entry_some {run : List Said} {index : Nat} (h : index ∈ opened run) :
    entry index run = some (entryOf run index) := by
  unfold entryOf
  rw [← entry_isSome] at h
  rw [Option.getD_of_ne_none (Option.isSome_iff_ne_none.mp h)]

/-- What one more event has to do. -/
theorem Told.next {s s' : CodexStreamToOpenAi} {a a' : Assembled} {run : List Said}
    (h : Told s a run) (x : Said) (hsaw : s'.sawToolCall = (onFinish (s.sawToolCall, none) x).1)
    (hfailure : s'.failure = s.failure.or x.failure?)
    (hcontent : a'.content = a.content ++ x.text?.getD "")
    (hfinish : some a'.finish = (onFinish (s.sawToolCall, some a.finish) x).2)
    (husage : a'.usage = x.usage?.or a.usage) : Told s' a' (run ++ [x]) where
  saw := by
    rw [hsaw, foldl_onFinish_concat, h.saw]
    cases x <;> rfl
  failure := by rw [hfailure, failure_concat, h.failure]
  content := by rw [hcontent, texts_concat, h.content]
  finish := by
    have hdefault (acc : Bool × Option String) :
        ((onFinish acc x).2).getD "stop" = ((onFinish (acc.1, some (acc.2.getD "stop")) x).2).getD "" := by
      cases x <;> rfl
    unfold Codex.finish
    rw [foldl_onFinish_concat, hdefault, ← h.saw,
      show (run.foldl onFinish (false, none)).2.getD "stop" = a.finish from h.finish.symm, ← hfinish]
    rfl
  usage := by rw [husage, usage_concat, h.usage]

/-- An event that is about no call. -/
theorem Numbers.same {s s' : CodexStreamToOpenAi} {a a' : Assembled} {run : List Said}
    (h : Numbers s a run) {x : Said} (hindex : x.index? = none) (hitem : x.item? = none)
    (htools : s'.toolIndices = s.toolIndices) (hnext : s'.nextToolIndex = s.nextToolIndex)
    (hcalls : a'.calls = a.calls) : Numbers s' a' (run ++ [x]) := by
  have hopened : opened (run ++ [x]) = opened run := by
    rw [opened_concat, hitem]
    rfl
  refine ⟨fun i => ?_, ?_, ?_⟩
  · rw [htools, hopened, h.tools]
  · rw [hnext, hopened, h.next]
  · rw [hcalls, hopened, entryOf_other hindex, h.calls]

namespace Numbers

variable {s : CodexStreamToOpenAi} {a : Assembled} {run : List Said}

theorem known (h : Numbers s a run) {index : Nat} (hmem : index ∈ opened run) :
    s.toolIndices.get? index = some ((opened run).idxOf index) := by rw [h.tools, if_pos hmem]

theorem unknown (h : Numbers s a run) {index : Nat} (hmem : index ∉ opened run) :
    s.toolIndices.get? index = none := by rw [h.tools, if_neg hmem]

/-- An event about a call that is known, which changes it by `f`. -/
theorem edit (h : Numbers s a run) {x : Said} {index : Nat} (hindex : x.index? = some index)
    (hmem : index ∈ opened run) (hopened : opened (run ++ [x]) = opened run)
    (hlength : (opened run).length ≤ 2 ^ 64) {f : String × String × String → String × String × String}
    (hf : onEntry index (some (entryOf run index)) x = some (f (entryOf run index)))
    {s' : CodexStreamToOpenAi} {a' : Assembled} (htools : s'.toolIndices = s.toolIndices)
    (hnext : s'.nextToolIndex = s.nextToolIndex)
    (hcalls : a'.calls = Aggregate.editCall a.calls ((opened run).idxOf index % 2 ^ 64) f) :
    Numbers s' a' (run ++ [x]) := by
  have hlt : (opened run).idxOf index < (opened run).length := List.idxOf_lt_length_of_mem hmem
  have hplace : (opened run).idxOf index < a.calls.length := by
    rw [h.calls, List.length_map]
    exact hlt
  refine ⟨fun i => ?_, ?_, ?_⟩
  · rw [htools, hopened, h.tools]
  · rw [hnext, hopened, h.next]
  · rw [hcalls, Nat.mod_eq_of_lt (by omega), Aggregate.editCall_lt hplace, h.calls,
      map_modify (nodup_opened run) hmem, hopened, entryOf_concat hindex, entry_some hmem, hf]
    rfl

/-- An event with which a call appears, as `new`. -/
theorem append (h : Numbers s a run) {x : Said} {index : Nat} (hindex : x.index? = some index)
    (hitem : x.item? = some index) (hmem : index ∉ opened run)
    (hlength : (opened (run ++ [x])).length ≤ 2 ^ 64) {new : String × String × String}
    (hnew : onEntry index none x = some new) {s' : CodexStreamToOpenAi} {a' : Assembled}
    (htools : s'.toolIndices = (s.assign index).toolIndices)
    (hnext : s'.nextToolIndex = (s.assign index).nextToolIndex)
    (hcalls : a.calls.length < 2 ^ 64 → a'.calls = a.calls ++ [new]) :
    Numbers s' a' (run ++ [x]) := by
  have hopened : opened (run ++ [x]) = opened run ++ [index] := by
    rw [opened_concat, hitem]
    exact add_new hmem
  have hlt : (opened run).length < 2 ^ 64 := by
    rw [hopened, List.length_append, List.length_singleton] at hlength
    omega
  refine ⟨fun i => ?_, ?_, ?_⟩
  · rw [htools, hopened]
    show (s.toolIndices.insert index s.nextToolIndex).get? i = _
    rw [OrdMap.get?_insert, h.tools, h.next, Nat.mod_eq_of_lt hlt]
    by_cases hi : i = index
    · rw [hi, if_pos rfl, if_pos (List.mem_append_right _ List.mem_cons_self),
        List.idxOf_append_of_notMem hmem, List.idxOf_cons_self, Nat.add_zero]
    · rw [if_neg hi]
      by_cases hold : i ∈ opened run
      · rw [if_pos hold, if_pos (List.mem_append_left _ hold), List.idxOf_append_of_mem hold]
      · have hnot : i ∉ opened run ++ [index] := by
          rw [List.mem_append, List.mem_singleton]
          exact fun hor => hor.elim hold hi
        rw [if_neg hold, if_neg hnot]
  · rw [hnext, hopened, List.length_append, List.length_singleton]
    show (s.nextToolIndex + 1) % 2 ^ 64 = _
    rw [h.next, Nat.mod_add_mod]
  · have hshort : a.calls.length < 2 ^ 64 := by
      rw [h.calls, List.length_map]
      exact hlt
    rw [hcalls hshort, h.calls, hopened, entryOf_concat hindex, entry_none hmem, hnew]
    exact (map_new hmem (entryOf run) new).symm

end Numbers

/-- What a translator keeps of a run, and what its chunks are reassembled to. -/
structure Tracks (s : CodexStreamToOpenAi) (a : Assembled) (run : List Said) : Prop where
  told : Told s a run
  numbers : Numbers s a run

namespace Tracks

open CodexStreamToOpenAi

variable {s : CodexStreamToOpenAi} {agg : Aggregate} {run : List Said}

theorem init (model : String) : Tracks (new model) Aggregate.init.toAssembled [] :=
  ⟨⟨rfl, rfl, rfl, rfl, rfl⟩, ⟨fun _ => rfl, rfl, rfl⟩⟩

/-- A call that is announced, or announced again. -/
theorem added (h : Tracks s agg.toAssembled run) (index : Nat) (id : String) (name : Value)
    (hlength : (opened (run ++ [.added index id name])).length ≤ 2 ^ 64) :
    Tracks (s.step (.added index id name)).1
      ((s.step (.added index id name)).2.foldl Aggregate.onChunk agg).toAssembled
      (run ++ [.added index id name]) := by
  obtain ⟨htold, hnumbers⟩ := h
  dsimp only [CodexStreamToOpenAi.step]
  rw [say_fold (d := .call (s.announced index).1 (.string id) name "") (fun _ _ => rfl), say_state]
  have hsame : (s.announced index).2.failure = s.failure := by
    unfold announced
    cases s.toolIndices.get? index <;> rfl
  refine ⟨htold.next _ rfl ?_ (String.append_empty).symm rfl rfl, ?_⟩
  · exact hsame.trans (Option.or_none).symm
  by_cases hmem : index ∈ opened run
  · -- the tool index that it had before
    have hopened : opened (run ++ [.added index id name]) = opened run :=
      (opened_concat run _).trans (add_mem hmem)
    have hannounced : s.announced index = ((opened run).idxOf index, s) := by
      unfold announced
      rw [hnumbers.known hmem]
    rw [hopened] at hlength
    rw [hannounced]
    refine hnumbers.edit rfl hmem hopened hlength ?_ rfl rfl rfl
    refine (if_pos rfl).trans (congrArg some ?_)
    dsimp only [named]
    rw [String.append_empty]
    rfl
  · have hannounced : s.announced index = (s.nextToolIndex, s.assign index) := by
      unfold announced
      rw [hnumbers.unknown hmem]
    rw [hannounced]
    refine hnumbers.append rfl rfl hmem hlength (if_pos rfl) rfl rfl fun hshort => ?_
    have hnext : s.nextToolIndex = agg.calls.length := by
      rw [hnumbers.next, hnumbers.calls, List.length_map, Nat.mod_eq_of_lt]
      rw [hnumbers.calls, List.length_map] at hshort
      exact hshort
    rw [Delta.apply_call hnext (hnext ▸ hshort)]
    rfl

/-- A fragment, which an unknown call takes nothing of. -/
theorem arguments (h : Tracks s agg.toAssembled run) (index : Nat) (fragment : String)
    (hlength : (opened (run ++ [.arguments index fragment])).length ≤ 2 ^ 64) :
    Tracks (s.step (.arguments index fragment)).1
      ((s.step (.arguments index fragment)).2.foldl Aggregate.onChunk agg).toAssembled
      (run ++ [.arguments index fragment]) := by
  obtain ⟨htold, hnumbers⟩ := h
  have hopened : opened (run ++ [.arguments index fragment]) = opened run := opened_concat run _
  rw [hopened] at hlength
  dsimp only [CodexStreamToOpenAi.step]
  by_cases hmem : index ∈ opened run
  · rw [hnumbers.known hmem]
    have hfold := chunk_fold (d := .arguments ((opened run).idxOf index) fragment)
      (fun _ _ => rfl) s agg
    show Tracks s (agg.onChunk _).toAssembled _
    rw [hfold]
    refine ⟨htold.next _ rfl (Option.or_none).symm (String.append_empty).symm rfl rfl, ?_⟩
    exact hnumbers.edit (f := fun e => (e.1, e.2.1, e.2.2 ++ fragment)) rfl hmem hopened hlength
      (if_pos rfl) rfl rfl rfl
  · rw [hnumbers.unknown hmem]
    refine ⟨htold.next _ rfl (Option.or_none).symm (String.append_empty).symm rfl rfl, ?_, ?_, ?_⟩
    · rw [hopened]
      exact hnumbers.tools
    · rw [hopened]
      exact hnumbers.next
    · rw [hopened, entryOf_concat rfl, entry_none hmem]
      refine hnumbers.calls.trans (List.map_congr_left fun i hi => ?_)
      rw [Function.update_of_ne]
      rintro rfl
      exact hmem hi

/-- A call that is done: one that is known already stays as it is. -/
theorem done (h : Tracks s agg.toAssembled run) (index : Nat) (id : String) (name : Value)
    (args : String) (hlength : (opened (run ++ [.done index id name args])).length ≤ 2 ^ 64) :
    Tracks (s.step (.done index id name args)).1
      ((s.step (.done index id name args)).2.foldl Aggregate.onChunk agg).toAssembled
      (run ++ [.done index id name args]) := by
  obtain ⟨htold, hnumbers⟩ := h
  dsimp only [CodexStreamToOpenAi.step]
  by_cases hmem : index ∈ opened run
  · have hopened : opened (run ++ [.done index id name args]) = opened run :=
      (opened_concat run _).trans (add_mem hmem)
    have hentry : entryOf (run ++ [.done index id name args]) = entryOf run := by
      rw [entryOf_concat rfl, entry_some hmem]
      dsimp only [onEntry]
      rw [if_pos rfl]
      exact Function.update_eq_self index _
    rw [hnumbers.known hmem]
    refine ⟨htold.next _ ?_ (Option.or_none).symm (String.append_empty).symm rfl rfl, ?_, ?_, ?_⟩
    · exact htold.saw.trans (saw_of_mem hmem)
    · rw [hopened]
      exact hnumbers.tools
    · rw [hopened]
      exact hnumbers.next
    · rw [hopened, hentry]
      exact hnumbers.calls
  · rw [hnumbers.unknown hmem]
    dsimp only
    rw [say_fold (d := .call s.nextToolIndex (.string id) name args) (fun _ _ => rfl), say_state]
    refine ⟨htold.next _ rfl (Option.or_none).symm (String.append_empty).symm rfl rfl, ?_⟩
    refine hnumbers.append rfl rfl hmem hlength (if_pos rfl) rfl rfl fun hshort => ?_
    have hnext : s.nextToolIndex = agg.calls.length := by
      rw [hnumbers.next, hnumbers.calls, List.length_map, Nat.mod_eq_of_lt]
      rw [hnumbers.calls, List.length_map] at hshort
      exact hshort
    rw [Delta.apply_call hnext (hnext ▸ hshort), nonEmptyStr_getD, nonEmptyStr_getD]
    rfl

theorem step (h : Tracks s agg.toAssembled run) {x : Said} (hfits : x.Fits)
    (hlength : (opened (run ++ [x])).length ≤ 2 ^ 64) :
    Tracks (s.step x).1 ((s.step x).2.foldl Aggregate.onChunk agg).toAssembled (run ++ [x]) := by
  have hsame {s' : CodexStreamToOpenAi} {a' : Assembled} (hindex : x.index? = none)
      (hitem : x.item? = none) (htools : s'.toolIndices = s.toolIndices)
      (hnext : s'.nextToolIndex = s.nextToolIndex) (hcalls : a'.calls = agg.calls)
      (htold : Told s' a' (run ++ [x])) : Tracks s' a' (run ++ [x]) :=
    ⟨htold, h.numbers.same hindex hitem htools hnext hcalls⟩
  cases x with
  | added index id name => exact h.added index id name hlength
  | arguments index fragment => exact h.arguments index fragment hlength
  | done index id name args => exact h.done index id name args hlength
  | created id model =>
    exact hsame rfl rfl rfl rfl rfl
      (h.told.next _ rfl (Option.or_none).symm (String.append_empty).symm rfl rfl)
  | text delta =>
    dsimp only [CodexStreamToOpenAi.step]
    rw [say_fold (d := .content delta) (fun _ _ => rfl), say_state]
    exact hsame rfl rfl rfl rfl rfl (h.told.next _ rfl (Option.or_none).symm rfl rfl rfl)
  | failed f =>
    dsimp only [CodexStreamToOpenAi.step]
    unfold noteFailure
    cases hfailure : s.failure with
    | some first =>
      exact hsame rfl rfl rfl rfl rfl (h.told.next _ rfl (by rw [hfailure]; rfl)
        (String.append_empty).symm rfl rfl)
    | none =>
      show Tracks _ (agg.onChunk f.toOpenAiChunk).toAssembled _
      rw [onChunk_failure]
      exact hsame rfl rfl rfl rfl rfl (h.told.next _ rfl (by rw [hfailure]; rfl)
        (String.append_empty).symm rfl rfl)
  | ended u incomplete =>
    cases u with
    | none =>
      have hfold := agg.onChunk_finish (if s.id = "" then "chatcmpl-codex" else s.id) s.model
        (finishReason s.sawToolCall incomplete)
      show Tracks _ (agg.onChunk _).toAssembled _
      refine hfold.symm ▸ ?_
      exact hsame rfl rfl rfl rfl rfl
        (h.told.next _ rfl (Option.or_none).symm (String.append_empty).symm rfl rfl)
    | some u =>
      have hfold := agg.onChunk_delta (if s.id = "" then "chatcmpl-codex" else s.id) s.model
        (.finish (finishReason s.sawToolCall incomplete) u)
      show Tracks _ (agg.onChunk _).toAssembled _
      refine hfold.symm ▸ ?_
      exact hsame rfl rfl rfl rfl rfl (h.told.next _ rfl (Option.or_none).symm
        (String.append_empty).symm rfl (if_pos (hfits.usage u rfl)))

end Tracks

/-- What a whole run comes to. -/
theorem tracks_run (model : String) {xs : List Said} (hfits : ∀ x ∈ xs, x.Fits) :
    Tracks (emitAll CodexStreamToOpenAi.step (CodexStreamToOpenAi.new model) xs).1
      ((emitAll CodexStreamToOpenAi.step (CodexStreamToOpenAi.new model) xs).2.foldl Aggregate.onChunk .init).toAssembled
      xs := by
  have hall := @emitAll_fold _ _ _ CodexStreamToOpenAi.step _ Aggregate.onChunk
    (fun s agg done => (∀ x ∈ done, x.Fits) → Tracks s agg.toAssembled done)
    (fun s agg done x h hdone => by
      have hbefore : ∀ y ∈ done, y.Fits := fun y hy => hdone y (List.mem_append_left _ hy)
      have hx : x.Fits := hdone x (List.mem_append_right _ List.mem_cons_self)
      exact (h hbefore).step hx (opened_length hdone))
    (CodexStreamToOpenAi.new model) .init [] (fun _ => Tracks.init model) xs
  exact hall hfits

theorem codexUsage_isObject {usage u : Value} (h : codexUsage usage = some u) :
    u.isObject = true := by
  unfold codexUsage at h
  dsimp only at h
  split at h
  · cases h
    exact Value.isObject_ofMembers _
  · cases h

theorem outputIndex_lt (data : Value) : CodexStreamToOpenAi.outputIndex data < 2 ^ 64 := by
  unfold CodexStreamToOpenAi.outputIndex
  cases h : (data.index "output_index").asU64 with
  | none => exact Nat.two_pow_pos 64
  | some n => exact Value.asU64_lt h

theorem fits_added {data : Value} {x : Said} (h : saidAdded data = some x) : x.Fits := by
  unfold saidAdded at h
  dsimp only at h
  split at h
  · cases h
    refine ⟨fun i hi => ?_, fun u hu => by cases hu⟩
    cases hi
    exact outputIndex_lt data
  · cases h

theorem fits_done {data : Value} {x : Said} (h : saidDone data = some x) : x.Fits := by
  unfold saidDone at h
  dsimp only at h
  split at h
  · cases h
    refine ⟨fun i hi => ?_, fun u hu => by cases hu⟩
    cases hi
    exact outputIndex_lt data
  · cases h

theorem fits_other {x : Said} (hitem : x.item? = none) (husage : x.usage? = none) : x.Fits where
  index i hi := by
    rw [hitem] at hi
    cases hi
  usage u hu := by
    rw [husage] at hu
    cases hu

theorem fits_ended {usage : Value} {incomplete : Bool} :
    (Said.ended (codexUsage usage) incomplete).Fits where
  index i hi := by cases hi
  usage _ hu := codexUsage_isObject hu

theorem saidData_fits {kind : String} {data : Value} {x : Said} (h : saidData kind data = some x) :
    x.Fits := by
  unfold saidData at h
  split at h
  · cases h
    exact fits_other rfl rfl
  · exact fits_added h
  · obtain ⟨delta, -, rfl⟩ := Option.map_eq_some_iff.mp h
    exact fits_other rfl rfl
  · cases h
    exact fits_other rfl rfl
  · exact fits_done h
  · cases h
    exact fits_other rfl rfl
  · cases h
    exact fits_other rfl rfl
  · cases h
    exact fits_ended
  · cases h
    exact fits_ended
  · cases h

theorem filterMap_fits (events : List SseEvent) : ∀ x ∈ events.filterMap said, x.Fits := by
  intro x hx
  obtain ⟨event, -, hsaid⟩ := List.mem_filterMap.mp hx
  obtain ⟨data, -, hdata⟩ := Option.bind_eq_some_iff.mp hsaid
  exact saidData_fits hdata

/-- What the events of a stream come to. -/
theorem tracks_events (model : String) (events : List SseEvent) :
    Tracks (emitAll CodexStreamToOpenAi.onEvent (CodexStreamToOpenAi.new model) events).1
      ((emitAll CodexStreamToOpenAi.onEvent (CodexStreamToOpenAi.new model) events).2.foldl
        Aggregate.onChunk .init).toAssembled (events.filterMap said) := by
  rw [CodexStreamToOpenAi.onEvents_said]
  exact tracks_run model (filterMap_fits events)

/-! ## Calls -/

/-- A call: its arguments when it is done, and the fragments that they were streamed in. -/
structure Item where
  index : Nat
  id : String
  name : String
  arguments : String
  announced : Bool
  fragments : List String

namespace Item

/-- Fragments, if there are any, make up the arguments. -/
def WF (item : Item) : Prop := item.fragments ≠ [] → String.join item.fragments = item.arguments

/-- The events of a call, in their order. -/
def run (item : Item) : List Said :=
  (if item.announced then [.added item.index item.id (.string item.name)] else []) ++
    (item.fragments.map (.arguments item.index) ++
      [.done item.index item.id (.string item.name) item.arguments])

def call (item : Item) : Call := ⟨.string item.id, .string item.name, .string item.arguments⟩

/-- What is reassembled of a call. -/
def streamed (item : Item) : String × String × String :=
  (item.id, item.name, if item.announced then String.join item.fragments else item.arguments)

theorem foldl_fragments (index : Nat) (id name args : String) (fragments : List String) :
    (fragments.map (Said.arguments index)).foldl (onEntry index) (some (id, name, args)) =
      some (id, name, args ++ String.join fragments) := by
  induction fragments generalizing args with
  | nil =>
    rw [String.join_nil, String.append_empty]
    rfl
  | cons fragment fragments ih =>
    have hstep : onEntry index (some (id, name, args)) (.arguments index fragment) =
        some (id, name, args ++ fragment) := if_pos rfl
    rw [List.map_cons, List.foldl_cons, hstep, ih, String.join_cons, String.append_assoc]

theorem foldl_unknown (index : Nat) (fragments : List String) :
    (fragments.map (Said.arguments index)).foldl (onEntry index) none = none := by
  induction fragments with
  | nil => rfl
  | cons fragment fragments ih =>
    have hstep : onEntry index none (.arguments index fragment) = none := if_pos rfl
    rw [List.map_cons, List.foldl_cons, hstep, ih]

theorem entry_run (item : Item) : entry item.index item.run = some item.streamed := by
  have hname : ((nonEmptyStr (.string item.id)).getD "", (nonEmptyStr (.string item.name)).getD "") =
      (item.id, item.name) := by
    rw [nonEmptyStr_getD, nonEmptyStr_getD]
    rfl
  unfold entry run streamed
  rw [List.foldl_append, List.foldl_append]
  cases item.announced with
  | false =>
    simp only [Bool.false_eq_true, if_false, List.foldl_nil]
    rw [foldl_unknown]
    exact if_pos rfl
  | true =>
    have hadded : onEntry item.index none (.added item.index item.id (.string item.name)) =
        some (item.id, item.name, "") := by
      refine (if_pos rfl).trans (congrArg some ?_)
      exact congrArg (fun p => (p.1, p.2, "")) hname
    simp only [if_true, List.foldl_cons, List.foldl_nil]
    rw [hadded, foldl_fragments, String.empty_append]
    exact if_pos rfl

end Item

/-- Only the events under an index say something of its call. -/
theorem entry_filter (index : Nat) (run : List Said) :
    entry index (run.filter fun x => x.index? = some index) = entry index run := by
  induction run using List.reverseRecOn with
  | nil => rfl
  | append_singleton run x ih =>
    rw [List.filter_append, entry_concat]
    by_cases h : x.index? = some index
    · rw [List.filter_singleton, decide_eq_true h, cond_true, entry_concat, ih]
    · rw [List.filter_singleton, decide_eq_false h, cond_false, List.append_nil, ih, onEntry_ne h]

/-- Events that deliver these calls, in any interleaving: the events under the index of
each are those of the call, and the calls appear in this order. Other events may be
anywhere; a call appears with the first event that carries it. -/
structure Delivers (items : List Item) (events : List SseEvent) : Prop where
  wf : ∀ item ∈ items, item.WF
  runs : ∀ item ∈ items,
    ((events.filterMap said).filter fun x => x.index? = some item.index) = item.run
  order : opened (events.filterMap said) = items.map Item.index

theorem Delivers.calls {items : List Item} {events : List SseEvent} (h : Delivers items events) :
    (opened (events.filterMap said)).map (entryOf (events.filterMap said)) =
      items.map Item.streamed := by
  rw [h.order, List.map_map]
  refine List.map_congr_left fun item hitem => ?_
  show entryOf _ item.index = _
  unfold entryOf
  rw [← entry_filter, h.runs item hitem, item.entry_run]
  rfl

end Codex

open Codex

/-- The calls of a stream are reassembled, each once, with the arguments they were done
with, exactly when no call with arguments was announced and then streamed none of them. -/
theorem codex_calls (model : String) {items : List Item} {events : List SseEvent}
    (h : Delivers items events) :
    (answer (aggregateChunks (emitAll CodexStreamToOpenAi.onEvent (.new model) events).2)).calls =
        items.map Item.call ↔
      ∀ item ∈ items, item.announced = true → item.fragments = [] → item.arguments = "" := by
  have htracks := (tracks_events model events).numbers.calls
  unfold aggregateChunks
  rw [answer_completion]
  dsimp only
  rw [htracks, h.calls, List.map_map, List.map_inj_left]
  refine forall₂_congr fun item hitem => ?_
  have hwf := h.wf item hitem
  show (⟨.string item.id, .string item.name, .string item.streamed.2.2⟩ : Call) = item.call ↔ _
  unfold Item.call Item.streamed
  cases item.announced with
  | false => exact ⟨fun _ hannounced => (by cases hannounced), fun _ => rfl⟩
  | true =>
    constructor
    · intro heq _ hnone
      have hargs : String.join item.fragments = item.arguments := by
        injection heq with _ _ hargs
        injection hargs
      rw [← hargs, hnone]
      rfl
    · intro hargs
      by_cases hnone : item.fragments = []
      · rw [hargs rfl hnone, hnone]
        rfl
      · rw [← hwf hnone]
        rfl

namespace Codex

/-- The event of this kind that carries a call. -/
def itemEvent (kind : String) (item : Item) (arguments : String) : SseEvent :=
  sseEvent kind (.ofMembers [("output_index", .ofU64 item.index),
    ("item", .ofMembers [("type", .string "function_call"), ("call_id", .string item.id),
      ("name", .string item.name), ("arguments", .string arguments)])])

def addedEvent (item : Item) : SseEvent := itemEvent "response.output_item.added" item ""

def fragmentEvent (item : Item) (fragment : String) : SseEvent :=
  sseEvent "response.function_call_arguments.delta"
    (.ofMembers [("output_index", .ofU64 item.index), ("delta", .string fragment)])

def doneEvent (item : Item) : SseEvent :=
  itemEvent "response.output_item.done" item item.arguments

def streamedCall : Item := ⟨3, "a", "f", "\x7b\x7d", true, ["\x7b", "\x7d"]⟩

def doneCall : Item := ⟨1, "b", "g", "1", false, ["1"]⟩

/-- A call that streams nothing between its announcement and its end. -/
def quietCall : Item := ⟨0, "a", "f", "1", true, []⟩

def interleaved : List SseEvent :=
  [addedEvent streamedCall, fragmentEvent doneCall "1", fragmentEvent streamedCall "\x7b",
    doneEvent doneCall, fragmentEvent streamedCall "\x7d", doneEvent streamedCall]

end Codex

/-- Two calls, one announced and streamed and one only done, their events interleaved. -/
theorem codex_calls_two :
    (answer (aggregateChunks (emitAll CodexStreamToOpenAi.onEvent (.new "m") interleaved).2)).calls =
      [streamedCall, doneCall].map Item.call := by
  have hsaid : interleaved.filterMap said =
    [.added 3 "a" (.string "f"), .arguments 1 "1", .arguments 3 "\x7b",
      .done 1 "b" (.string "g") "1", .arguments 3 "\x7d",
      .done 3 "a" (.string "f") "\x7b\x7d"] := rfl
  refine (codex_calls "m" ⟨?_, ?_, ?_⟩).mpr ?_
  · intro item hitem
    rcases List.mem_pair.mp hitem with rfl | rfl <;> exact fun _ => rfl
  · intro item hitem
    rw [hsaid]
    rcases List.mem_pair.mp hitem with rfl | rfl <;> rfl
  · rw [hsaid]
    rfl
  · intro item hitem
    rcases List.mem_pair.mp hitem with rfl | rfl
    · exact fun _ hnone => (by cases hnone)
    · exact fun hannounced => (by cases hannounced)

/-- A call that is announced, streams nothing and is done with its arguments loses them. -/
theorem codex_calls_lost :
    Delivers [quietCall] [addedEvent quietCall, doneEvent quietCall] ∧
      (answer (aggregateChunks (emitAll CodexStreamToOpenAi.onEvent (.new "m")
        [addedEvent quietCall, doneEvent quietCall]).2)).calls ≠ [quietCall].map Item.call := by
  constructor
  · have hsaid : [addedEvent quietCall, doneEvent quietCall].filterMap said =
      [.added 0 "a" (.string "f"), .done 0 "a" (.string "f") "1"] := rfl
    refine ⟨?_, ?_, ?_⟩
    · intro item hitem
      rw [List.mem_singleton.mp hitem]
      exact fun hne => absurd rfl hne
    · intro item hitem
      rw [List.mem_singleton.mp hitem, hsaid]
      rfl
    · rw [hsaid]
      rfl
  · intro heq
    have hargs := congrArg (List.map fun call => call.arguments.asStr) heq
    revert hargs
    decide

end RapidRouter.Providers
