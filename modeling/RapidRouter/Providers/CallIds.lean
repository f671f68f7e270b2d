import RapidRouter.Lib.Lists
import RapidRouter.Providers.Gemini
import RapidRouter.Providers.Turns

/-!
# Calls and their answers

Gemini gives its calls no ids: an answer has the name of the function, and which of its
calls it is of follows from the order. `request_to_internal` (`gemini.rs`) makes ids up
and remembers the last of each name, and `translate_messages` goes the other way, with
the last name of each id. Both are right where there is one call to choose from, and
`calls_matched_iff` says where that is.
-/

namespace RapidRouter.Providers.CallIds

open Json Core Fallible
open Providers.Gemini (callId_injective)

/-! ## A request of a Gemini client -/

def asF64 : Value → Option Number
  | .number n => some n
  | _ => none

/-- The kinds of a part. Of several fields the first decides. -/
inductive Part where
  | text (s : String)
  | inline (v : Value)
  | call (v : Value)
  | response (v : Value)

def partOf (part : Value) : Option Part :=
  match (part.index "text").asStr with
  | some s => some (.text s)
  | none =>
    match (part.get? "inlineData").or (part.get? "inline_data") with
    | some v => some (.inline v)
    | none =>
      match (part.get? "functionCall").or (part.get? "function_call") with
      | some v => some (.call v)
      | none => ((part.get? "functionResponse").or (part.get? "function_response")).map .response

/-- The media type and the data of an inline part. -/
def inlineUrl (inline : Value) : String :=
  "data:" ++ (((inline.index "mimeType").asStr).or (inline.index "mime_type").asStr).getD "image/png"
    ++ ";base64," ++ ((inline.index "data").asStr).getD ""

/-- A call and an answer have the name of a function. -/
def nameOf (v : Value) : String := ((v.index "name").asStr).getD ""

/-- The id that the next call is given. -/
def synthId (index : Nat) : String := "call_" ++ toString index

/-- The parts of a content gone through: the messages so far, how many calls there were,
the last id of each function, and what goes into the content's own message. -/
structure Walk where
  messages : List Message
  synthCallIndex : Nat
  lastCallId : List (String × String)
  parts : List ContentPart
  toolCalls : List ToolCall

def Walk.onPart (w : Walk) (part : Value) : Walk :=
  match partOf part with
  | some (.text s) => { w with parts := w.parts ++ [.text s] }
  | some (.inline v) => { w with parts := w.parts ++ [.imageUrl ⟨inlineUrl v, none⟩] }
  | some (.call v) =>
    let id := synthId w.synthCallIndex
    { w with
      synthCallIndex := w.synthCallIndex + 1
      lastCallId := Entries.insert (nameOf v) id w.lastCallId
      toolCalls := w.toolCalls ++ [⟨id, "function", ⟨nameOf v, printText (v.index "args")⟩⟩] }
  | some (.response v) =>
    { w with
      messages := w.messages ++
        [⟨"tool", some (.text (printText (v.index "response"))), none,
          some ((Entries.find? (nameOf v) w.lastCallId).getD (nameOf v)), some (nameOf v)⟩] }
  | none => w

/-- A content's own message comes after the answers in it. -/
def Walk.onContent (w : Walk) (content : Value) : Walk :=
  let role := if (content.index "role").asStr = some "model" then "assistant" else "user"
  let w := (elements (content.index "parts")).foldl Walk.onPart { w with parts := [], toolCalls := [] }
  if w.parts.isEmpty && w.toolCalls.isEmpty then w
  else
    { w with
      messages := w.messages ++
        [⟨role, if w.parts.isEmpty then none else some (.parts w.parts),
          if w.toolCalls.isEmpty then none else some w.toolCalls, none, none⟩] }

def systemMessages (body : Value) : List Message :=
  match (body.get? "systemInstruction").or (body.get? "system_instruction") with
  | some system =>
    let text := "\n\n".intercalate ((elements (system.index "parts")).filterMap fun part =>
      (part.index "text").asStr)
    if text = "" then [] else [⟨"system", some (.text text), none, none, none⟩]
  | none => []

def walkOf (body : Value) : Walk :=
  (elements (body.index "contents")).foldl Walk.onContent ⟨systemMessages body, 0, [], [], []⟩

def toolOf (decl : Value) : Core.Tool where
  toolType := "function"
  function :=
    { name := ((decl.index "name").asStr).getD ""
      description := (decl.index "description").asStr
      parameters := some (decl.index "parameters")
      strict := none }

def toolsOf (body : Value) : Option (List Core.Tool) :=
  let tools := (body.index "tools").at_ 0
  ((tools.index "functionDeclarations").asArray.or (tools.index "function_declarations").asArray).map
    (List.map toolOf)

def toolChoiceOf (body : Value) : Option Value :=
  ((((body.index "toolConfig").index "functionCallingConfig").index "mode").asStr).map fun mode =>
    if mode = "NONE" then .string "none"
    else if mode = "ANY" then .string "required"
    else .string "auto"

def requestToInternal (body : Value) (model : String) (stream : Bool) :
    Except GatewayError ChatRequest :=
  let config := body.index "generationConfig"
  .ok
    { model := model
      messages := (walkOf body).messages
      tools := toolsOf body
      toolChoice := toolChoiceOf body
      parallelToolCalls := none
      temperature := asF64 (config.index "temperature")
      topP := asF64 (config.index "topP")
      maxTokens := ((config.index "maxOutputTokens").asU64).map UInt64.ofNat
      maxCompletionTokens := none
      stop := config.get? "stopSequences"
      n := ((config.index "candidateCount").asU64).map UInt32.ofNat
      stream := some stream
      streamOptions := none
      responseFormat := none
      logprobs := none
      presencePenalty := none
      frequencyPenalty := none
      seed := none
      user := none
      extra := []
      extra_sorted := List.Pairwise.nil
      extra_foreign := fun _ hmember => absurd hmember List.not_mem_nil }

/-! ## Which call an answer is of -/

/-- What a conversation does, part by part, as far as calls go. -/
inductive Event where
  | call (name : String)
  | response (name : String)
  deriving DecidableEq

def eventOf (part : Value) : Option Event :=
  match partOf part with
  | some (.call v) => some (.call (nameOf v))
  | some (.response v) => some (.response (nameOf v))
  | _ => none

def eventsOf (body : Value) : List Event :=
  (elements (body.index "contents")).flatMap fun content =>
    (elements (content.index "parts")).filterMap eventOf

/-- Each answer, with the names of the calls before it. -/
def responsesFrom (calls : List String) : List Event → List (List String × String)
  | [] => []
  | .call name :: rest => responsesFrom (calls ++ [name]) rest
  | .response name :: rest => (calls, name) :: responsesFrom calls rest

/-- The answers are of these calls, counted from the first: each of an earlier call of its
function, no two of one call. -/
structure Answering (events : List Event) (answers : List Nat) : Prop where
  earlier : List.Forall₂ (fun r i => r.1[i]? = some r.2) (responsesFrom [] events) answers
  once : answers.Nodup

/-- Each answer is of the last call of its function so far. -/
def Latest (events : List Event) (answers : List Nat) : Prop :=
  List.Forall₂ (fun r i => ∀ k, i < k → r.1[k]? ≠ some r.2) (responsesFrom [] events) answers

def callsIn (messages : List Message) : List ToolCall := messages.flatMap Message.calls

def answersIn (messages : List Message) : List Message :=
  messages.filter fun m => m.role = "tool"

/-- Every tool message has the id of the call that it answers, and no other has. -/
structure Matched (messages : List Message) (answers : List Nat) : Prop where
  ids : List.Forall₂ (fun m i => ∃ call, (callsIn messages)[i]? = some call ∧
    m.toolCallId = some call.id) (answersIn messages) answers
  once : ((answersIn messages).map Message.toolCallId).Nodup

/-! ## Which name an answer has -/

/-- The calls that a message makes. -/
def made (m : Message) : List ToolCall := if m.role = "assistant" then m.calls else []

/-- Each answer, with the calls made before it. -/
def askedFrom (calls : List ToolCall) : List Message → List (List ToolCall × Message)
  | [] => []
  | m :: rest =>
    (if m.role = "tool" then [(calls, m)] else []) ++ askedFrom (calls ++ made m) rest

/-- The last of the calls of an id. -/
def lastOf (id : String) (calls : List ToolCall) : Option ToolCall :=
  calls.reverse.find? fun call => id = call.id

/-- The call that an answer is of, the last of its id if ids repeat. -/
def answered (asked : List ToolCall × Message) : Option ToolCall :=
  asked.2.toolCallId.bind fun id => lastOf id asked.1

/-- The answers of the turns. -/
def functionResponses (turns : List Value) : List Value :=
  turns.flatMap fun turn => (elements (turn.index "parts")).filterMap (·.get? "functionResponse")

/-- Each answer has the name of the call that it is of. -/
def Named (messages : List Message) (turns : List Value) : Prop :=
  List.Forall₂ (fun asked response => ∀ call, answered asked = some call →
    response.index "name" = .string call.function.name)
    (askedFrom [] messages) (functionResponses turns)

/-- The last call of an id in the whole conversation is of the same function as the last
before an answer. -/
def Unshadowed (messages : List Message) : Prop :=
  ∀ asked ∈ askedFrom [] messages, ∀ call, answered asked = some call →
    ∀ last, lastOf call.id (callsIn messages) = some last →
      last.function.name = call.function.name

/-! ## The last of a function -/

/-- The place of the last call of a function. -/
def lastIndex (name : String) (calls : List String) : Option Nat :=
  (calls.zipIdx.reverse.find? fun entry => entry.1 = name).map Prod.snd

theorem lastIndex_nil (name : String) : lastIndex name [] = none := rfl

theorem lastIndex_concat (name : String) (calls : List String) (c : String) :
    lastIndex name (calls ++ [c]) = if c = name then some calls.length else lastIndex name calls := by
  unfold lastIndex
  rw [List.zipIdx_append, List.reverse_append]
  by_cases hc : c = name
  · rw [if_pos hc]
    simp [hc]
  · rw [if_neg hc]
    simp [hc]

theorem lastIndex_spec {name : String} {calls : List String} {k : Nat}
    (h : lastIndex name calls = some k) :
    calls[k]? = some name ∧ ∀ j, k < j → calls[j]? ≠ some name := by
  induction calls using List.reverseRecOn with
  | nil => cases h
  | append_singleton calls c ih =>
    rw [lastIndex_concat] at h
    by_cases hc : c = name
    · rw [if_pos hc] at h
      cases h
      rw [List.getElem?_concat_length, hc]
      refine ⟨rfl, ?_⟩
      intro j hj
      have hout : (calls ++ [name]).length ≤ j := by
        rw [List.length_append, List.length_singleton]
        omega
      rw [List.getElem?_eq_none hout]
      exact Option.some_ne_none _ |>.symm
    · rw [if_neg hc] at h
      obtain ⟨hk, hlater⟩ := ih h
      have hlt : k < calls.length := (List.getElem?_eq_some_iff.mp hk).1
      rw [List.getElem?_append_left hlt]
      refine ⟨hk, ?_⟩
      intro j hj hname
      by_cases hin : j < calls.length
      · rw [List.getElem?_append_left hin] at hname
        exact hlater j hj hname
      · rw [List.getElem?_append_right (by omega)] at hname
        rw [List.getElem?_singleton] at hname
        split at hname
        · exact hc (Option.some.inj hname)
        · cases hname

theorem lastIndex_isSome {name : String} {calls : List String} {i : Nat}
    (h : calls[i]? = some name) : ∃ k, lastIndex name calls = some k ∧ i ≤ k := by
  induction calls using List.reverseRecOn with
  | nil => cases h
  | append_singleton calls c ih =>
    rw [lastIndex_concat]
    have hlt := (List.getElem?_eq_some_iff.mp h).1
    rw [List.length_append, List.length_singleton] at hlt
    by_cases hc : c = name
    · rw [if_pos hc]
      exact ⟨calls.length, rfl, by omega⟩
    · rw [if_neg hc]
      by_cases hin : i < calls.length
      · rw [List.getElem?_append_left hin] at h
        exact ih h
      · have hi : i = calls.length := by omega
        subst hi
        rw [List.getElem?_concat_length] at h
        exact absurd (Option.some.inj h) hc

/-- A call is the last of its function when there is none after it. -/
theorem lastIndex_eq_iff {name : String} {calls : List String} {i : Nat}
    (h : calls[i]? = some name) :
    lastIndex name calls = some i ↔ ∀ k, i < k → calls[k]? ≠ some name := by
  constructor
  · intro hlast
    exact (lastIndex_spec hlast).2
  · intro hlater
    obtain ⟨k, hk, hle⟩ := lastIndex_isSome h
    have heq : i = k := by
      by_contra hne
      exact hlater k (by omega) (lastIndex_spec hk).1
    rw [hk, heq]

/-! ## The ids that are made up -/

theorem synthId_inj {m n : Nat} (h : synthId m = synthId n) : m = n :=
  callId_injective (congrArg Value.string h)

/-- The names of the calls. -/
def names (events : List Event) : List String :=
  events.filterMap fun event =>
    match event with
    | .call name => some name
    | .response _ => none

theorem responsesFrom_append (calls : List String) (events later : List Event) :
    responsesFrom calls (events ++ later) =
      responsesFrom calls events ++ responsesFrom (calls ++ names events) later := by
  induction events generalizing calls with
  | nil =>
    show _ = [] ++ responsesFrom (calls ++ []) later
    rw [List.append_nil]
    rfl
  | cons event events ih =>
    cases event with
    | call name =>
      show responsesFrom (calls ++ [name]) (events ++ later) =
        responsesFrom (calls ++ [name]) events ++
          responsesFrom (calls ++ name :: names events) later
      rw [ih, List.append_assoc]
      rfl
    | response name =>
      show (calls, name) :: responsesFrom calls (events ++ later) =
        (calls, name) :: responsesFrom calls events ++
          responsesFrom (calls ++ names events) later
      rw [ih]
      rfl

/-- The id that an answer gets: that of the last call of its function. -/
def idOf (r : List String × String) : String := ((lastIndex r.2 r.1).map synthId).getD r.2

/-- What has been gone through: the calls have the ids in order, the last of each
function is known, and the answers have theirs. `pending` are calls without a message. -/
structure Inv (w : Walk) (pending : List ToolCall) (events : List Event) : Prop where
  count : w.synthCallIndex = (names events).length
  last : ∀ name, Entries.find? name w.lastCallId = (lastIndex name (names events)).map synthId
  ids : (callsIn w.messages ++ pending).map ToolCall.id =
    (List.range (names events).length).map synthId
  answers : (answersIn w.messages).map Message.toolCallId =
    (responsesFrom [] events).map fun r => some (idOf r)

theorem callsIn_append (ms ms' : List Message) : callsIn (ms ++ ms') = callsIn ms ++ callsIn ms' :=
  List.flatMap_append

theorem answersIn_append (ms ms' : List Message) :
    answersIn (ms ++ ms') = answersIn ms ++ answersIn ms' := List.filter_append ..

theorem names_append (es es' : List Event) : names (es ++ es') = names es ++ names es' :=
  List.filterMap_append

/-- A part that is a call or an answer is one event more. -/
theorem inv_onPart {w : Walk} {events : List Event} (h : Inv w w.toolCalls events) (part : Value) :
    Inv (w.onPart part) (w.onPart part).toolCalls (events ++ (eventOf part).toList) := by
  unfold Walk.onPart eventOf
  cases hpart : partOf part with
  | none =>
    rw [Option.toList_none, List.append_nil]
    exact h
  | some kind =>
    cases kind with
    | text s =>
      rw [Option.toList_none, List.append_nil]
      exact ⟨h.count, h.last, h.ids, h.answers⟩
    | inline v =>
      rw [Option.toList_none, List.append_nil]
      exact ⟨h.count, h.last, h.ids, h.answers⟩
    | call v =>
      rw [Option.toList_some]
      have hnames : names (events ++ [Event.call (nameOf v)]) = names events ++ [nameOf v] :=
        names_append _ _
      refine ⟨?_, ?_, ?_, ?_⟩
      · rw [hnames, List.length_append, List.length_singleton, ← h.count]
      · intro name
        rw [hnames, lastIndex_concat]
        show Entries.find? name (Entries.insert (nameOf v) (synthId w.synthCallIndex) w.lastCallId) = _
        rw [Entries.find?_insert]
        by_cases hname : name = nameOf v
        · rw [if_pos hname, if_pos hname.symm, h.count]
          rfl
        · rw [if_neg hname, if_neg (Ne.symm hname), h.last]
      · show (callsIn w.messages ++ (w.toolCalls ++ [_])).map ToolCall.id = _
        rw [← List.append_assoc, List.map_append, h.ids, hnames, List.length_append,
          List.length_singleton, List.range_succ, List.map_append, ← h.count]
        rfl
      · rw [responsesFrom_append]
        show _ = (responsesFrom [] events ++ []).map _
        rw [List.append_nil]
        exact h.answers
    | response v =>
      rw [Option.toList_some]
      have hnames : names (events ++ [Event.response (nameOf v)]) = names events := by
        rw [names_append]
        exact List.append_nil _
      refine ⟨?_, ?_, ?_, ?_⟩
      · rw [hnames]
        exact h.count
      · rw [hnames]
        exact h.last
      · rw [hnames, ← h.ids]
        show (callsIn (w.messages ++ [_]) ++ w.toolCalls).map ToolCall.id = _
        rw [callsIn_append]
        show (callsIn w.messages ++ [] ++ w.toolCalls).map ToolCall.id = _
        rw [List.append_nil]
      · show (answersIn (w.messages ++ [_])).map Message.toolCallId = _
        rw [answersIn_append, List.map_append, h.answers, responsesFrom_append, List.map_append,
          h.last]
        rfl

theorem inv_onParts (parts : List Value) {w : Walk} {events : List Event}
    (h : Inv w w.toolCalls events) :
    Inv (parts.foldl Walk.onPart w) (parts.foldl Walk.onPart w).toolCalls
      (events ++ parts.filterMap eventOf) := by
  induction parts generalizing w events with
  | nil =>
    rw [List.filterMap_nil, List.append_nil]
    exact h
  | cons part parts ih =>
    have hstep := ih (inv_onPart h part)
    rw [List.append_assoc] at hstep
    rw [List.foldl_cons, List.filterMap_cons]
    cases hevent : eventOf part with
    | none =>
      rw [hevent] at hstep
      exact hstep
    | some event =>
      rw [hevent] at hstep
      exact hstep

/-- The calls of a content end up in its message. -/
theorem inv_onContent {w : Walk} {events : List Event} (h : Inv w [] events) (content : Value) :
    Inv (w.onContent content) []
      (events ++ (elements (content.index "parts")).filterMap eventOf) := by
  have hstart : Inv { w with parts := [], toolCalls := [] } [] events :=
    ⟨h.count, h.last, h.ids, h.answers⟩
  have hparts := inv_onParts (elements (content.index "parts")) hstart
  unfold Walk.onContent
  dsimp only
  generalize (elements (content.index "parts")).foldl Walk.onPart
    { w with parts := [], toolCalls := [] } = walked at hparts ⊢
  by_cases hempty : (walked.parts.isEmpty && walked.toolCalls.isEmpty) = true
  · have hcalls : walked.toolCalls = [] :=
      List.isEmpty_iff.mp (Bool.and_eq_true_iff.mp hempty).2
    rw [if_pos hempty]
    rw [hcalls] at hparts
    exact hparts
  · rw [if_neg hempty]
    refine ⟨hparts.count, hparts.last, ?_, ?_⟩
    · rw [List.append_nil, ← hparts.ids]
      show (callsIn (walked.messages ++ [_])).map ToolCall.id = _
      rw [callsIn_append]
      congr 2
      cases hcalls : walked.toolCalls with
      | nil => rfl
      | cons call calls => exact List.append_nil _
    · rw [← hparts.answers]
      show (answersIn (walked.messages ++ [_])).map Message.toolCallId = _
      rw [answersIn_append]
      have hrole : ∀ b : Prop, [Decidable b] → ¬ (if b then "assistant" else "user") = "tool" := by
        intro b _
        split <;> decide
      have hnone : answersIn [⟨if (content.index "role").asStr = some "model" then "assistant"
          else "user", if walked.parts.isEmpty = true then none else some (.parts walked.parts),
          if walked.toolCalls.isEmpty = true then none else some walked.toolCalls, none, none⟩] =
          [] := List.filter_cons_of_neg (by simpa using hrole _)
      rw [hnone, List.append_nil]

theorem inv_onContents (contents : List Value) {w : Walk} {events : List Event}
    (h : Inv w [] events) :
    Inv (contents.foldl Walk.onContent w) [] (events ++ contents.flatMap fun content =>
      (elements (content.index "parts")).filterMap eventOf) := by
  induction contents generalizing w events with
  | nil =>
    rw [List.flatMap_nil, List.append_nil]
    exact h
  | cons content contents ih =>
    rw [List.foldl_cons, List.flatMap_cons, ← List.append_assoc]
    exact ih (inv_onContent h content)

theorem inv_walkOf (body : Value) : Inv (walkOf body) [] (eventsOf body) := by
  refine inv_onContents (elements (body.index "contents")) (?_ : Inv _ [] [])
  have hsystem : callsIn (systemMessages body) = [] ∧ answersIn (systemMessages body) = [] := by
    unfold systemMessages
    cases (body.get? "systemInstruction").or (body.get? "system_instruction") with
    | none => exact ⟨rfl, rfl⟩
    | some system =>
      dsimp only
      split
      · exact ⟨rfl, rfl⟩
      · exact ⟨rfl, rfl⟩
  refine ⟨rfl, fun name => rfl, ?_, ?_⟩
  · rw [List.append_nil]
    show (callsIn (systemMessages body)).map ToolCall.id = []
    rw [hsystem.1]
    rfl
  · show (answersIn (systemMessages body)).map Message.toolCallId = []
    rw [hsystem.2]
    rfl

/-- A call's id is made of its place. -/
theorem id_of_call {w : Walk} {events : List Event} (h : Inv w [] events) {i : Nat} {id : String} :
    (∃ call, (callsIn w.messages)[i]? = some call ∧ some id = some call.id) ↔
      i < (names events).length ∧ id = synthId i := by
  have hids := h.ids
  rw [List.append_nil] at hids
  have hget := congrArg (·[i]?) hids
  rw [List.getElem?_map, List.getElem?_map] at hget
  constructor
  · rintro ⟨call, hcall, hid⟩
    rw [hcall, Option.map_some, eq_comm, Option.map_eq_some_iff] at hget
    obtain ⟨k, hk, hsame⟩ := hget
    obtain ⟨hlt, heq⟩ := List.getElem?_eq_some_iff.mp hk
    rw [List.length_range] at hlt
    rw [List.getElem_range] at heq
    subst heq
    exact ⟨hlt, (Option.some.inj hid).trans hsame.symm⟩
  · rintro ⟨hlt, rfl⟩
    rw [List.getElem?_range hlt, Option.map_some, Option.map_eq_some_iff] at hget
    obtain ⟨call, hcall, hid⟩ := hget
    exact ⟨call, hcall, congrArg some hid.symm⟩

/-- The calls before an answer are the first of all. -/
theorem responsesFrom_calls (events : List Event) (calls : List String) :
    ∀ r ∈ responsesFrom calls events, r.1 <+: calls ++ names events := by
  induction events generalizing calls with
  | nil => exact fun r hr => by cases hr
  | cons event events ih =>
    intro r hr
    cases event with
    | call name =>
      have hstep := ih (calls ++ [name]) r hr
      rw [List.append_assoc] at hstep
      exact hstep
    | response name =>
      rcases List.mem_cons.mp hr with rfl | hr
      · exact List.prefix_append _ _
      · exact ih calls r hr

/-- An answer gets the id of a call before it exactly when that is the last of its function. -/
theorem idOf_eq_iff {r : List String × String} {i : Nat} (h : r.1[i]? = some r.2) :
    idOf r = synthId i ↔ ∀ k, i < k → r.1[k]? ≠ some r.2 := by
  rw [← lastIndex_eq_iff h]
  obtain ⟨k, hk, -⟩ := lastIndex_isSome h
  unfold idOf
  rw [hk]
  show synthId k = synthId i ↔ some k = some i
  rw [Option.some.injEq]
  exact ⟨synthId_inj, congrArg synthId⟩

theorem matched_iff {body : Value} {answers : List Nat} (h : Answering (eventsOf body) answers) :
    Matched (walkOf body).messages answers ↔ Latest (eventsOf body) answers := by
  have hinv := inv_walkOf body
  have hknown : List.Forall₂ (fun r i => r.1 <+: names (eventsOf body) ∧ r.1[i]? = some r.2)
      (responsesFrom [] (eventsOf body)) answers :=
    (List.forall₂_and_left _ _).mpr ⟨responsesFrom_calls (eventsOf body) [], h.earlier⟩
  have hids : List.Forall₂ (fun m i => ∃ call, (callsIn (walkOf body).messages)[i]? = some call ∧
        m.toolCallId = some call.id) (answersIn (walkOf body).messages) answers ↔
      List.Forall₂ (fun r i => i < (names (eventsOf body)).length ∧ idOf r = synthId i)
        (responsesFrom [] (eventsOf body)) answers := by
    have hmap := List.forall₂_map_left_iff (f := Message.toolCallId)
      (R := fun (t : Option String) (i : Nat) =>
        ∃ call, (callsIn (walkOf body).messages)[i]? = some call ∧ t = some call.id)
      (l := answersIn (walkOf body).messages) (u := answers)
    rw [← hmap, hinv.answers, List.forall₂_map_left_iff]
    exact Lists.forall₂_congr_of hknown fun r i _ => id_of_call hinv
  have hlatest : List.Forall₂ (fun r i => i < (names (eventsOf body)).length ∧ idOf r = synthId i)
        (responsesFrom [] (eventsOf body)) answers ↔ Latest (eventsOf body) answers := by
    refine Lists.forall₂_congr_of hknown ?_
    intro r i hr
    have hlt := Nat.lt_of_lt_of_le (List.getElem?_eq_some_iff.mp hr.2).1 hr.1.length_le
    rw [idOf_eq_iff hr.2]
    exact and_iff_right hlt
  constructor
  · intro hmatched
    exact hlatest.mp (hids.mp hmatched.ids)
  · intro hlast
    have hmatched := hids.mpr (hlatest.mpr hlast)
    refine ⟨hmatched, ?_⟩
    -- As many ids as calls that are answered, and none of these twice.
    have hsame : (answersIn (walkOf body).messages).map Message.toolCallId =
        answers.map fun i => some (synthId i) := by
      rw [hinv.answers]
      exact Lists.map_eq_of_forall₂ ((hlatest.mpr hlast).imp fun r i hri => congrArg some hri.2)
    rw [hsame]
    exact h.once.map fun i j hij => synthId_inj (Option.some.inj hij)

/-! ## The names of the answers -/

theorem lastOf_id {id : String} {calls : List ToolCall} {call : ToolCall}
    (h : lastOf id calls = some call) : id = call.id := by
  simpa using List.find?_some h

theorem lastOf_mem {id : String} {calls : List ToolCall} {call : ToolCall}
    (h : lastOf id calls = some call) : call ∈ calls := by
  simpa using List.mem_of_find?_eq_some h

theorem lastOf_isSome {id : String} {calls : List ToolCall} {call : ToolCall} (hmem : call ∈ calls)
    (hid : id = call.id) : ∃ last, lastOf id calls = some last := by
  rw [← Option.isSome_iff_exists]
  unfold lastOf
  rw [List.find?_isSome]
  exact ⟨call, List.mem_reverse.mpr hmem, decide_eq_true hid⟩

theorem find?_callNames (id : String) (messages : List Message) :
    Entries.find? id (Turns.Gemini.callNames messages) =
      (lastOf id (callsIn messages)).map fun call => call.function.name := by
  unfold Turns.Gemini.callNames
  rw [Entries.find?_foldl_insert]
  exact Option.or_none

/-- The name that an answer is given. -/
def nameIn (messages : List Message) (m : Message) : String :=
  ((lastOf (m.toolCallId.getD "") (callsIn messages)).map fun call => call.function.name).getD
    (m.toolCallId.getD "")

theorem get?_part {part : ContentPart} {v : Value} (h : Turns.Gemini.partToGemini part = .ok v) :
    v.get? "functionResponse" = none := by
  cases part with
  | text s =>
    cases h
    rfl
  | imageUrl image =>
    dsimp only [Turns.Gemini.partToGemini] at h
    cases hrest : Text.stripPrefix "data:" image.url with
    | none =>
      rw [hrest] at h
      cases h
      rfl
    | some rest =>
      rw [hrest] at h
      dsimp only at h
      obtain ⟨found, -, rfl⟩ := exists_of_map h
      rfl
  | inputAudio audio =>
    cases h
    rfl
  | file file =>
    cases h
    rfl

section
variable {serdeError : String → String}

theorem get?_call {call : ToolCall} {v : Value}
    (h : Turns.toolUse serdeError .gemini call = .ok v) : v.get? "functionResponse" = none := by
  obtain ⟨input, -, rfl⟩ := exists_of_map h
  rfl

theorem get?_blocks {m : Message} {blocks : List Value}
    (h : Turns.contentBlocks .gemini m = .ok blocks) :
    ∀ v ∈ blocks, v.get? "functionResponse" = none := by
  unfold Turns.contentBlocks at h
  split at h
  · cases h
    exact fun v hv => by cases hv
  · split at h
    · cases h
      exact fun v hv => by cases hv
    · cases h
      intro v hv
      rw [List.mem_singleton.mp hv]
      rfl
  · intro v hv
    obtain ⟨part, -, hpart⟩ := mem_of_mapM h hv
    exact get?_part hpart

/-- The answers that a message pushes. -/
def responsesIn (found : Option (String × List Value)) : List Value :=
  (found.toList.flatMap Prod.snd).filterMap (·.get? "functionResponse")

theorem responsesIn_eq_nil {role : String} {blocks : List Value}
    (h : ∀ v ∈ blocks, v.get? "functionResponse" = none) :
    responsesIn (some (role, blocks)) = [] := by
  show (blocks ++ []).filterMap _ = []
  rw [List.append_nil, List.filterMap_eq_nil_iff]
  exact h

/-- Only a tool's message pushes one: its own. -/
theorem responses_pushed {all : List Message} {m : Message} {found : Option (String × List Value)}
    (h : Turns.pushed serdeError .gemini all m = .ok found) :
    (m.role = "tool" ∧ ∃ response, responsesIn found = [response] ∧
      response.index "name" = .string (nameIn all m)) ∨
    (m.role ≠ "tool" ∧ responsesIn found = []) := by
  unfold Turns.pushed at h
  by_cases hsystem : CodexInput.isSystem m
  · rw [if_pos hsystem] at h
    cases h
    refine .inr ⟨?_, rfl⟩
    rcases hsystem with hrole | hrole <;> rw [hrole] <;> decide
  rw [if_neg hsystem] at h
  by_cases huser : m.role = "user"
  · rw [if_pos huser] at h
    obtain ⟨blocks, hblocks, hpure⟩ := exists_of_bind h
    cases hpure
    exact .inr ⟨by rw [huser]; decide, responsesIn_eq_nil (get?_blocks hblocks)⟩
  rw [if_neg huser] at h
  by_cases hassistant : m.role = "assistant"
  · rw [if_pos hassistant] at h
    obtain ⟨blocks, hblocks, hrest⟩ := exists_of_bind h
    obtain ⟨calls, hcalls, hpure⟩ := exists_of_bind hrest
    cases hpure
    refine .inr ⟨by rw [hassistant]; decide, responsesIn_eq_nil ?_⟩
    intro v hv
    rcases List.mem_append.mp hv with hv | hv
    · exact get?_blocks hblocks v hv
    · obtain ⟨call, -, hcall⟩ := mem_of_mapM hcalls hv
      exact get?_call hcall
  rw [if_neg hassistant] at h
  by_cases htool : m.role = "tool"
  · rw [if_pos htool] at h
    obtain ⟨block, hblock, hpure⟩ := exists_of_bind h
    cases hpure
    cases hblock
    refine .inl ⟨htool, _, rfl, ?_⟩
    rw [find?_callNames]
    simp [nameIn, Value.index_ofMembers]
  · rw [if_neg htool] at h
    cases h

/-- The answers, in order, have the names that are looked up. -/
theorem responses_found {all : List Message} {messages : List Message}
    {found : List (Option (String × List Value))}
    (h : List.Forall₂ (fun m f => Turns.pushed serdeError .gemini all m = .ok f) messages found)
    (calls : List ToolCall) :
    List.Forall₂ (fun asked response => response.index "name" = .string (nameIn all asked.2))
      (askedFrom calls messages) (found.flatMap responsesIn) := by
  induction h generalizing calls with
  | nil => exact .nil
  | @cons m f messages found hm _ ih =>
    unfold askedFrom
    rw [List.flatMap_cons]
    refine List.rel_append ?_ (ih (calls ++ made m))
    rcases responses_pushed hm with ⟨htool, response, hresponse, hname⟩ | ⟨hother, hnone⟩
    · rw [if_pos htool, hresponse]
      exact .cons hname .nil
    · rw [if_neg hother, hnone]
      exact .nil

end

theorem functionResponses_turns (turns : List (String × List Value)) :
    functionResponses (turns.map (Turns.turnValue .gemini)) =
      (Runs.tagged turns).filterMap fun block => block.2.get? "functionResponse" := by
  induction turns with
  | nil => rfl
  | cons turn turns ih =>
    have hparts : elements ((Turns.turnValue .gemini turn).index "parts") = turn.2 := by
      have hread : (Turns.turnValue .gemini turn).index "parts" = .array turn.2 := by
        simp [Turns.turnValue, Turns.Target.field, Value.index_ofMembers]
      rw [hread]
      rfl
    unfold functionResponses at ih ⊢
    rw [List.map_cons, List.flatMap_cons, hparts, ih, Runs.tagged_cons, List.filterMap_append,
      List.filterMap_map]
    rfl

theorem responses_reduceOption (found : List (Option (String × List Value))) :
    ((Runs.tagged found.reduceOption).filterMap fun block => block.2.get? "functionResponse") =
      found.flatMap responsesIn := by
  induction found with
  | nil => rfl
  | cons f found ih =>
    cases f with
    | none =>
      rw [List.reduceOption_cons_of_none, ih]
      rfl
    | some turn =>
      have hturn : responsesIn (some turn) = turn.2.filterMap (·.get? "functionResponse") := by
        show (turn.2 ++ []).filterMap _ = _
        rw [List.append_nil]
      rw [List.reduceOption_cons_of_some, Runs.tagged_cons, List.filterMap_append, ih,
        List.filterMap_map, List.flatMap_cons, hturn]
      rfl

theorem askedFrom_calls (messages : List Message) (calls : List ToolCall) :
    ∀ asked ∈ askedFrom calls messages, ∀ call ∈ asked.1,
      call ∈ calls ∨ call ∈ callsIn messages := by
  induction messages generalizing calls with
  | nil => exact fun asked hasked => by cases hasked
  | cons m rest ih =>
    intro asked hasked call hcall
    unfold askedFrom at hasked
    rcases List.mem_append.mp hasked with hhere | hlater
    · split at hhere
      · rw [List.mem_singleton.mp hhere] at hcall
        exact .inl hcall
      · cases hhere
    · have hmem : ∀ c ∈ made m, c ∈ m.calls := by
        intro c hc
        unfold made at hc
        split at hc
        · exact hc
        · cases hc
      rcases ih (calls ++ made m) asked hlater call hcall with hbefore | hafter
      · rcases List.mem_append.mp hbefore with hbefore | hmade
        · exact .inl hbefore
        · exact .inr (List.mem_append_left _ (hmem call hmade))
      · exact .inr (List.mem_append_right _ hafter)

theorem named_iff {serdeError : String → String} {messages : List Message} {out : List Value}
    (h : Turns.translateMessages serdeError .gemini messages = .ok out) :
    Named messages out ↔ Unshadowed messages := by
  obtain ⟨found, hfound, hpure⟩ := exists_of_bind h
  cases hpure
  have hresponses := responses_found (forall₂_of_mapM hfound) []
  unfold Named Unshadowed
  rw [functionResponses_turns, Turns.tagged_turnsOf, responses_reduceOption]
  have hknown := (List.forall₂_and_left (askedFrom [] messages) _).mpr
    ⟨askedFrom_calls messages [], hresponses⟩
  refine Lists.forall₂_iff_forall hknown ?_
  intro asked response hasked
  apply forall₂_congr
  intro call hcall
  obtain ⟨id, hid, hlast⟩ := Option.bind_eq_some_iff.mp hcall
  have hname := lastOf_id hlast
  subst hname
  have hmem : call ∈ callsIn messages :=
    (hasked.1 call (lastOf_mem hlast)).resolve_left List.not_mem_nil
  obtain ⟨last, hfinal⟩ := lastOf_isSome hmem rfl
  have hgiven : nameIn messages asked.2 = last.function.name := by
    unfold nameIn
    rw [hid, Option.getD_some, hfinal]
    rfl
  rw [hasked.2, hgiven, Value.string.injEq]
  constructor
  · intro hsame other hother
    rw [hfinal] at hother
    cases hother
    exact hsame
  · exact fun hall => hall last hfinal

/-- **Calls and their answers.** A Gemini conversation keeps every answer with its call as
long as each is of the last call of its function so far; and an OpenAI conversation keeps
the names of its answers as long as no later call of another function takes the id. -/
theorem calls_matched_iff (body : Value) (model : String) (stream : Bool) (answers : List Nat)
    (serdeError : String → String) (messages : List Message) :
    (∀ request, requestToInternal body model stream = .ok request →
      Answering (eventsOf body) answers →
        (Matched request.messages answers ↔ Latest (eventsOf body) answers)) ∧
    ∀ out, Turns.translateMessages serdeError .gemini messages = .ok out →
      (Named messages out ↔ Unshadowed messages) := by
  constructor
  · intro request hrequest hanswering
    cases hrequest
    exact matched_iff hanswering
  · intro out hout
    exact named_iff hout

def turn (role : String) (parts : List Value) : Value :=
  .ofMembers [("role", .string role), ("parts", .array parts)]

def named (kind name : String) : Value := .ofMembers [(kind, .ofMembers [("name", .string name)])]

def bodyOf (calls answers : List String) : Value :=
  .ofMembers [("contents", .array [turn "model" (calls.map (named "functionCall")),
    turn "user" (answers.map (named "functionResponse"))])]

def calling (id name : String) : Message :=
  ⟨"assistant", none, some [⟨id, "function", ⟨name, ""⟩⟩], none, none⟩

def answering (id text : String) : Message := ⟨"tool", some (.text text), none, some id, none⟩

theorem calls_matched_weather :
    Matched (walkOf (bodyOf ["f", "g"] ["g", "f"])).messages [1, 0] ∧
      ∃ out, Turns.translateMessages (fun _ => "") .gemini [calling "a" "f", answering "a" "ok"] =
        .ok out ∧ Named [calling "a" "f", answering "a" "ok"] out := by
  have hevents : eventsOf (bodyOf ["f", "g"] ["g", "f"]) =
      [.call "f", .call "g", .response "g", .response "f"] := by
    decide +kernel
  have hresponses : responsesFrom [] (eventsOf (bodyOf ["f", "g"] ["g", "f"])) =
      [(["f", "g"], "g"), (["f", "g"], "f")] := by
    rw [hevents]
    rfl
  have hall := calls_matched_iff (bodyOf ["f", "g"] ["g", "f"]) "m" false [1, 0] (fun _ => "")
    [calling "a" "f", answering "a" "ok"]
  refine ⟨(hall.1 _ rfl ⟨?_, ?_⟩).mpr ?_, ?_⟩
  · rw [hresponses]
    exact .cons rfl (.cons rfl .nil)
  · decide
  · unfold Latest
    rw [hresponses]
    refine .cons ?_ (.cons ?_ .nil)
    · intro k hk
      rw [List.getElem?_eq_none (show ["f", "g"].length ≤ k from hk)]
      exact Option.some_ne_none _ |>.symm
    · intro k hk
      by_cases hone : k = 1
      · subst hone
        decide
      · have hout : ["f", "g"].length ≤ k := show 2 ≤ k by omega
        rw [List.getElem?_eq_none hout]
        exact Option.some_ne_none _ |>.symm
  · refine ⟨_, rfl, (hall.2 _ rfl).mpr ?_⟩
    intro asked hasked call hcall last hlast
    rw [List.mem_singleton.mp hasked] at hcall
    cases hcall
    cases hlast
    rfl

/-- Two calls of one function at a time, and two answers. -/
def twoCalls : Value := bodyOf ["f", "f"] ["f", "f"]

/-- An id that is used again for a call of another function. -/
def sameId : List Message :=
  [calling "call_0" "f", answering "call_0" "ok", calling "call_0" "g", answering "call_0" "ok"]

/-- Both answers get the id of the second call, and both the name of the second function. -/
theorem twoCalls_confused :
    (∃ answers, Answering (eventsOf twoCalls) answers ∧
      ¬ Matched (walkOf twoCalls).messages answers) ∧
    ∃ out, Turns.translateMessages (fun _ => "") .gemini sameId = .ok out ∧ ¬ Named sameId out := by
  have hresponses : responsesFrom [] (eventsOf twoCalls) = [(["f", "f"], "f"), (["f", "f"], "f")] := by
    decide +kernel
  constructor
  · have hanswering : Answering (eventsOf twoCalls) [0, 1] := by
      refine ⟨?_, by decide⟩
      rw [hresponses]
      exact .cons rfl (.cons rfl .nil)
    refine ⟨[0, 1], hanswering, ?_⟩
    rw [matched_iff hanswering]
    unfold Latest
    rw [hresponses]
    intro hlatest
    cases hlatest with
    | cons hfirst _ => exact hfirst 1 (by decide) rfl
  · refine ⟨_, rfl, ?_⟩
    have hnamed := named_iff (rfl : Turns.translateMessages (fun _ => "") .gemini sameId = .ok _)
    rw [hnamed]
    intro hunshadowed
    have hnames := hunshadowed _ List.mem_cons_self _ rfl _ rfl
    revert hnames
    decide

end RapidRouter.Providers.CallIds
