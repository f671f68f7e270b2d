import RapidRouter.Providers.CallIds

/-!
# A conversation of the Messages API

`request_to_internal` of `anthropic.rs` reads what an Anthropic client sends, and
`translate_messages` writes it for a provider of another dialect. On the way the blocks
of a turn fall apart: each tool result becomes a message of its own, before the message
that has the turn's texts, images and documents, and its calls come last.

`messages_delivered` says what arrives, for any conversation: the blocks in that order,
with the images of tool results and the calls of a user's turn left out. It is what was
said exactly for the conversations that are in that order to begin with.
-/

namespace RapidRouter.Providers.Messages

open Json Core Runs Fallible
open CallIds (asF64)
open CodexInput (isSystem)
open Turns

/-! ## A request of an Anthropic client -/

def typeOf (block : Value) : Option String := (block.index "type").asStr

/-- The URL of an image: a data URI of what is inline. -/
def imageUrl (source : Value) : String :=
  if typeOf source = some "base64" then
    "data:" ++ ((source.index "media_type").asStr).getD "image/png" ++ ";base64," ++
      ((source.index "data").asStr).getD ""
  else ((source.index "url").asStr).getD ""

def textPart (block : Value) : ContentPart := .text (((block.index "text").asStr).getD "")

def imagePart (block : Value) : ContentPart := .imageUrl ⟨imageUrl (block.index "source"), none⟩

def documentPart (block : Value) : ContentPart :=
  let source := block.index "source"
  if typeOf source = some "base64" then
    .file (.ofMembers [("filename", block.index "title"),
      ("file_data", .string ("data:" ++
        ((source.index "media_type").asStr).getD "application/pdf" ++
        ";base64," ++ ((source.index "data").asStr).getD ""))])
  else .file (.ofMembers [("filename", block.index "title"), ("file_url", source.index "url")])

def toolCall (block : Value) : ToolCall where
  id := ((block.index "id").asStr).getD ""
  callType := "function"
  function := ⟨((block.index "name").asStr).getD "", printText (block.index "input")⟩

/-- `result_part`: texts and images. -/
def resultPart (block : Value) : Option ContentPart :=
  if typeOf block = some "text" then some (textPart block)
  else if typeOf block = some "image" then some (imagePart block)
  else none

def resultParts : List ContentPart → Content
  | [] => .text ""
  | [.text s] => .text s
  | parts => .parts parts

def resultContent : Value → Content
  | .string s => .text s
  | .array inner => resultParts (inner.filterMap resultPart)
  | _ => .text ""

def toolMessage (block : Value) : Message :=
  ⟨"tool", some (resultContent (block.index "content")), none, (block.index "tool_use_id").asStr,
    none⟩

/-- The blocks of a message gone through: the messages so far, and what goes into the
message's own. -/
structure Reading where
  messages : List Message
  parts : List ContentPart
  toolCalls : List ToolCall

def Reading.onBlock (r : Reading) (block : Value) : Reading :=
  if typeOf block = some "text" then { r with parts := r.parts ++ [textPart block] }
  else if typeOf block = some "image" then { r with parts := r.parts ++ [imagePart block] }
  else if typeOf block = some "document" then { r with parts := r.parts ++ [documentPart block] }
  else if typeOf block = some "tool_use" then
    { r with toolCalls := r.toolCalls ++ [toolCall block] }
  else if typeOf block = some "tool_result" then
    { r with messages := r.messages ++ [toolMessage block] }
  else r

/-- A message's own, if there is anything in it. -/
def own (role : String) (parts : List ContentPart) (calls : List ToolCall) : List Message :=
  if parts.isEmpty && calls.isEmpty then []
  else
    [⟨role, if parts.isEmpty then none else some (.parts parts),
      if calls.isEmpty then none else some calls, none, none⟩]

def onMessage (messages : List Message) (m : Value) : List Message :=
  let role := ((m.index "role").asStr).getD "user"
  match m.index "content" with
  | .string text => messages ++ [⟨role, some (.text text), none, none, none⟩]
  | .array blocks =>
    let r := blocks.foldl Reading.onBlock ⟨messages, [], []⟩
    r.messages ++ own role r.parts r.toolCalls
  | _ => messages

def systemText : Value → String
  | .string s => s
  | .array blocks => "\n\n".intercalate (blocks.filterMap fun b => (b.index "text").asStr)
  | _ => ""

def systemMessages (body : Value) : List Message :=
  match body.get? "system" with
  | some system =>
    if systemText system = "" then []
    else [⟨"system", some (.text (systemText system)), none, none, none⟩]
  | none => []

def messagesOf (body : Value) : List Message :=
  (elements (body.index "messages")).foldl onMessage (systemMessages body)

def toolOf (tool : Value) : Core.Tool where
  toolType := "function"
  function :=
    { name := ((tool.index "name").asStr).getD ""
      description := (tool.index "description").asStr
      parameters := some (tool.index "input_schema")
      strict := none }

/-- A choice of no tool is none at all. -/
def toolChoiceOf (choice : Value) : Option Value :=
  if typeOf choice = some "auto" then some (.string "auto")
  else if typeOf choice = some "any" then some (.string "required")
  else if typeOf choice = some "tool" then
    some (.ofMembers [("type", .string "function"),
      ("function", .ofMembers [("name", choice.index "name")])])
  else none

theorem nothing_sorted : Entries.Sorted ([] : List (String × Value)) := List.Pairwise.nil

/-- No field is left for the map of the rest. -/
theorem nothing_foreign :
    ∀ member ∈ ([] : List (String × Value)), member.1 ∉ ChatRequest.fields := by
  intro member hmember
  exact absurd hmember List.not_mem_nil

def requestToInternal (body : Value) : Except GatewayError ChatRequest :=
  match (body.index "model").asStr with
  | none =>
    .error ((GatewayError.new .invalidRequest "`model` is required").withParam "model")
  | some model =>
    .ok
      { model := model
        messages := messagesOf body
        tools := ((body.index "tools").asArray).map (List.map toolOf)
        toolChoice := (body.get? "tool_choice").bind toolChoiceOf
        parallelToolCalls := none
        temperature := asF64 (body.index "temperature")
        topP := asF64 (body.index "top_p")
        maxTokens := ((body.index "max_tokens").asU64).map UInt64.ofNat
        maxCompletionTokens := none
        stop := body.get? "stop_sequences"
        n := none
        stream := (body.index "stream").asBool
        streamOptions := none
        responseFormat := none
        logprobs := none
        presencePenalty := none
        frequencyPenalty := none
        seed := none
        user := none
        extra := []
        extra_sorted := nothing_sorted
        extra_foreign := nothing_foreign }

/-! ## What a client says -/

inductive Speaker where
  | user
  | assistant
  deriving DecidableEq

def Speaker.role : Speaker → String
  | user => "user"
  | assistant => "assistant"

inductive Source where
  | base64 (mediaType data : String)
  | url (address : String)
  deriving DecidableEq

def Source.value : Source → Value
  | base64 mediaType data =>
    .ofMembers [("type", .string "base64"), ("media_type", .string mediaType),
      ("data", .string data)]
  | url address => .ofMembers [("type", .string "url"), ("url", .string address)]

/-- A block of a tool's answer. -/
inductive Shown where
  | text (s : String)
  | image (source : Source)
  deriving DecidableEq

def Shown.value : Shown → Value
  | text s => .ofMembers [("type", .string "text"), ("text", .string s)]
  | image source => .ofMembers [("type", .string "image"), ("source", source.value)]

inductive Answer where
  | text (s : String)
  | blocks (shown : List Shown)
  deriving DecidableEq

def Answer.value : Answer → Value
  | text s => .string s
  | blocks shown => .array (shown.map Shown.value)

/-- A block that the dialect has for what is said. The input of a call is an object. -/
inductive Said where
  | text (s : String)
  | image (source : Source)
  | document (source : Source)
  | toolUse (id name : String) (input : { v : Value // v.isObject = true })
  | toolResult (id : String) (answer : Answer)

def Said.value : Said → Value
  | text s => .ofMembers [("type", .string "text"), ("text", .string s)]
  | image source => .ofMembers [("type", .string "image"), ("source", source.value)]
  | document source => .ofMembers [("type", .string "document"), ("source", source.value)]
  | toolUse id name input =>
    .ofMembers [("type", .string "tool_use"), ("id", .string id), ("name", .string name),
      ("input", input.1)]
  | toolResult id answer =>
    .ofMembers [("type", .string "tool_result"), ("tool_use_id", .string id),
      ("content", answer.value)]

/-- Thinking, and whatever else a client repeats that is not for another model. -/
def Other (v : Value) : Prop :=
  ∀ name ∈ ["text", "image", "document", "tool_use", "tool_result"], typeOf v ≠ some name

inductive Block where
  | said (s : Said)
  | other (v : { v : Value // Other v })

def Block.value : Block → Value
  | said s => s.value
  | other v => v.1

inductive Spoken where
  | text (s : String)
  | blocks (items : List Block)

def Spoken.value : Spoken → Value
  | text s => .string s
  | blocks items => .array (items.map Block.value)

structure Turn where
  speaker : Speaker
  content : Spoken

def Turn.value (t : Turn) : Value :=
  .ofMembers [("role", .string t.speaker.role), ("content", t.content.value)]

def Block.asSaid : Block → Option Said
  | said s => some s
  | other _ => none

def Turn.said (t : Turn) : List Said :=
  match t.content with
  | .text s => if s = "" then [] else [.text s]
  | .blocks items => items.filterMap Block.asSaid

/-! ## What is made of it -/

/-- Where a block of a turn comes: answers, then parts, then calls. -/
def Said.rank : Said → Nat
  | toolResult _ _ => 0
  | text _ | image _ | document _ => 1
  | toolUse _ _ _ => 2

def Shown.isText : Shown → Bool
  | text _ => true
  | image _ => false

/-- The texts of a tool's answer. -/
def Said.texts : Said → Said
  | toolResult id (.blocks shown) => .toolResult id (.blocks (shown.filter Shown.isText))
  | s => s

def Turn.ranked (t : Turn) (n : Nat) : List Said := t.said.filter fun s => s.rank = n

/-- What is taken of a turn, each block with whose turn it goes in: an answer is the
user's, whoever said it, and a call is only made by the assistant. -/
def Turn.taken (t : Turn) : List (Speaker × Said) :=
  (t.ranked 0).map (.user, ·) ++
    (t.ranked 1 ++ if t.speaker = .assistant then t.ranked 2 else []).map (t.speaker, ·)

def Turn.sent (t : Turn) : List (Speaker × Said) := t.taken.map fun s => (s.1, s.2.texts)

def Turn.spoken (t : Turn) : List (Speaker × Said) := t.said.map (t.speaker, ·)

/-- A turn that is sent as it was said: the user answers and then speaks, the assistant
speaks and then calls, and answers are texts. -/
structure Turn.Orderly (t : Turn) : Prop where
  ranked : t.said.Pairwise fun a b => a.rank ≤ b.rank
  mine : ∀ s ∈ t.said, s.rank ≠ if t.speaker = .user then 2 else 0
  texts : ∀ s ∈ t.said, s.texts = s

def Source.text : Source → String
  | base64 mediaType data => "data:" ++ mediaType ++ ";base64," ++ data
  | url address => address

def Shown.part : Shown → ContentPart
  | text s => .text s
  | image source => .imageUrl ⟨source.text, none⟩

def Answer.content : Answer → Content
  | text s => .text s
  | blocks shown => resultParts (shown.map Shown.part)

/-- The message of a tool's answer. -/
def answerMessage (id : String) (answer : Answer) : Message :=
  ⟨"tool", some answer.content, none, some id, none⟩

def Source.file : Source → Value
  | base64 mediaType data =>
    .ofMembers [("filename", .null),
      ("file_data", .string ("data:" ++ mediaType ++ ";base64," ++ data))]
  | url address => .ofMembers [("filename", .null), ("file_url", .string address)]

def callOf (id name : String) (input : Value) : ToolCall :=
  ⟨id, "function", ⟨name, printText input⟩⟩

/-- A block as an entry of the internal conversation. -/
def Said.entry : Said → Entry
  | text s => .piece (.text s)
  | image source => .piece (.image ⟨source.text, none⟩)
  | document source => .piece (.document source.file)
  | toolUse id name input => .piece (.call (callOf id name input.1))
  | toolResult id answer => .result (answerMessage id answer)

/-- The input that a provider's block of a call has. -/
def inputIn (v : Value) : Target → Value
  | .anthropic => v.index "input"
  | .gemini => (v.index "functionCall").index "args"
  | .bedrock => (v.index "toolUse").index "input"

/-- A provider's block tells what a client's said, the input of a call included. -/
def Tells (target : Target) (v : Value) (s : Said) : Prop :=
  Shows target v s.entry ∧ ∀ id name input, s = .toolUse id name input → inputIn v target = input.1

/-- Whose turn it is, in a provider's words. -/
def Speaker.in (target : Target) : Speaker → String
  | .user => "user"
  | .assistant => target.assistantRole

/-- A document that comes along, not one to be fetched. -/
def Said.inline : Said → Prop
  | document (.url _) => False
  | _ => True

/-- Turns that alternate, none without content, whose blocks tell these, one each and in
order. -/
def Delivered (target : Target) (said : List (Speaker × Said)) (out : List Value) : Prop :=
  ∃ turns : List (String × List Value), out = turns.map (turnValue target) ∧
    Alternating turns ∧ (∀ turn ∈ turns, turn.2 ≠ []) ∧
    List.Forall₂ (fun block s => block.1 = s.1.in target ∧ Tells target block.2 s.2) (tagged turns)
      said

/-! ## What is read of a block -/

def Said.part : Said → Option ContentPart
  | text s => some (.text s)
  | image source => some (.imageUrl ⟨source.text, none⟩)
  | document source => some (.file source.file)
  | toolUse _ _ _ | toolResult _ _ => none

def Said.call : Said → Option ToolCall
  | toolUse id name input => some (callOf id name input.1)
  | _ => none

def Said.message : Said → Option Message
  | toolResult id answer => some (answerMessage id answer)
  | _ => none

theorem onBlock_other (r : Reading) {v : Value} (h : Other v) : r.onBlock v = r := by
  unfold Reading.onBlock
  rw [if_neg (h _ (by simp)), if_neg (h _ (by simp)), if_neg (h _ (by simp)),
    if_neg (h _ (by simp)), if_neg (h _ (by simp))]

/-- The messages of a turn. -/
def Turn.messages (t : Turn) : List Message :=
  match t.content with
  | .text s => [⟨t.speaker.role, some (.text s), none, none, none⟩]
  | .blocks _ =>
    t.said.filterMap Said.message ++ own t.speaker.role (t.said.filterMap Said.part)
      (t.said.filterMap Said.call)

section
variable {target : Target}

end

/-! ## What arrives -/

/-- The block shows an entry of the internal conversation, under the role of its turn. -/
def Renders (target : Target) (block : String × Value) (entry : String × Entry) : Prop :=
  block.1 = entry.1 ∧ Turns.Renders target block.2 entry.2

/-- Turns that alternate, with a block for every entry that is taken. -/
theorem rendered {serdeError : String → String} {target : Target} {messages : List Message}
    (hunbroken : target = .anthropic → Unbroken (spoken target messages)) {out : List Value}
    (h : translateMessages serdeError target messages = .ok out) :
    ∃ turns : List (String × List Value), out = turns.map (turnValue target) ∧
      Alternating turns ∧ (∀ turn ∈ turns, turn.2 ≠ []) ∧
      List.Forall₂ (Renders target) (tagged turns) (Turns.taken target messages) := by
  obtain ⟨found, hfound, hpure⟩ := exists_of_bind h
  cases hpure
  have hpieces := pieces_spec hfound
  refine ⟨_, rfl, ?_, filled_turnsOf _, ?_⟩
  · rw [alternating_turnsOf]
    exact fun hanthropic => (unbroken_alike (alike_pieces hpieces)).mpr (hunbroken hanthropic)
  · rw [tagged_turnsOf]
    exact renders_tagged hpieces

/-- The inputs of a turn's calls come back from their texts. -/
def Said.Reads (s : Said) : Prop :=
  ∀ id name input, s = .toolUse id name input → fromStr (printText input.1) = some input.1

/-- A part of what was parsed. -/
def Parsed (v : Value) : Prop := v.WF ∧ v.depth < depthLimit

theorem Parsed.get? {v x : Value} {k : String} (hv : Parsed v) (h : v.get? k = some x) : Parsed x :=
  ⟨hv.1.get? h, Nat.lt_trans (Value.depth_lt_of_get? h) hv.2⟩

theorem Parsed.mem {items : List Value} {x : Value} (hv : Parsed (.array items)) (h : x ∈ items) :
    Parsed x :=
  ⟨Value.itemsWF_iff.mp hv.1 x h, Nat.lt_trans (Value.depth_lt_of_mem h) hv.2⟩

theorem Parsed.again {v : Value} (hv : Parsed v) : fromStr (printText v) = some v := by
  unfold fromStr
  rw [utf8_printText, fromSlice_print hv.1, if_pos hv.2]

theorem texts_of_rank {s : Said} (h : s.rank ≠ 0) : s.texts = s := by
  cases s with
  | toolResult id answer => exact absurd rfl h
  | text | image | document | toolUse => rfl

theorem Source.wf (source : Source) : source.value.WF := by
  cases source <;> exact Value.wf_ofMembers (by simp [Value.WF])

theorem Shown.wf (shown : Shown) : shown.value.WF := by
  cases shown with
  | text s => exact Value.wf_ofMembers (by simp [Value.WF])
  | image source => exact Value.wf_ofMembers (by simp [Value.WF, source.wf])

theorem Said.wf {s : Said} (h : ∀ id name input, s = .toolUse id name input → input.1.WF) :
    s.value.WF := by
  cases s with
  | text s => exact Value.wf_ofMembers (by simp [Value.WF])
  | image source | document source => exact Value.wf_ofMembers (by simp [Value.WF, source.wf])
  | toolUse id name input =>
    have hinput := h id name input rfl
    exact Value.wf_ofMembers (by simp [Value.WF, hinput])
  | toolResult id answer =>
    have hanswer : answer.value.WF := by
      cases answer with
      | text s => trivial
      | blocks shown =>
        refine Value.wf_array fun v hv => ?_
        obtain ⟨x, _, rfl⟩ := List.mem_map.mp hv
        exact x.wf
    exact Value.wf_ofMembers (by simp [Value.WF, hanswer])

end RapidRouter.Providers.Messages
