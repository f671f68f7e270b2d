import RapidRouter.Core.Sse
import RapidRouter.Providers.Aggregate

/-!
# Answers in blocks

Anthropic and Bedrock answer in content blocks, of which a stream delivers each
one after the other: a text or a tool's input in pieces that can be cut
anywhere. Here is what such blocks are reassembled to (`fold_deltas`), and when
it is what the whole blocks say: a tool's input is passed on as the text it was
streamed as, so its text must parse, which the empty text does not
(`parsed_iff`).
-/

namespace RapidRouter.Providers

open Json Emit RapidRouter.Core

/-- A translator that does what its events say, and nothing with one that says
nothing of the answer or whose data does not parse. -/
theorem emitAll_said {σ S : Type} {f : σ → String → Value → σ × List Value}
    {said : String → Value → Option S} {step : σ → S → σ × List Value}
    {kind : SseEvent → Value → String}
    (h : ∀ s name data, f s name data = (said name data).elim (s, []) (step s)) (s : σ)
    (events : List SseEvent) :
    emitAll (fun s event =>
        match fromSlice event.data with
        | some data => f s (kind event data) data
        | none => (s, [])) s events =
      emitAll step s (events.filterMap fun event =>
        (fromSlice event.data).bind fun data => said (kind event data) data) := by
  refine emitAll_filterMap (fun s e hsaid => ?_) (fun s e b hsaid => ?_) s events
  · cases hdata : fromSlice e.data with
    | none => rfl
    | some data =>
      rw [hdata] at hsaid
      show f s _ data = _
      rw [h, show said _ data = none from hsaid]
      rfl
  · cases hdata : fromSlice e.data with
    | none =>
      rw [hdata] at hsaid
      cases hsaid
    | some data =>
      rw [hdata] at hsaid
      show f s _ data = _
      rw [h, show said _ data = some b from hsaid]
      rfl

/-- An event of this name, with this data. -/
def sseEvent (name : String) (data : Value) : SseEvent := ⟨some (utf8 name), data.print⟩

/-- A tool's block: its input, and the pieces of text it is streamed in. -/
structure Tool where
  id : String
  name : String
  input : Value
  pieces : List String

namespace Tool

def text (tool : Tool) : String := String.join tool.pieces

/-- The text is the input's, or there is none and the input has no members. -/
def WF (tool : Tool) : Prop :=
  fromStr tool.text = some tool.input ∨ (tool.text = "" ∧ tool.input = .object [])

theorem fromStr_input {tool : Tool} (h : tool.WF) : fromStr (printText tool.input) = some tool.input := by
  rcases h with h | ⟨-, h⟩
  · exact fromStr_printText h
  · have hempty : fromStr "\x7b\x7d" = some (.object []) := rfl
    rw [h]
    exact fromStr_printText hempty

/-- The call of a whole answer. -/
def whole (tool : Tool) : Call := ⟨.string tool.id, .string tool.name, .string (printText tool.input)⟩

/-- As the whole answer's translation lists it. -/
def value (tool : Tool) : Value :=
  functionCall (.string tool.id) (.string tool.name) (.string (printText tool.input))

theorem callOf_value (tool : Tool) : callOf tool.value = tool.whole := by
  simp [callOf, value, functionCall, Value.index_ofMembers, whole]

/-- The call that the stream is reassembled to. -/
def streamed (tool : Tool) : String × String × String := (tool.id, tool.name, tool.text)

end Tool

/-- A block of an answer, as it is streamed. -/
inductive Streamed where
  | text (pieces : List String)
  | tool (tool : Tool)
  /-- A block that neither translation takes anything from. -/
  | other

namespace Streamed

def texts (blocks : List Streamed) : String :=
  String.join (blocks.map fun
    | text pieces => String.join pieces
    | _ => "")

def tools (blocks : List Streamed) : List Tool :=
  blocks.filterMap fun
    | tool t => some t
    | _ => none

/-- What the stream of one block carries, when the next call has index `n`. -/
def blockDeltas (n : Nat) : Streamed → List Delta
  | text pieces => pieces.map .content
  | tool t => .call n (.string t.id) (.string t.name) "" :: t.pieces.map (.arguments n)
  | other => []

def deltas (n : Nat) : List Streamed → List Delta
  | [] => []
  | block :: blocks => blockDeltas n block ++ deltas (n + (tools [block]).length) blocks

end Streamed

theorem fold_content (a : Assembled) (pieces : List String) :
    (pieces.map Delta.content).foldl Delta.apply a =
      { a with content := a.content ++ String.join pieces } := by
  induction pieces generalizing a with
  | nil => simp [String.join]
  | cons piece pieces ih =>
    rw [List.map_cons, List.foldl_cons, ih, String.join_cons, ← String.append_assoc]
    rfl

theorem fold_arguments {a : Assembled} {calls : List (String × String × String)}
    {id name args : String} (h : a.calls = calls ++ [(id, name, args)]) (hlt : calls.length < 2 ^ 64)
    (pieces : List String) :
    (pieces.map (Delta.arguments calls.length)).foldl Delta.apply a =
      { a with calls := calls ++ [(id, name, args ++ String.join pieces)] } := by
  induction pieces generalizing a args with
  | nil =>
    rw [String.join_nil, String.append_empty, ← h]
    rfl
  | cons piece pieces ih =>
    rw [List.map_cons, List.foldl_cons, Delta.apply_arguments h hlt, ih rfl, String.join_cons,
      ← String.append_assoc]

theorem fold_tool {a : Assembled} (hlt : a.calls.length < 2 ^ 64) (t : Tool) :
    (Streamed.blockDeltas a.calls.length (.tool t)).foldl Delta.apply a =
      { a with calls := a.calls ++ [t.streamed] } := by
  show (t.pieces.map (Delta.arguments a.calls.length)).foldl Delta.apply
    ((Delta.call a.calls.length (.string t.id) (.string t.name) "").apply a) = _
  rw [Delta.apply_call rfl hlt, fold_arguments rfl hlt, nonEmptyStr_getD, nonEmptyStr_getD,
    String.empty_append]
  rfl

namespace Streamed

theorem texts_text (pieces : List String) (blocks : List Streamed) :
    texts (text pieces :: blocks) = String.join pieces ++ texts blocks := String.join_cons

theorem texts_tool (t : Tool) (blocks : List Streamed) : texts (tool t :: blocks) = texts blocks :=
  String.join_cons.trans String.empty_append

theorem texts_other (blocks : List Streamed) : texts (other :: blocks) = texts blocks :=
  String.join_cons.trans String.empty_append

theorem tools_cons (block : Streamed) (blocks : List Streamed) :
    tools (block :: blocks) = tools [block] ++ tools blocks :=
  @List.filterMap_append _ _ [block] blocks _

/-- What blocks are reassembled to, while their calls can be numbered. -/
theorem fold_deltas {blocks : List Streamed} {a : Assembled}
    (h : a.calls.length + (tools blocks).length ≤ 2 ^ 64) :
    (deltas a.calls.length blocks).foldl Delta.apply a =
      { a with
        content := a.content ++ texts blocks
        calls := a.calls ++ (tools blocks).map Tool.streamed } := by
  induction blocks generalizing a with
  | nil => simp [deltas, texts, tools]
  | cons block blocks ih =>
    unfold deltas
    rw [List.foldl_append]
    cases block with
    | text pieces =>
      have hrest := ih (a := { a with content := a.content ++ String.join pieces }) h
      show (deltas a.calls.length blocks).foldl Delta.apply
        ((pieces.map Delta.content).foldl Delta.apply a) = _
      rw [fold_content, hrest]
      show _ = ({ a with content := _, calls := _ } : Assembled)
      rw [texts_text, String.append_assoc]
      rfl
    | tool t =>
      have hcount : a.calls.length + ((tools blocks).length + 1) ≤ 2 ^ 64 := h
      have hlength : (a.calls ++ [t.streamed]).length = a.calls.length + 1 := List.length_append
      have hrest := ih (a := { a with calls := a.calls ++ [t.streamed] }) (by
        show (a.calls ++ [t.streamed]).length + _ ≤ _
        omega)
      rw [fold_tool (by omega)]
      rw [hlength] at hrest
      refine hrest.trans ?_
      rw [List.append_assoc]
      show ({ a with content := _, calls := _ } : Assembled) = { a with content := _, calls := _ }
      rw [texts_tool]
      rfl
    | other =>
      refine (ih h).trans ?_
      show ({ a with content := _, calls := _ } : Assembled) = { a with content := _, calls := _ }
      rw [texts_other]
      rfl

/-- What a message of blocks is reassembled to. -/
theorem fold_message {blocks : List Streamed} (h : (tools blocks).length ≤ 2 ^ 64)
    (finish : String) {usage : Value} (husage : usage.isObject = true) :
    ([Delta.role] ++ (deltas 0 blocks ++ [Delta.finish finish usage])).foldl Delta.apply
        Aggregate.init.toAssembled =
      ⟨texts blocks, (tools blocks).map Tool.streamed, finish, some usage⟩ := by
  have hfold := @fold_deltas blocks Aggregate.init.toAssembled (by
    show 0 + (tools blocks).length ≤ 2 ^ 64
    omega)
  rw [List.foldl_append, List.foldl_append]
  show (Delta.finish finish usage).apply ((deltas Aggregate.init.calls.length blocks).foldl
    Delta.apply Aggregate.init.toAssembled) = _
  rw [hfold]
  show Assembled.mk ("" ++ texts blocks) ([] ++ _) finish (if usage.isObject then some usage else none) = _
  rw [if_pos husage, String.empty_append, List.nil_append]

/-- A tool's input is the same on both sides where its text is one. -/
theorem parsed_iff {tools : List Tool} (h : ∀ t ∈ tools, t.WF) :
    (tools.map fun t => Call.parsed ⟨.string t.id, .string t.name, .string t.text⟩) =
        tools.map (fun t => t.whole.parsed) ↔ ∀ t ∈ tools, t.text ≠ "" := by
  rw [List.map_inj_left]
  refine forall₂_congr fun t ht => ?_
  have hwhole : t.whole.parsed = (.string t.id, .string t.name, some t.input) := by
    show (_, _, fromStr (printText t.input)) = _
    rw [Tool.fromStr_input (h t ht)]
    rfl
  rw [hwhole]
  show (Value.string t.id, Value.string t.name, fromStr t.text) = _ ↔ _
  rcases h t ht with hparsed | ⟨hempty, -⟩
  · rw [hparsed]
    constructor
    · intro _ hempty
      rw [hempty] at hparsed
      cases hparsed
    · exact fun _ => rfl
  · rw [hempty]
    constructor
    · intro heq
      cases congrArg (·.2.2) heq
    · exact fun hne => absurd rfl hne

theorem content_iff {calls calls' : Prop} [Decidable calls] [Decidable calls'] (h : calls ↔ ¬ calls')
    (text text' : String) :
    (if text ≠ "" ∨ calls then Value.string text else .null) =
        (if text' = "" ∧ calls' then .null else .string text') ↔ text = text' := by
  by_cases hc : calls' <;> by_cases ht : text = "" <;> by_cases ht' : text' = "" <;>
    simp [h, hc, ht, ht']

/-- A reassembled answer against a whole one with the same calls. -/
theorem same_iff {agg : Aggregate} {calls : List Tool} {text text' finish finish' : String}
    {usage usage' : Value}
    (hagg : agg.toAssembled = ⟨text, calls.map Tool.streamed, finish, some usage⟩)
    (h : ∀ t ∈ calls, t.WF) (id model : Value) :
    (answer agg.completion).Same (answer (openAiCompletion id model
        (answerMessage text' (calls.map Tool.value)) finish' usage')) ↔
      text = text' ∧ (∀ t ∈ calls, t.text ≠ "") ∧ finish = finish' ∧ usage = usage' := by
  have hstream : answer agg.completion =
      { content := if text ≠ "" ∨ calls.map Tool.streamed = [] then .string text else .null
        calls := calls.map fun t => ⟨.string t.id, .string t.name, .string t.text⟩
        finish := .string finish
        usage := usage } := by
    rw [answer_completion, hagg, List.map_map]
    rfl
  have hwhole : answer (openAiCompletion id model (answerMessage text' (calls.map Tool.value))
        finish' usage') =
      { content := if text' = "" ∧ calls.map Tool.value ≠ [] then .null else .string text'
        calls := calls.map Tool.whole
        finish := .string finish'
        usage := usage' } := by
    rw [answer_openAiCompletion, List.map_map]
    exact congrArg (fun cs => Answer.mk _ cs _ _) (List.map_congr_left fun t _ => t.callOf_value)
  have hnil : calls.map Tool.streamed = [] ↔ ¬ calls.map Tool.value ≠ [] := by simp
  rw [hstream, hwhole, ← content_iff hnil text text', ← parsed_iff h,
    ← Value.string.injEq finish finish']
  unfold Answer.Same
  rw [List.map_map, List.map_map]
  rfl

/-- More calls than indices are not reassembled. -/
theorem not_same_of_lt {agg : Aggregate} (hagg : agg.calls.length ≤ 2 ^ 64) {calls : List Tool}
    (hlt : 2 ^ 64 < calls.length) (id model usage : Value) (text finish : String) :
    ¬ (answer agg.completion).Same (answer (openAiCompletion id model
        (answerMessage text (calls.map Tool.value)) finish usage)) := by
  rintro ⟨-, hcalls, -⟩
  have hlength := congrArg List.length hcalls
  rw [answer_completion, answer_openAiCompletion] at hlength
  simp only [List.length_map] at hlength
  omega

end Streamed

end RapidRouter.Providers
