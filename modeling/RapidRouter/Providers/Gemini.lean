import RapidRouter.Providers.Aggregate

/-!
# Gemini, whole and in chunks

`Gemini.responseToOpenAi` translates a whole answer and `Gemini.StreamToOpenAi`
the chunks of a stream. Gemini gives its calls no ids: the first numbers a call
by its place among the parts, the second by the calls before it. So the two
agree exactly when the calls come first (`gemini_agrees`).
-/

namespace RapidRouter.Providers

open Json Emit

namespace Gemini

def candidate (body : Value) : Value := (body.index "candidates").at_ 0

def partsOf (candidate : Value) : List Value :=
  elements ((candidate.index "content").index "parts")

def callId (index : Nat) : Value := .string ("call_" ++ toString index)

def callArguments (call : Value) : String := printText (call.index "args")

/-- The finish of an answer, which calls decide when there are any. -/
def finishReason (reason : Option String) (hasTools : Bool) : String :=
  if hasTools then "tool_calls"
  else
    match reason with
    | some "MAX_TOKENS" => "length"
    | some "SAFETY" | some "PROHIBITED_CONTENT" => "content_filter"
    | _ => "stop"

def usage (body : Value) : Value :=
  let usage := body.index "usageMetadata"
  .ofMembers [("prompt_tokens", .ofU64 ((usage.index "promptTokenCount").asU64.getD 0)),
    ("completion_tokens", .ofU64 ((usage.index "candidatesTokenCount").asU64.getD 0)),
    ("total_tokens", .ofU64 ((usage.index "totalTokenCount").asU64.getD 0))]

def responseId (body : Value) : String :=
  "chatcmpl-" ++ (body.index "responseId").asStr.getD "gemini"

def modelOf (body : Value) (model : String) : String := (body.index "modelVersion").asStr.getD model

/-! ## A whole answer -/

/-- The texts of parts, one after the other. -/
def textOf (parts : List Value) : String :=
  parts.foldl (fun text part => text ++ (part.index "text").asStr.getD "") ""

def callAt (part : Value × Nat) : Option Value :=
  (part.1.get? "functionCall").map fun call =>
    functionCall (callId part.2) (call.index "name") (.string (callArguments call))

/-- The calls among parts, each under its place. -/
def toolCalls (parts : List Value) : List Value := parts.zipIdx.filterMap callAt

/-- `candidate_to_message`. -/
def candidateToMessage (candidate : Value) : Value × Bool :=
  let text := textOf (partsOf candidate)
  let calls := toolCalls (partsOf candidate)
  (answerMessage text calls, !calls.isEmpty)

/-- `response_to_openai`. -/
def responseToOpenAi (body : Value) (model : String) : Value :=
  let (message, hasTools) := candidateToMessage (candidate body)
  openAiCompletion (.string (responseId body)) (.string (modelOf body model)) message
    (finishReason ((candidate body).index "finishReason").asStr hasTools) (usage body)

/-! ## A stream -/

structure StreamToOpenAi where
  roleSent : Bool
  toolCount : Nat
  sawTools : Bool
  model : String

namespace StreamToOpenAi

def new (model : String) : StreamToOpenAi := ⟨false, 0, false, model⟩

def chunk (self : StreamToOpenAi) (data delta : Value) (finish : Option String) : Value :=
  openAiChunk (responseId data) (modelOf data self.model) delta finish

/-- A part's text, then its call. -/
def onPart (data : Value) (self : StreamToOpenAi) (part : Value) : StreamToOpenAi × List Value :=
  let text := (nonEmptyStr (part.index "text")).toList.map fun text =>
    self.chunk data (contentDelta (.string text)) none
  match part.get? "functionCall" with
  | some call =>
    let index := self.toolCount
    let self := { self with toolCount := (self.toolCount + 1) % 2 ^ 64, sawTools := true }
    (self, text ++ [self.chunk data
      (callDelta index (callId index) (call.index "name") (callArguments call)) none])
  | none => (self, text)

/-- The last chunk, with the finish and the usage. -/
def finishChunk (self : StreamToOpenAi) (data : Value) (reason : String) : Value :=
  withUsage (self.chunk data (.ofMembers []) (some (finishReason (some reason) self.sawTools)))
    (usage data)

def onChunk (self : StreamToOpenAi) (data : Value) : StreamToOpenAi × List Value :=
  let role := if self.roleSent then [] else [self.chunk data roleDelta none]
  let (self, chunks) := emitAll (onPart data) { self with roleSent := true }
    (partsOf (candidate data))
  let finish := ((candidate data).index "finishReason").asStr.toList.map (self.finishChunk data)
  (self, role ++ chunks ++ finish)

end StreamToOpenAi

/-! ## A stream that delivers an answer -/

/-- A part that is a text, a thought or a call, or of another kind. -/
def IsPart (part : Value) : Prop :=
  ∀ call, part.get? "functionCall" = some call → ∃ name, call.index "name" = .string name

def isCall (part : Value) : Bool := (part.get? "functionCall").isSome

/-- How a part can be delivered: as it is, or a text in pieces. -/
inductive Cut (part : Value) : List Value → Prop where
  | whole : Cut part [part]
  | pieces (pieces : List Value) (hpart : isCall part = false)
      (hpieces : ∀ piece ∈ pieces, isCall piece = false)
      (htext : textOf pieces = (part.index "text").asStr.getD "") : Cut part pieces

/-- Chunks whose parts, in order, are those of the answer, and the last of which
has its finish and its usage. -/
structure Delivers (body : Value) (chunks : List Value) : Prop where
  parts : ∃ pieces, List.Forall₂ Cut (partsOf (candidate body)) pieces ∧
    chunks.flatMap (fun data => partsOf (candidate data)) = pieces.flatten
  last : ∃ front last, chunks = front ++ [last] ∧
    (∀ data ∈ front, ((candidate data).index "finishReason").asStr = none) ∧
    (candidate last).index "finishReason" = (candidate body).index "finishReason" ∧
    last.index "usageMetadata" = body.index "usageMetadata"

/-- No part that is not a call comes before one that is. -/
def CallsFirst (parts : List Value) : Prop := ∀ part ∈ parts.dropWhile isCall, isCall part = false

instance (parts : List Value) : Decidable (CallsFirst parts) :=
  inferInstanceAs (Decidable (∀ part ∈ parts.dropWhile isCall, isCall part = false))

/-! ## What the stream is reassembled to -/

def callsOf (parts : List Value) : List Value := parts.filterMap (·.get? "functionCall")

def nameOf (call : Value) : String := (nonEmptyStr (call.index "name")).getD ""

/-- A call as it is reassembled, under its number among the calls. -/
def entry (call : Value × Nat) : String × String × String :=
  ("call_" ++ toString call.2, nameOf call.1, callArguments call.1)

theorem textOf_append (parts parts' : List Value) :
    textOf (parts ++ parts') = textOf parts ++ textOf parts' := by
  have hstart (text : String) (ps : List Value) :
      ps.foldl (fun text part => text ++ (part.index "text").asStr.getD "") text =
        text ++ textOf ps := by
    unfold textOf
    induction ps generalizing text with
    | nil => simp
    | cons p ps ih =>
      rw [List.foldl_cons, List.foldl_cons, ih, ih ("" ++ _), String.empty_append,
        String.append_assoc]
  unfold textOf
  rw [List.foldl_append]
  exact hstart _ parts'

theorem callsOf_append (parts parts' : List Value) :
    callsOf (parts ++ parts') = callsOf parts ++ callsOf parts' := List.filterMap_append

/-- Stream and reassembled answer after these parts, none of which finished it. -/
structure Tracks (stream : StreamToOpenAi) (a : Assembled) (parts : List Value) : Prop where
  content : a.content = textOf parts
  calls : a.calls = (callsOf parts).zipIdx.map entry
  count : stream.toolCount = (callsOf parts).length % 2 ^ 64
  saw : stream.sawTools = !(callsOf parts).isEmpty
  finish : a.finish = "stop"
  usage : a.usage = none

/-- As long as the calls can be numbered. -/
def Follows (self : StreamToOpenAi) (agg : Aggregate) (parts : List Value) : Prop :=
  (callsOf parts).length ≤ 2 ^ 64 → Tracks self agg.toAssembled parts

theorem text_fold (self : StreamToOpenAi) (data part : Value) (agg : Aggregate) :
    (((nonEmptyStr (part.index "text")).toList.map fun text =>
      self.chunk data (contentDelta (.string text)) none).foldl Aggregate.onChunk agg).toAssembled =
      { agg.toAssembled with content := agg.content ++ (part.index "text").asStr.getD "" } := by
  rw [← nonEmptyStr_getD]
  cases nonEmptyStr (part.index "text") with
  | none => simp
  | some text =>
    exact Aggregate.onChunk_delta agg (responseId data) (modelOf data self.model) (.content text)

theorem call_fold (self : StreamToOpenAi) (data call : Value) (agg : Aggregate) {n : Nat}
    (hn : n = agg.calls.length) (hlt : n < 2 ^ 64) :
    (agg.onChunk (self.chunk data
      (callDelta n (callId n) (call.index "name") (callArguments call)) none)).toAssembled =
      { agg.toAssembled with calls := agg.calls ++ [entry (call, n)] } := by
  have hstep := Aggregate.onChunk_delta agg (responseId data) (modelOf data self.model)
    (.call n (callId n) (call.index "name") (callArguments call))
  rw [Delta.apply_call hn hlt, nonEmptyStr_getD (callId n)] at hstep
  exact hstep

theorem onPart_follows (data : Value) (self : StreamToOpenAi) (agg : Aggregate) (parts : List Value)
    (part : Value) (h : Follows self agg parts) :
    Follows (self.onPart data part).1 ((self.onPart data part).2.foldl Aggregate.onChunk agg)
      (parts ++ [part]) := by
  intro hlength
  rw [callsOf_append, List.length_append] at hlength
  have htracks := h (by omega)
  have htext := text_fold self data part agg
  have hcontent : agg.content ++ (part.index "text").asStr.getD "" = textOf (parts ++ [part]) := by
    rw [textOf_append, htracks.content]
    simp [textOf]
  unfold StreamToOpenAi.onPart
  cases hcall : part.get? "functionCall" with
  | none =>
    have hnone : callsOf (parts ++ [part]) = callsOf parts := by
      rw [callsOf_append]
      simp [callsOf, hcall]
    exact {
      content := (congrArg Assembled.content htext).trans hcontent
      calls := by
        rw [hnone]
        exact (congrArg Assembled.calls htext).trans htracks.calls
      count := hnone ▸ htracks.count
      saw := hnone ▸ htracks.saw
      finish := (congrArg Assembled.finish htext).trans htracks.finish
      usage := (congrArg Assembled.usage htext).trans htracks.usage }
  | some call =>
    have hsome : callsOf (parts ++ [part]) = callsOf parts ++ [call] := by
      rw [callsOf_append]
      simp [callsOf, hcall]
    have hone : (callsOf [part]).length = 1 := by simp [callsOf, hcall]
    have hcount : self.toolCount = (callsOf parts).length :=
      htracks.count.trans (Nat.mod_eq_of_lt (by omega))
    obtain ⟨agg', hagg'⟩ : ∃ agg', agg' = ((nonEmptyStr (part.index "text")).toList.map fun text =>
      self.chunk data (contentDelta (.string text)) none).foldl Aggregate.onChunk agg := ⟨_, rfl⟩
    rw [← hagg'] at htext
    have hcalls : agg'.calls = (callsOf parts).zipIdx.map entry :=
      (congrArg Assembled.calls htext).trans htracks.calls
    have hcalled := call_fold { self with toolCount := (self.toolCount + 1) % 2 ^ 64, sawTools := true }
      data call agg' (n := self.toolCount)
      (by rw [hcalls, hcount, List.length_map, List.length_zipIdx]) (by omega)
    show Tracks _ ((_ ++ [_]).foldl Aggregate.onChunk agg).toAssembled _
    rw [List.foldl_append, ← hagg']
    exact {
      content := (congrArg Assembled.content hcalled).trans
        ((congrArg Assembled.content htext).trans hcontent)
      calls := by
        refine (congrArg Assembled.calls hcalled).trans ?_
        rw [hcalls, hsome, List.zipIdx_append, List.map_append, hcount, Nat.zero_add]
        rfl
      count := by
        show (self.toolCount + 1) % 2 ^ 64 = _
        rw [hsome, hcount, List.length_append]
        rfl
      saw := by
        rw [hsome]
        simp
      finish := (congrArg Assembled.finish hcalled).trans
        ((congrArg Assembled.finish htext).trans htracks.finish)
      usage := (congrArg Assembled.usage hcalled).trans
        ((congrArg Assembled.usage htext).trans htracks.usage) }

/-- The parts of a chunk, after its role. -/
theorem parts_follow (data : Value) (self : StreamToOpenAi) (agg : Aggregate) (parts : List Value)
    (h : Follows self agg parts) :
    let run := emitAll (StreamToOpenAi.onPart data) { self with roleSent := true }
      (partsOf (candidate data))
    Follows run.1 (((if self.roleSent then [] else [self.chunk data roleDelta none]) ++
      run.2).foldl Aggregate.onChunk agg) (parts ++ partsOf (candidate data)) := by
  intro run
  obtain ⟨agg', hagg'⟩ : ∃ agg', agg' = (if self.roleSent then [] else
      [self.chunk data roleDelta none]).foldl Aggregate.onChunk agg := ⟨_, rfl⟩
  have hrole : agg'.toAssembled = agg.toAssembled := by
    rw [hagg']
    split
    · rfl
    · exact Aggregate.onChunk_delta agg (responseId data) (modelOf data self.model) .role
  have hstart : Follows { self with roleSent := true } agg' parts := by
    intro hlength
    obtain ⟨hcontent, hcalls, hcount, hsaw, hfinish, husage⟩ := h hlength
    rw [hrole]
    exact ⟨hcontent, hcalls, hcount, hsaw, hfinish, husage⟩
  rw [List.foldl_append, ← hagg']
  exact emitAll_fold (onPart_follows data) hstart (partsOf (candidate data))

/-- A chunk that does not finish the answer. -/
theorem onChunk_follows (self : StreamToOpenAi) (agg : Aggregate) (parts : List Value) (data : Value)
    (hopen : ((candidate data).index "finishReason").asStr = none) (h : Follows self agg parts) :
    Follows (self.onChunk data).1 ((self.onChunk data).2.foldl Aggregate.onChunk agg)
      (parts ++ partsOf (candidate data)) := by
  have hparts := parts_follow data self agg parts h
  unfold StreamToOpenAi.onChunk
  rw [hopen]
  show Follows _ ((_ ++ []).foldl Aggregate.onChunk agg) _
  rw [List.append_nil]
  exact hparts

theorem front_follows {front : List Value}
    (hopen : ∀ data ∈ front, ((candidate data).index "finishReason").asStr = none)
    {self : StreamToOpenAi} {agg : Aggregate} {parts : List Value} (h : Follows self agg parts) :
    Follows (emitAll StreamToOpenAi.onChunk self front).1
      ((emitAll StreamToOpenAi.onChunk self front).2.foldl Aggregate.onChunk agg)
      (parts ++ front.flatMap fun data => partsOf (candidate data)) := by
  induction front generalizing self agg parts with
  | nil =>
    rw [List.flatMap_nil, List.append_nil]
    exact h
  | cons data front ih =>
    have hrest := ih (fun d hd => hopen d (List.mem_cons_of_mem _ hd))
      (onChunk_follows self agg parts data (hopen data List.mem_cons_self) h)
    rw [List.append_assoc] at hrest
    show Follows _ (((self.onChunk data).2 ++ _).foldl Aggregate.onChunk agg) _
    rw [List.foldl_append, List.flatMap_cons]
    exact hrest

theorem finish_fold (self : StreamToOpenAi) (data : Value) (reason : String) (agg : Aggregate) :
    (agg.onChunk (self.finishChunk data reason)).toAssembled =
      { agg.toAssembled with
        finish := finishReason (some reason) self.sawTools
        usage := some (usage data) } :=
  Aggregate.onChunk_delta agg (responseId data) (modelOf data self.model)
    (.finish (finishReason (some reason) self.sawTools) (usage data))

/-- What a whole stream is reassembled to. -/
theorem stream_assembled (model : String) {front : List Value} (last : Value)
    (hopen : ∀ data ∈ front, ((candidate data).index "finishReason").asStr = none)
    {parts : List Value}
    (hparts : (front ++ [last]).flatMap (fun data => partsOf (candidate data)) = parts)
    (hlength : (callsOf parts).length ≤ 2 ^ 64) :
    ((emitAll StreamToOpenAi.onChunk (.new model) (front ++ [last])).2.foldl
        Aggregate.onChunk .init).toAssembled =
      { content := textOf parts
        calls := (callsOf parts).zipIdx.map entry
        finish := (((candidate last).index "finishReason").asStr.map fun reason =>
          finishReason (some reason) (!(callsOf parts).isEmpty)).getD "stop"
        usage := ((candidate last).index "finishReason").asStr.map fun _ => usage last } := by
  have hinit : Follows (.new model) .init [] := fun _ => ⟨rfl, rfl, rfl, rfl, rfl, rfl⟩
  have hfront := front_follows hopen hinit
  rw [emitAll_append, List.foldl_append]
  obtain ⟨run, hrun⟩ : ∃ run, run = emitAll StreamToOpenAi.onChunk (.new model) front := ⟨_, rfl⟩
  rw [← hrun] at hfront
  rw [← hrun]
  obtain ⟨agg, hagg⟩ : ∃ agg, agg = run.2.foldl Aggregate.onChunk .init := ⟨_, rfl⟩
  rw [← hagg] at hfront
  rw [← hagg]
  have hlast := parts_follow last run.1 agg _ hfront
  rw [List.flatMap_append, List.flatMap_singleton] at hparts
  rw [List.nil_append, hparts] at hlast
  obtain ⟨hcontent, hcalls, -, hsaw, hfinish, husage⟩ := hlast hlength
  show ((((_ ++ _) ++ _) ++ []).foldl Aggregate.onChunk agg).toAssembled = _
  rw [List.append_nil, List.foldl_append]
  cases ((candidate last).index "finishReason").asStr with
  | none =>
    show Aggregate.toAssembled _ = Assembled.mk _ _ "stop" none
    rw [← hcontent, ← hcalls, ← hfinish, ← husage]
    rfl
  | some reason =>
    refine (finish_fold _ last reason _).trans ?_
    dsimp only
    rw [hcontent, hcalls, hsaw]
    rfl

/-! ## The whole answer, and the two compared -/

/-- The calls of an answer, each under its place from `i` on. -/
def placed (i : Nat) : List Value → List Call
  | [] => []
  | part :: parts =>
    ((part.get? "functionCall").toList.map fun call =>
      ⟨callId i, call.index "name", .string (callArguments call)⟩) ++ placed (i + 1) parts

/-- A reassembled call. -/
def numbered (call : Value × Nat) : Call :=
  ⟨callId call.2, .string (nameOf call.1), .string (callArguments call.1)⟩

theorem toolCalls_placed (i : Nat) (parts : List Value) :
    ((parts.zipIdx i).filterMap callAt).map callOf = placed i parts := by
  induction parts generalizing i with
  | nil => rfl
  | cons part parts ih =>
    rw [List.zipIdx_cons, List.filterMap_cons]
    unfold placed
    rw [← ih]
    cases hcall : part.get? "functionCall" with
    | none => simp [callAt, hcall]
    | some call => simp [callAt, hcall, callOf, functionCall, Value.index_ofMembers]

theorem placed_length (i : Nat) (parts : List Value) :
    (placed i parts).length = (callsOf parts).length := by
  induction parts generalizing i with
  | nil => rfl
  | cons part parts ih =>
    unfold placed
    rw [List.length_append, ih]
    unfold callsOf
    rw [List.filterMap_cons]
    cases part.get? "functionCall" with
    | none => exact Nat.zero_add _
    | some call => exact Nat.add_comm _ _

theorem toolCalls_eq_nil (parts : List Value) : toolCalls parts = [] ↔ callsOf parts = [] := by
  rw [← List.length_eq_zero_iff, ← List.length_eq_zero_iff, ← placed_length 0 parts,
    ← toolCalls_placed 0 parts, List.length_map]
  rfl

theorem answer_responseToOpenAi (body : Value) (model : String) :
    let parts := partsOf (candidate body)
    answer (responseToOpenAi body model) =
      { content := if textOf parts = "" ∧ callsOf parts ≠ [] then .null else .string (textOf parts)
        calls := placed 0 parts
        finish := .string (finishReason ((candidate body).index "finishReason").asStr
          (!(callsOf parts).isEmpty))
        usage := usage body } := by
  intro parts
  have hempty : (toolCalls parts).isEmpty = (callsOf parts).isEmpty := by
    rw [Bool.eq_iff_iff, List.isEmpty_iff, List.isEmpty_iff]
    exact toolCalls_eq_nil parts
  have hne := not_congr (toolCalls_eq_nil parts)
  have hanswer := answer_openAiCompletion (.string (responseId body))
    (.string (modelOf body model)) (textOf parts) (toolCalls parts)
    (finishReason ((candidate body).index "finishReason").asStr (!(toolCalls parts).isEmpty))
    (usage body)
  refine hanswer.trans ?_
  rw [hempty]
  simp only [ne_eq, toolCalls_eq_nil]
  rw [← toolCalls_placed 0 parts]
  rfl

theorem callId_injective {m n : Nat} (h : callId m = callId n) : m = n := by
  have htext : toString m = toString n := (String.append_right_inj _).mp (Value.string.inj h)
  have hdigits : Nat.toDigits 10 m = Nat.toDigits 10 n := by
    rw [← Nat.toList_repr, ← Nat.toList_repr]
    exact congrArg String.toList htext
  rw [← Nat.ofDigitChars_toDigits (b := 10) (n := m) (by decide) (by decide), hdigits,
    Nat.ofDigitChars_toDigits (by decide) (by decide)]

theorem callsOf_cons (part : Value) (parts : List Value) :
    callsOf (part :: parts) = (part.get? "functionCall").toList ++ callsOf parts := by
  unfold callsOf
  rw [List.filterMap_cons]
  cases part.get? "functionCall" <;> rfl

/-- Once a part that is not a call has been counted, no call has its number for a place. -/
theorem numbered_behind {n i : Nat} (h : n < i) (parts : List Value) :
    ((callsOf parts).zipIdx n).map numbered = placed i parts ↔ callsOf parts = [] := by
  induction parts generalizing i with
  | nil => exact ⟨fun _ => rfl, fun _ => rfl⟩
  | cons part parts ih =>
    rw [callsOf_cons]
    unfold placed
    cases part.get? "functionCall" with
    | none => exact ih (by omega)
    | some call =>
      constructor
      · intro heq
        have hid : callId n = callId i := congrArg Call.id (List.cons.inj heq).1
        exact absurd (callId_injective hid) (by omega)
      · intro heq
        cases heq

/-- The numbers of the calls are their places as long as there are only calls. -/
theorem numbered_iff (n : Nat) {parts : List Value} (h : ∀ part ∈ parts, IsPart part) :
    ((callsOf parts).zipIdx n).map numbered = placed n parts ↔ CallsFirst parts := by
  induction parts generalizing n with
  | nil => exact ⟨fun _ => nofun, fun _ => rfl⟩
  | cons part parts ih =>
    rw [callsOf_cons]
    unfold placed CallsFirst
    cases hcall : part.get? "functionCall" with
    | none =>
      have hpart : isCall part = false := by simp [isCall, hcall]
      rw [List.dropWhile_cons_of_neg (by simp [hpart]), List.forall_mem_cons]
      refine (numbered_behind (Nat.lt_succ_self n) parts).trans ?_
      unfold callsOf
      rw [List.filterMap_eq_nil_iff]
      simp [isCall, hcall]
    | some call =>
      rw [List.dropWhile_cons_of_pos (by simp [isCall, hcall])]
      refine Iff.trans ?_ (ih (n + 1) fun p hp => h p (List.mem_cons_of_mem _ hp))
      have hname : numbered (call, n) = ⟨callId n, call.index "name", .string (callArguments call)⟩ := by
        obtain ⟨name, hname⟩ := h part List.mem_cons_self call hcall
        unfold numbered nameOf
        rw [hname, nonEmptyStr_getD]
        rfl
      show numbered (call, n) :: _ = _ :: _ ↔ _
      rw [hname]
      exact List.cons_inj_right _

theorem Cut.same {part : Value} {pieces : List Value} (h : Cut part pieces) :
    textOf pieces = textOf [part] ∧ callsOf pieces = callsOf [part] := by
  cases h with
  | whole => exact ⟨rfl, rfl⟩
  | pieces _ hpart hpieces htext =>
    have hnone {p : Value} (hp : isCall p = false) : p.get? "functionCall" = none := by
      simpa [isCall] using hp
    refine ⟨htext.trans (String.empty_append).symm, ?_⟩
    rw [callsOf_cons, hnone hpart]
    exact List.filterMap_eq_nil_iff.mpr fun p hp => hnone (hpieces p hp)

theorem cut_same {parts : List Value} {pieces : List (List Value)}
    (h : List.Forall₂ Cut parts pieces) :
    textOf pieces.flatten = textOf parts ∧ callsOf pieces.flatten = callsOf parts := by
  induction h with
  | nil => exact ⟨rfl, rfl⟩
  | cons hcut _ ih =>
    obtain ⟨htext, hcalls⟩ := hcut.same
    rw [List.flatten_cons, textOf_append, callsOf_append, htext, hcalls, ih.1, ih.2,
      ← textOf_append, ← callsOf_append]
    exact ⟨rfl, rfl⟩

end Gemini

open Gemini

/-- A stream is reassembled to the whole answer's translation exactly when no part
comes before a call but calls, the answer has a finish, and its calls can be
numbered. -/
theorem gemini_agrees (model : String) {body : Value} {chunks : List Value}
    (h : Delivers body chunks) (hparts : ∀ part ∈ partsOf (candidate body), IsPart part) :
    answer (aggregateChunks (emitAll StreamToOpenAi.onChunk (.new model) chunks).2) =
        answer (responseToOpenAi body model) ↔
      CallsFirst (partsOf (candidate body)) ∧
        ((candidate body).index "finishReason").asStr.isSome = true ∧
        (callsOf (partsOf (candidate body))).length ≤ 2 ^ 64 := by
  obtain ⟨pieces, hcut, hpieces⟩ := h.parts
  obtain ⟨front, last, rfl, hopen, hreason, husage⟩ := h.last
  obtain ⟨htext, hcalls⟩ := cut_same hcut
  have hbounded := Aggregate.foldl_length
    (emitAll StreamToOpenAi.onChunk (.new model) (front ++ [last])).2
    (show Aggregate.init.calls.length ≤ 2 ^ 64 from Nat.zero_le _)
  have hassembled := stream_assembled model last hopen hpieces
  rw [htext, hcalls, hreason] at hassembled
  have hsame : usage last = usage body := by
    unfold usage
    rw [husage]
  unfold aggregateChunks
  rw [answer_responseToOpenAi, answer_completion]
  obtain ⟨agg, hagg⟩ : ∃ agg, agg = (emitAll StreamToOpenAi.onChunk (.new model)
    (front ++ [last])).2.foldl Aggregate.onChunk .init := ⟨_, rfl⟩
  obtain ⟨parts, hp⟩ : ∃ parts, parts = partsOf (candidate body) := ⟨_, rfl⟩
  rw [← hagg] at hbounded hassembled
  rw [← hp] at hassembled hparts
  rw [← hagg, ← hp]
  by_cases hlength : (callsOf parts).length ≤ 2 ^ 64
  · rw [hassembled hlength]
    have hnumbered : ((callsOf parts).zipIdx.map entry).map
        (fun call => (⟨.string call.1, .string call.2.1, .string call.2.2⟩ : Call)) =
          (callsOf parts).zipIdx.map numbered := List.map_map
    have hnil : (callsOf parts).zipIdx.map entry = [] ↔ callsOf parts = [] := by simp
    have hcontent : (if textOf parts ≠ "" ∨ (callsOf parts).zipIdx.map entry = [] then
        Value.string (textOf parts) else .null) =
        if textOf parts = "" ∧ callsOf parts ≠ [] then .null else .string (textOf parts) := by
      by_cases ht : textOf parts = "" <;> by_cases hc : callsOf parts = [] <;> simp [ht, hc]
    cases hr : ((candidate body).index "finishReason").asStr with
    | none =>
      constructor
      · intro heq
        cases congrArg Answer.usage heq
      · rintro ⟨-, hsome, -⟩
        cases hsome
    | some reason =>
      rw [← numbered_iff 0 hparts, ← hnumbered]
      constructor
      · intro heq
        exact ⟨congrArg Answer.calls heq, rfl, hlength⟩
      · rintro ⟨hplaced, -, -⟩
        exact Answer.mk.injEq .. ▸ ⟨hcontent, hplaced, rfl, hsame⟩
  · constructor
    · intro heq
      have hcount := congrArg List.length (congrArg Answer.calls heq)
      simp only [List.length_map, placed_length] at hcount
      exact absurd (hcount ▸ hbounded) hlength
    · rintro ⟨-, -, hle⟩
      exact absurd hle hlength

namespace Gemini

def textPart (text : String) : Value := .ofMembers [("text", .string text)]

def callPart (name : String) : Value :=
  .ofMembers [("functionCall", .ofMembers [("name", .string name), ("args", .object [])])]

/-- An answer of these parts, or a chunk with them that finishes it. -/
def finished (parts : List Value) : Value :=
  .ofMembers [("candidates", .array [.ofMembers [("content", .ofMembers [("parts", .array parts)]),
    ("finishReason", .string "STOP")]])]

def unfinished (parts : List Value) : Value :=
  .ofMembers [("candidates", .array [.ofMembers [("content", .ofMembers [("parts", .array parts)])]])]

theorem candidate_finished (parts : List Value) :
    (candidate (finished parts)).index "finishReason" = .string "STOP" ∧
      (finished parts).index "usageMetadata" = .null := by
  constructor
  · simp [candidate, finished, Value.index_ofMembers, Value.at_]
  · simp [finished, Value.index_ofMembers]

theorem partsOf_finished (parts : List Value) :
    partsOf (candidate (finished parts)) = parts ∧ partsOf (candidate (unfinished parts)) = parts := by
  constructor
  · simp [partsOf, candidate, finished, Value.index_ofMembers, Value.at_, elements, Value.asArray]
  · simp [partsOf, candidate, unfinished, Value.index_ofMembers, Value.at_, elements, Value.asArray]

theorem delivers_two (part part' : Value) :
    Delivers (finished [part, part']) [unfinished [part], finished [part']] where
  parts := by
    refine ⟨[[part], [part']], ?_, ?_⟩
    · rw [(partsOf_finished _).1]
      exact .cons .whole (.cons .whole .nil)
    · simp [partsOf_finished]
  last := ⟨[unfinished [part]], finished [part'], rfl,
    fun _ hdata => List.mem_singleton.mp hdata ▸ rfl,
    (candidate_finished _).1.trans (candidate_finished _).1.symm,
    (candidate_finished _).2.trans (candidate_finished _).2.symm⟩

theorem isPart_callPart (name : String) : IsPart (callPart name) := by
  intro call hcall
  simp only [callPart, Value.get?_ofMembers] at hcall
  cases hcall
  exact ⟨name, by simp [Value.index_ofMembers]⟩

theorem isPart_textPart (text : String) : IsPart (textPart text) := by
  intro call hcall
  simp [textPart, Value.get?_ofMembers] at hcall

end Gemini

theorem gemini_agrees_call :
    answer (aggregateChunks (emitAll StreamToOpenAi.onChunk (.new "m")
        [unfinished [callPart "f"], finished [textPart "a"]]).2) =
      answer (responseToOpenAi (finished [callPart "f", textPart "a"]) "m") :=
  (gemini_agrees "m" (delivers_two (callPart "f") (textPart "a")) (by
    intro part hpart
    rw [(partsOf_finished _).1] at hpart
    rcases List.mem_cons.mp hpart with rfl | hpart
    · exact isPart_callPart "f"
    · exact List.mem_singleton.mp hpart ▸ isPart_textPart "a")).mpr
    ⟨by decide, rfl, by decide⟩

/-- A text comes before a call: the one numbers the call 1, the other 0. -/
theorem gemini_agrees_text :
    Delivers (finished [textPart "a", callPart "f"])
        [unfinished [textPart "a"], finished [callPart "f"]] ∧
      answer (aggregateChunks (emitAll StreamToOpenAi.onChunk (.new "m")
          [unfinished [textPart "a"], finished [callPart "f"]]).2) ≠
        answer (responseToOpenAi (finished [textPart "a", callPart "f"]) "m") := by
  refine ⟨delivers_two _ _, fun heq => ?_⟩
  have hids := congrArg (fun a => a.calls.map fun call => call.id.asStr) heq
  revert hids
  decide

end RapidRouter.Providers
