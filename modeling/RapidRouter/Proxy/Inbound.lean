import RapidRouter.Core.Probe
import RapidRouter.Core.Router

/-!
# Inbound chat requests

`InboundChat` of `router-server/src/proxy.rs`: what is kept of a request
body, and the body a same-dialect target is sent, which is the caller's with
the model replaced.

Three readers look at an OpenAI body. The probe scans it; when it declines, a
two-field deserialiser accepts it; and when the model has to be replaced in a
body without a span, the whole of it is parsed again, and not getting an
object out of that is a panic (`none` in `passthroughBody`). The second
reader is the lenient one: it takes a sequence for the struct, and what it
ignores it does not materialise. `passthrough_iff` says which of the bodies
it lets in the third one refuses.

`serde_json`'s error texts are a parameter.
-/

namespace RapidRouter.Proxy

open RapidRouter.Core Json

/-- The two fields `from_openai` deserialises. -/
structure Minimal where
  model : String
  stream : Bool
  deriving DecidableEq

namespace Minimal

def readString : Raw → Option String
  | .string s => decodeString s
  | _ => none

def readBool : Raw → Option Bool
  | .bool b => some b
  | _ => none

/-- The fields seen so far; a second one of a name is an error, and a field
of another name is ignored. -/
def visitMap (model : Option String) (stream : Option Bool) :
    List (Bytes × Raw) → Option Minimal
  | [] => model.map fun m => ⟨m, stream.getD false⟩
  | (k, v) :: rest => do
    let key ← decodeString k
    if key = "model" then
      if model.isSome then none else visitMap (some (← readString v)) stream rest
    else if key = "stream" then
      if stream.isSome then none else visitMap model (some (← readBool v)) rest
    else visitMap model stream rest

/-- A sequence is read field by field; only `stream` may be missing. -/
def visitSeq : List Raw → Option Minimal
  | [m] => do return ⟨← readString m, false⟩
  | [m, s] => do return ⟨← readString m, ← readBool s⟩
  | _ => none

/-- `from_slice::<Minimal>`. -/
def fromSlice (body : Bytes) : Option Minimal :=
  match parse body with
  | some (.object members) => visitMap none none members
  | some (.array items) => visitSeq items
  | _ => none

end Minimal

/-- A parsed request in the dialect it arrived in. -/
inductive InboundChat where
  | openAi (body : Bytes) (span : Option (Nat × Nat)) (model : String) (stream : Bool)
  | anthropic (value : Value) (model : String) (stream : Bool)
  | gemini (value : Value) (model : String) (stream : Bool)

namespace InboundChat

variable (serdeError : Bytes → String)

/-- `from_openai`. -/
def fromOpenai (body : Bytes) : Except GatewayError InboundChat :=
  match probe body with
  | some p => .ok (.openAi body (some p.modelSpan) p.model (p.stream = some true))
  | none =>
    match Minimal.fromSlice body with
    | some m => .ok (.openAi body none m.model m.stream)
    | none =>
      .error (GatewayError.new .invalidRequest
        ("request body is not a valid request object: " ++ serdeError body))

def parseBody (body : Bytes) : Except GatewayError Value :=
  match Json.fromSlice body with
  | some value => .ok value
  | none =>
    .error (GatewayError.new .invalidRequest ("invalid request body: " ++ serdeError body))

/-- `from_anthropic`. -/
def fromAnthropic (body : Bytes) : Except GatewayError InboundChat := do
  let value ← parseBody serdeError body
  match (value.index "model").asStr with
  | some model =>
    .ok (.anthropic value model (match value.index "stream" with | .bool b => b | _ => false))
  | none => .error ((GatewayError.new .invalidRequest "`model` is required").withParam "model")

/-- `from_gemini`; model and stream come from the URL. -/
def fromGemini (body : Bytes) (model : String) (stream : Bool) :
    Except GatewayError InboundChat := do
  let value ← parseBody serdeError body
  return .gemini value model stream

/-- `rewrite_model_value`; `none` is a panic. -/
def rewriteModelValue (body : Bytes) (model : String) : Option Bytes := do
  let value ← Json.fromSlice body
  let value ← value.setIndex "model" (.string model)
  return value.print

/-- `passthrough_body`; `none` is a panic. -/
def passthroughBody (upstreamModel : String) : InboundChat → Option Bytes
  | openAi body (some span) _ _ => spliceModel body span upstreamModel
  | openAi body none _ _ => rewriteModelValue body upstreamModel
  | anthropic value _ _ => do
    let value ← value.setIndex "model" (.string upstreamModel)
    return value.print
  -- Gemini carries the model in the URL; the body is untouched.
  | gemini value _ _ => some value.print

/-! ## Which accepted bodies can be rewritten -/

theorem rewriteModelValue_array {body : Bytes} {items : List Raw}
    (h : parse body = some (.array items)) (model : String) :
    rewriteModelValue body model = none := by
  unfold rewriteModelValue Json.fromSlice
  rw [h, Option.bind_some]
  unfold Raw.toValue
  split
  · rfl
  · cases Raw.toItems (depthLimit - 1) items <;> rfl

theorem isSome_rewriteModelValue_object {body : Bytes} {members : List (Bytes × Raw)}
    (h : parse body = some (.object members)) (model : String) :
    (rewriteModelValue body model).isSome = true ↔
      (Raw.object members).depth < depthLimit ∧ (Raw.object members).numbersInRange = true ∧
        (Raw.object members).stringsDecode = true := by
  rw [← Raw.toValue_isSome (by decide)]
  unfold rewriteModelValue Json.fromSlice
  rw [h, Option.bind_some]
  unfold Raw.toValue
  split
  · rfl
  · cases Raw.toMembers (depthLimit - 1) [] members <;> rfl

/-- What the lenient reader takes is an object or a sequence. -/
theorem Minimal.parse_of_fromSlice {body : Bytes} {m : Minimal}
    (h : Minimal.fromSlice body = some m) :
    (∃ members, parse body = some (.object members)) ∨ ∃ items, parse body = some (.array items) := by
  unfold Minimal.fromSlice at h
  split at h
  next members hp => exact Or.inl ⟨members, hp⟩
  next items hp => exact Or.inr ⟨items, hp⟩
  · cases h

/-- An accepted body can be rewritten exactly when the probe took it, or it
is an object that is nowhere nested too deep, with every number in range and
every string text. -/
theorem passthrough_iff {body : Bytes} {inbound : InboundChat}
    (h : fromOpenai serdeError body = .ok inbound) :
    (∀ upstreamModel, (inbound.passthroughBody upstreamModel).isSome = true) ↔
      (probe body).isSome = true ∨
        ∃ members, parse body = some (.object members) ∧
          (Raw.object members).depth < depthLimit ∧
          (Raw.object members).numbersInRange = true ∧
          (Raw.object members).stringsDecode = true := by
  unfold fromOpenai at h
  cases hp : probe body with
  | some p =>
    rw [hp] at h
    cases h
    refine iff_of_true (fun upstreamModel => ?_) (Or.inl rfl)
    show (spliceModel body p.modelSpan upstreamModel).isSome = true
    unfold spliceModel
    rw [if_pos (probe_span_le hp)]
    rfl
  | none =>
    rw [hp] at h
    cases hm : Minimal.fromSlice body with
    | none =>
      rw [hm] at h
      cases h
    | some m =>
      rw [hm] at h
      cases h
      rcases Minimal.parse_of_fromSlice hm with ⟨members, hparse⟩ | ⟨items, hparse⟩
      · constructor
        · intro hall
          exact Or.inr ⟨members, hparse,
            (isSome_rewriteModelValue_object hparse "").mp (hall "")⟩
        · intro hcases upstreamModel
          rcases hcases with hnone | ⟨members', hparse', hfits⟩
          · cases hnone
          · rw [hparse] at hparse'
            cases hparse'
            exact (isSome_rewriteModelValue_object hparse upstreamModel).mpr hfits
      · constructor
        · intro hall
          have hsome : (rewriteModelValue body "").isSome = true := hall ""
          rw [rewriteModelValue_array hparse] at hsome
          cases hsome
        · intro hcases
          rcases hcases with hnone | ⟨members, hparse', _⟩
          · cases hnone
          · rw [hparse] at hparse'
            cases hparse'

/-- `model` spelled with an escape, which the probe does not read. -/
def escapedKeyBody : Bytes := utf8 "\x7b\"\\u006dodel\":\"m\"\x7d"

/-- The slow path rewrites it. -/
theorem passthrough_iff_escaped_key :
    (∀ upstreamModel, ((openAi escapedKeyBody none "m" false).passthroughBody
      upstreamModel).isSome = true) ↔
      (probe escapedKeyBody).isSome = true ∨
        ∃ members, parse escapedKeyBody = some (.object members) ∧
          (Raw.object members).depth < depthLimit ∧
          (Raw.object members).numbersInRange = true ∧
          (Raw.object members).stringsDecode = true := by
  have hprobe : probe escapedKeyBody = none := by decide +kernel
  refine passthrough_iff (fun _ => "") ?_
  unfold fromOpenai
  rw [hprobe]
  rfl

/-- A one-element sequence is accepted as a request for the model it holds,
and replacing that model panics. -/
theorem sequence_panics :
    ∃ inbound, fromOpenai (fun _ => "") (utf8 "[\"gpt-4o\"]") = .ok inbound ∧
      inbound.passthroughBody "gpt-4o" = none :=
  ⟨_, rfl, rfl⟩

/-- An accepted Anthropic body can always be rewritten. -/
theorem passthrough_anthropic {body : Bytes} {inbound : InboundChat}
    (h : fromAnthropic serdeError body = .ok inbound) (upstreamModel : String) :
    (inbound.passthroughBody upstreamModel).isSome = true := by
  unfold fromAnthropic parseBody at h
  cases hv : Json.fromSlice body with
  | none =>
    rw [hv] at h
    cases h
  | some value =>
    rw [hv] at h
    cases value with
    | object members =>
      simp only [bind, Except.bind] at h
      split at h
      · cases h
        rfl
      · cases h
    | _ => cases h

/-- An accepted Gemini body is sent as it is. -/
theorem passthrough_gemini {body : Bytes} {model : String} {stream : Bool} {inbound : InboundChat}
    (h : fromGemini serdeError body model stream = .ok inbound) (upstreamModel : String) :
    ∃ value, Json.fromSlice body = some value ∧
      inbound.passthroughBody upstreamModel = some value.print := by
  unfold fromGemini parseBody at h
  cases hv : Json.fromSlice body with
  | none =>
    rw [hv] at h
    cases h
  | some value =>
    rw [hv] at h
    cases h
    exact ⟨value, rfl, rfl⟩

end InboundChat

end RapidRouter.Proxy
