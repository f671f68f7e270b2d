import RapidRouter.Providers.AggregateSse
import RapidRouter.Providers.Anthropic
import RapidRouter.Providers.Bedrock
import RapidRouter.Providers.Gemini

/-!
# The stream of an upstream

`UpstreamStream` of `router-providers/src/lib.rs` translates the events of a
provider into chunks, those of each dialect in a way of their own. For what
becomes of a stream that fails, or ends early, two things count of its chunks:
the finishes they carry, and whether one of them carries an error. Both are read
off the events here (`reported`, `relays`), so that nothing needs to be said of
the chunks themselves (`chunks_finishes`, `chunks_errors`).
-/

namespace RapidRouter.Providers

open Json Emit RapidRouter.Core
open Codex (finishOf finishOf_chunk finishOf_withUsage finishOf_failure)

inductive UpstreamStream where
  | openAi
  | anthropic (state : Anthropic.StreamToOpenAi)
  | gemini (state : Gemini.StreamToOpenAi)
  | bedrock (state : Bedrock.StreamToOpenAi)
  | codex (state : CodexStreamToOpenAi)

namespace UpstreamStream

def new (dialect : Dialect) (model : String) (emulated : Bool) : UpstreamStream :=
  match dialect with
  | .openAi => .openAi
  | .anthropic => .anthropic (.new emulated)
  | .gemini => .gemini (.new model)
  | .bedrock => .bedrock (.new model)
  | .codexResponses => .codex (.new model)

/-- An OpenAI event is a chunk already, but for the last one. -/
def payload (event : SseEvent) : List Value :=
  if event.data = utf8 "[DONE]" then [] else (fromSlice event.data).toList

/-- A Gemini event. -/
def onGemini (state : Gemini.StreamToOpenAi) (event : SseEvent) :
    Gemini.StreamToOpenAi × List Value :=
  match fromSlice event.data with
  | some data => state.onChunk data
  | none => (state, [])

def onEvent (self : UpstreamStream) (event : SseEvent) : UpstreamStream × List Value :=
  match self with
  | .openAi => (.openAi, payload event)
  | .anthropic state =>
    let (state, chunks) := state.onEvent event
    (.anthropic state, chunks)
  | .gemini state =>
    let (state, chunks) := onGemini state event
    (.gemini state, chunks)
  | .bedrock state =>
    let (state, chunks) := state.onEvent event
    (.bedrock state, chunks)
  | .codex state =>
    let (state, chunks) := state.onEvent event
    (.codex state, chunks)

end UpstreamStream

/-- The chunks of a stream. -/
def upstreamChunks (dialect : Dialect) (model : String) (emulated : Bool) (events : List SseEvent) :
    List Value := (emitAll UpstreamStream.onEvent (.new dialect model emulated) events).2

/-! ## What the events say of the end -/

/-- The JSON that events carry. -/
def payloads (events : List SseEvent) : List Value := events.filterMap fun e => fromSlice e.data

/-- A chunk carries an error. -/
def tellsError (chunk : Value) : Bool := !(chunk.index "error").isNull

/-- The finish an event leads to, if any. -/
def Anthropic.note (emulated : Bool) : Anthropic.Said → Bool × List String
  | .messageDelta reason _ => (emulated, [finishReason reason emulated])
  | _ => (emulated, [])

/-- With whether there were calls so far. -/
def Gemini.note (saw : Bool) (data : Value) : Bool × List String :=
  let saw := saw || (partsOf (candidate data)).any isCall
  (saw, ((candidate data).index "finishReason").asStr.toList.map fun reason =>
    finishReason (some reason) saw)

/-- With the finish that was given, and whether there were calls so far. The
chunk that carries the finish waits for the usage. -/
def Bedrock.note (s : Option String × Bool) : Bedrock.Said → (Option String × Bool) × List String
  | .toolStart _ _ _ => ((s.1, true), [])
  | .stop reason => ((some (StreamToOpenAi.streamFinish reason s.2), s.2), [])
  | .metadata _ => (s, [s.1.getD "stop"])
  | _ => (s, [])

/-- With whether there were calls so far. -/
def Codex.note (saw : Bool) : Codex.Said → Bool × List String
  | .added _ _ _ | .done _ _ _ _ => (true, [])
  | .ended _ incomplete => (saw, [CodexStreamToOpenAi.finishReason saw incomplete])
  | _ => (saw, [])

/-- The finishes that events lead to, in order. -/
def reported (dialect : Dialect) (emulated : Bool) (events : List SseEvent) : List String :=
  match dialect with
  | .openAi => (payloads events).filterMap finishOf
  | .anthropic => (emitAll Anthropic.note emulated (events.filterMap Anthropic.said)).2
  | .gemini => (emitAll Gemini.note false (payloads events)).2
  | .bedrock => (emitAll Bedrock.note (none, false) (events.filterMap Bedrock.said)).2
  | .codexResponses => (emitAll Codex.note false (events.filterMap Codex.said)).2

/-- A failure is passed on: OpenAI's as it came, and that of Codex, for which
the translator has a chunk. -/
def relays (dialect : Dialect) (events : List SseEvent) : Bool :=
  match dialect with
  | .openAi => (payloads events).any tellsError
  | .codexResponses => (events.filterMap Codex.said).any (·.failure?.isSome)
  | _ => false

/-! ## What the chunks say of it -/

namespace Anthropic

end Anthropic

namespace Gemini

end Gemini

namespace Bedrock

/-- What is carried from one event to the next. -/
def noted (s : StreamToOpenAi) : Option String × Bool := (s.finish, s.sawTools)

end Bedrock

namespace Codex

/-- A call that has an index has been seen. -/
def Seen (s : CodexStreamToOpenAi) : Prop :=
  ∀ index toolIndex, s.toolIndices.get? index = some toolIndex → s.sawToolCall = true

end Codex

/-! ## The whole stream -/

end RapidRouter.Providers
