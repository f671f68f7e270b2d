import RapidRouter.Providers.Parts

/-!
# The stream an Anthropic client reads

`OpenAiToAnthropicStream` writes blocks, and a client reads them by a grammar:
one message_start, blocks with consecutive indices of which one at a time is
open, deltas to the open block and of its kind, a message_delta and a
message_stop. What the renderer writes is within the grammar, with each call's
arguments in that call's own block, exactly for chunks that there are and whose
parts are orderly (`wellFormed_iff`): a piece of arguments for a call that is not
the one open is written to a block that is closed, and the stop of a stream
that never began is written without its start.
-/

namespace RapidRouter.Providers

open Json Emit

namespace Blocks

/-! ## The grammar -/

/-- An event as a client reads it. -/
inductive StreamEvent where
  | messageStart
  /-- With the id and the name, when it is a call's. -/
  | blockStart (index : Nat) (tool : Option (Value × String))
  | textDelta (index : Nat) (text : String)
  | jsonDelta (index : Nat) (fragment : String)
  | blockStop (index : Nat)
  | messageDelta
  | messageStop

def readBlock (block : Value) : Option (Option (Value × String)) :=
  match (block.index "type").asStr with
  | some "text" => some none
  | some "tool_use" => (block.index "name").asStr.map fun name => some (block.index "id", name)
  | _ => none

def readDelta (index : Nat) (delta : Value) : Option StreamEvent :=
  match (delta.index "type").asStr with
  | some "text_delta" => (delta.index "text").asStr.map (.textDelta index)
  | some "input_json_delta" => (delta.index "partial_json").asStr.map (.jsonDelta index)
  | _ => none

def readEvent (name : String) (data : Value) : Option StreamEvent :=
  match name with
  | "message_start" => some .messageStart
  | "content_block_start" =>
    (data.index "index").asU64.bind fun index =>
      (readBlock (data.index "content_block")).map (.blockStart index)
  | "content_block_delta" =>
    (data.index "index").asU64.bind fun index => readDelta index (data.index "delta")
  | "content_block_stop" => (data.index "index").asU64.map .blockStop
  | "message_delta" => some .messageDelta
  | "message_stop" => some .messageStop
  | _ => none

/-- The event's name is the type of its data. -/
def readFrame : SseFrame → Option StreamEvent
  | .event name data => if (data.index "type").asStr = some name then readEvent name data else none
  | _ => none

inductive Phase where
  | start
  /-- How many blocks there have been, and the one that is open: its index and
  whether it is a call's. -/
  | message (next : Nat) (openBlock : Option (Nat × Bool))
  | ending
  | ended
  deriving DecidableEq

def Phase.accept : Phase → StreamEvent → Option Phase
  | .start, .messageStart => some (.message 0 none)
  | .message next none, .blockStart index tool =>
    if index = next then some (.message (next + 1) (some (index, tool.isSome))) else none
  | .message next (some (b, false)), .textDelta index _ =>
    if index = b then some (.message next (some (b, false))) else none
  | .message next (some (b, true)), .jsonDelta index _ =>
    if index = b then some (.message next (some (b, true))) else none
  | .message next (some (b, _)), .blockStop index =>
    if index = b then some (.message next none) else none
  | .message _ none, .messageDelta => some .ending
  | .ending, .messageStop => some .ended
  | _, _ => none

/-! What is accepted of a block, by its index. -/

theorem accept_start (next : Nat) (tool : Option (Value × String)) :
    Phase.accept (.message next none) (.blockStart next tool) =
      some (.message (next + 1) (some (next, tool.isSome))) := if_pos rfl

theorem accept_text (next block : Nat) (text : String) :
    Phase.accept (.message next (some (block, false))) (.textDelta block text) =
      some (.message next (some (block, false))) := if_pos rfl

theorem accept_json (next block : Nat) (fragment : String) :
    Phase.accept (.message next (some (block, true))) (.jsonDelta block fragment) =
      some (.message next (some (block, true))) := if_pos rfl

theorem accept_stop (next block : Nat) (tool : Bool) :
    Phase.accept (.message next (some (block, tool))) (.blockStop block) =
      some (.message next none) := by
  cases tool <;> exact if_pos rfl

/-- The arguments written, each piece with its block. -/
def landed (events : List StreamEvent) : List (Nat × String) :=
  events.filterMap fun
    | .jsonDelta index fragment => some (index, fragment)
    | _ => none

/-- The calls' blocks, each with the id and the name it was opened with. -/
def toolStarts (events : List StreamEvent) : List (Nat × Value × String) :=
  events.filterMap fun
    | .blockStart index (some tool) => some (index, tool)
    | _ => none

/-- A valid stream, in which every piece of a call's arguments is in the block
of that call. -/
structure WellFormed (ps : List Part) (frames : List SseFrame) : Prop where
  read : ∀ frame ∈ frames, (readFrame frame).isSome = true
  grammar : (frames.filterMap readFrame).foldlM Phase.accept .start = some .ended
  own : ∃ own : Nat → Nat,
    landed (frames.filterMap readFrame) = (fragments ps).map (fun f => (own f.1, f.2)) ∧
    (∀ f ∈ fragments ps, ∃ x, (own f.1, x) ∈ toolStarts (frames.filterMap readFrame) ∧
      (f.1, x) ∈ namings ps) ∧
    ∀ f ∈ fragments ps, ∀ g ∈ fragments ps, own f.1 = own g.1 → f.1 = g.1

/-! ## The renderer, event by event -/

/-- What of the renderer's state decides where something is written. -/
structure Writer where
  openBlock : Option (Nat × Bool)
  next : Nat
  blocks : OrdMap Nat Nat

namespace Writer

def init : Writer := ⟨none, 0, .empty⟩

def close (w : Writer) : Writer × List StreamEvent :=
  match w.openBlock with
  | some (index, _) => ({ w with openBlock := none }, [.blockStop index])
  | none => (w, [])

/-- The open block is closed, and another opened. -/
def begin_ (w : Writer) (tool : Option (Value × String)) : Writer × List StreamEvent :=
  ({ w with openBlock := some (w.next, tool.isSome), next := w.next + 1 },
    w.close.2 ++ [.blockStart w.next tool])

def onPart (w : Writer) : Part → Writer × List StreamEvent
  | .text text =>
    match w.openBlock with
    | some (index, false) => (w, [.textDelta index text])
    | _ => ((w.begin_ none).1, (w.begin_ none).2 ++ [.textDelta w.next text])
  | .name index id name =>
    let (w', events) := w.begin_ (some (id, name))
    ({ w' with blocks := w.blocks.insert index w.next }, events)
  | .args index fragment =>
    match w.blocks.get? index with
    | some block => (w, [.jsonDelta block fragment])
    | none => (w, [])

theorem onPart_args_some {w : Writer} {index block : Nat} (h : w.blocks.get? index = some block)
    (fragment : String) : w.onPart (.args index fragment) = (w, [.jsonDelta block fragment]) := by
  show (match w.blocks.get? index with
    | some block => (w, [StreamEvent.jsonDelta block fragment])
    | none => (w, [])) = _
  rw [h]

theorem onPart_args_none {w : Writer} {index : Nat} (h : w.blocks.get? index = none)
    (fragment : String) : w.onPart (.args index fragment) = (w, []) := by
  show (match w.blocks.get? index with
    | some block => (w, [StreamEvent.jsonDelta block fragment])
    | none => (w, [])) = _
  rw [h]

end Writer

/-- Indices are 64 bits wide. -/
def wire : StreamEvent → StreamEvent
  | .blockStart index tool => .blockStart (index % 2 ^ 64) tool
  | .textDelta index text => .textDelta (index % 2 ^ 64) text
  | .jsonDelta index fragment => .jsonDelta (index % 2 ^ 64) fragment
  | .blockStop index => .blockStop (index % 2 ^ 64)
  | e => e

end Blocks

open Blocks

namespace OpenAiToAnthropicStream

def writer (self : OpenAiToAnthropicStream) : Writer :=
  ⟨self.openBlock, self.nextBlockIndex, self.toolBlocks⟩

theorem readFrame_event {name : String} {data : Value}
    (h : (data.index "type").asStr = some name) :
    readFrame (.event name data) = readEvent name data := if_pos h

theorem asU64_ofU64 (n : Nat) : (Value.ofU64 n).asU64 = some (n % 2 ^ 64) := rfl

theorem readFrame_stop (index : Nat) :
    readFrame (.event "content_block_stop" (.ofMembers
      [("type", .string "content_block_stop"), ("index", .ofU64 index)])) =
      some (wire (.blockStop index)) := by
  rw [readFrame_event (by simp [Value.index_ofMembers, Value.asStr])]
  show Option.map _ (Value.index _ "index").asU64 = _
  simp [Value.index_ofMembers, asU64_ofU64, wire]

theorem readFrame_start (index : Nat) {block : Value} {tool : Option (Value × String)}
    (h : readBlock block = some tool) :
    readFrame (blockStart index block) = some (wire (.blockStart index tool)) := by
  unfold blockStart
  rw [readFrame_event (by simp [Value.index_ofMembers, Value.asStr])]
  show Option.bind (Value.index _ "index").asU64 _ = _
  simp [Value.index_ofMembers, asU64_ofU64, h, wire]

theorem readFrame_delta (index : Nat) {delta : Value} {e : Nat → StreamEvent}
    (h : ∀ i, readDelta i delta = some (e i)) :
    readFrame (blockDelta index delta) = some (e (index % 2 ^ 64)) := by
  unfold blockDelta
  rw [readFrame_event (by simp [Value.index_ofMembers, Value.asStr])]
  show Option.bind (Value.index _ "index").asU64 _ = _
  simp [Value.index_ofMembers, asU64_ofU64, h]

theorem readFrame_text (index : Nat) :
    readFrame (blockStart index (.ofMembers [("type", .string "text"), ("text", .string "")])) =
      some (wire (.blockStart index none)) :=
  readFrame_start index rfl

theorem readFrame_tool (index : Nat) (id : Value) (name : String) :
    readFrame (blockStart index (.ofMembers [("type", .string "tool_use"), ("id", id),
      ("name", .string name), ("input", .object [])])) =
      some (wire (.blockStart index (some (id, name)))) :=
  readFrame_start index (by simp [readBlock, Value.index_ofMembers, Value.asStr])

theorem readFrame_textDelta (index : Nat) (text : String) :
    readFrame (blockDelta index
      (.ofMembers [("type", .string "text_delta"), ("text", .string text)])) =
      some (wire (.textDelta index text)) :=
  readFrame_delta (e := (.textDelta · text)) index
    fun i => by simp [readDelta, Value.index_ofMembers, Value.asStr]

theorem readFrame_jsonDelta (index : Nat) (fragment : String) :
    readFrame (blockDelta index (.ofMembers [("type", .string "input_json_delta"),
      ("partial_json", .string fragment)])) = some (wire (.jsonDelta index fragment)) :=
  readFrame_delta (e := (.jsonDelta · fragment)) index
    fun i => by simp [readDelta, Value.index_ofMembers, Value.asStr]

theorem readFrame_messageStart (chunk : Value) :
    readFrame (messageStart chunk) = some .messageStart :=
  readFrame_event (by simp [Value.index_ofMembers, Value.asStr])

theorem readFrame_messageDelta (finish : Option String) (tokens : Nat) :
    readFrame (messageDelta finish tokens) = some .messageDelta :=
  readFrame_event (by simp [Value.index_ofMembers, Value.asStr])

/-- Frames that a client reads as these events. -/
def Reads (frames : List SseFrame) (events : List StreamEvent) : Prop :=
  frames.map readFrame = events.map fun e => some (wire e)

theorem Reads.append {frames frames' : List SseFrame} {events events' : List StreamEvent}
    (h : Reads frames events) (h' : Reads frames' events') :
    Reads (frames ++ frames') (events ++ events') := by
  unfold Reads at *
  rw [List.map_append, List.map_append, h, h']

theorem reads_one {frame : SseFrame} {event : StreamEvent} (h : readFrame frame = some (wire event)) :
    Reads [frame] [event] := congrArg (fun r => [r]) h

theorem closeOpenBlock_writes (self : OpenAiToAnthropicStream) :
    self.closeOpenBlock.1.writer = self.writer.close.1 ∧
      Reads self.closeOpenBlock.2 self.writer.close.2 := by
  unfold closeOpenBlock Writer.close
  cases h : self.openBlock with
  | none =>
    rw [show self.writer.openBlock = none from h]
    exact ⟨rfl, rfl⟩
  | some block =>
    rw [show self.writer.openBlock = some block from h]
    exact ⟨rfl, reads_one (readFrame_stop block.1)⟩

theorem onText_writes (self : OpenAiToAnthropicStream) (text : String) :
    (self.onText text).1.writer = (self.writer.onPart (.text text)).1 ∧
      Reads (self.onText text).2 (self.writer.onPart (.text text)).2 := by
  obtain ⟨-, hclosed⟩ := closeOpenBlock_writes self
  have hnew : Reads (self.closeOpenBlock.2 ++ [blockStart self.closeOpenBlock.1.nextBlockIndex
      (.ofMembers [("type", .string "text"), ("text", .string "")]),
      blockDelta self.closeOpenBlock.1.nextBlockIndex
        (.ofMembers [("type", .string "text_delta"), ("text", .string text)])])
      ((self.writer.begin_ none).2 ++ [.textDelta self.writer.next text]) := by
    have hnext : self.closeOpenBlock.1.nextBlockIndex = self.writer.next := by
      unfold closeOpenBlock
      cases self.openBlock <;> rfl
    rw [hnext]
    unfold Writer.begin_
    rw [List.append_assoc]
    exact hclosed.append ((reads_one (readFrame_text _)).append (reads_one (readFrame_textDelta _ text)))
  have hwriter : ({ self.closeOpenBlock.1 with
        nextBlockIndex := self.closeOpenBlock.1.nextBlockIndex + 1
        openBlock := some (self.closeOpenBlock.1.nextBlockIndex, false) } :
      OpenAiToAnthropicStream).writer = (self.writer.begin_ none).1 := by
    unfold closeOpenBlock
    cases self.openBlock <;> rfl
  unfold onText Writer.onPart
  cases h : self.openBlock with
  | none =>
    rw [show self.writer.openBlock = none from h]
    exact ⟨hwriter, hnew⟩
  | some block =>
    obtain ⟨index, tool⟩ := block
    rw [show self.writer.openBlock = some (index, tool) from h]
    cases tool with
    | true => exact ⟨hwriter, hnew⟩
    | false => exact ⟨rfl, reads_one (readFrame_textDelta index text)⟩

theorem onContent_writes (self : OpenAiToAnthropicStream) (content : Value) :
    (self.onContent content).1.writer =
        (emitAll Writer.onPart self.writer ((nonEmptyStr content).toList.map .text)).1 ∧
      Reads (self.onContent content).2
        (emitAll Writer.onPart self.writer ((nonEmptyStr content).toList.map .text)).2 := by
  unfold onContent
  cases nonEmptyStr content with
  | none => exact ⟨rfl, rfl⟩
  | some text =>
    obtain ⟨hwriter, hreads⟩ := onText_writes self text
    refine ⟨hwriter, ?_⟩
    show Reads _ ((self.writer.onPart (.text text)).2 ++ [])
    rw [List.append_nil]
    exact hreads

theorem onName_writes (self : OpenAiToAnthropicStream) (call : Value) {name : String}
    (h : ((call.index "function").index "name").asStr = some name) :
    (self.onName call).1.writer =
        (self.writer.onPart (.name (toolIndex call) (call.index "id") name)).1 ∧
      Reads (self.onName call).2
        (self.writer.onPart (.name (toolIndex call) (call.index "id") name)).2 := by
  obtain ⟨-, hclosed⟩ := closeOpenBlock_writes self
  unfold onName
  rw [h]
  constructor
  · unfold closeOpenBlock
    cases self.openBlock <;> rfl
  · have hnext : self.closeOpenBlock.1.nextBlockIndex = self.writer.next := by
      unfold closeOpenBlock
      cases self.openBlock <;> rfl
    dsimp only
    rw [hnext]
    exact hclosed.append (reads_one (readFrame_tool _ _ name))

theorem argumentDeltas_writes (self : OpenAiToAnthropicStream) (call : Value) {fragment : String}
    (h : nonEmptyStr ((call.index "function").index "arguments") = some fragment) :
    self.writer = (self.writer.onPart (.args (toolIndex call) fragment)).1 ∧
      Reads (self.argumentDeltas call) (self.writer.onPart (.args (toolIndex call) fragment)).2 := by
  unfold argumentDeltas
  rw [h]
  cases hblock : self.toolBlocks.get? (toolIndex call) with
  | none =>
    rw [Writer.onPart_args_none hblock]
    exact ⟨rfl, rfl⟩
  | some index =>
    rw [Writer.onPart_args_some hblock]
    exact ⟨rfl, reads_one (readFrame_jsonDelta index fragment)⟩

theorem onCall_writes (self : OpenAiToAnthropicStream) (call : Value) :
    (self.onCall call).1.writer = (emitAll Writer.onPart self.writer (callParts call)).1 ∧
      Reads (self.onCall call).2 (emitAll Writer.onPart self.writer (callParts call)).2 := by
  have hname : (self.onName call).1.writer = (emitAll Writer.onPart self.writer
        (((call.index "function").index "name").asStr.toList.map
          fun name => .name (toolIndex call) (call.index "id") name)).1 ∧
      Reads (self.onName call).2 (emitAll Writer.onPart self.writer
        (((call.index "function").index "name").asStr.toList.map
          fun name => .name (toolIndex call) (call.index "id") name)).2 := by
    cases h : ((call.index "function").index "name").asStr with
    | none =>
      unfold onName
      rw [h]
      exact ⟨rfl, rfl⟩
    | some name =>
      obtain ⟨hwriter, hreads⟩ := onName_writes self call h
      refine ⟨hwriter, ?_⟩
      show Reads _ ((self.writer.onPart (.name (toolIndex call) (call.index "id") name)).2 ++ [])
      rw [List.append_nil]
      exact hreads
  unfold callParts
  rw [emitAll_append, ← hname.1]
  have hargs : (self.onName call).1.writer = (emitAll Writer.onPart (self.onName call).1.writer
        ((nonEmptyStr ((call.index "function").index "arguments")).toList.map
          fun fragment => .args (toolIndex call) fragment)).1 ∧
      Reads ((self.onName call).1.argumentDeltas call)
        (emitAll Writer.onPart (self.onName call).1.writer
          ((nonEmptyStr ((call.index "function").index "arguments")).toList.map
            fun fragment => .args (toolIndex call) fragment)).2 := by
    cases h : nonEmptyStr ((call.index "function").index "arguments") with
    | none =>
      unfold argumentDeltas
      rw [h]
      exact ⟨rfl, rfl⟩
    | some fragment =>
      obtain ⟨hwriter, hreads⟩ := argumentDeltas_writes (self.onName call).1 call h
      refine ⟨hwriter, ?_⟩
      show Reads _ (((self.onName call).1.writer.onPart (.args (toolIndex call) fragment)).2 ++ [])
      rw [List.append_nil]
      exact hreads
  exact ⟨hargs.1, hname.2.append hargs.2⟩

theorem closeOpenBlock_started (self : OpenAiToAnthropicStream) :
    self.closeOpenBlock.1.started = self.started := by
  unfold closeOpenBlock
  cases self.openBlock <;> rfl

theorem onContent_started (self : OpenAiToAnthropicStream) (content : Value) :
    (self.onContent content).1.started = self.started := by
  unfold onContent
  cases nonEmptyStr content with
  | none => rfl
  | some text =>
    show (self.onText text).1.started = _
    unfold onText
    split
    · rfl
    · exact closeOpenBlock_started self

theorem onCall_started (self : OpenAiToAnthropicStream) (call : Value) :
    (self.onCall call).1.started = self.started := by
  show (self.onName call).1.started = _
  unfold onName
  split
  · exact closeOpenBlock_started self
  · rfl

/-- A chunk is written as its parts are. -/
theorem onChunk_writes (self : OpenAiToAnthropicStream) (chunk : Value) (h : self.started = true) :
    (self.onChunk chunk).1.started = true ∧
      (self.onChunk chunk).1.writer = (emitAll Writer.onPart self.writer (chunkParts chunk)).1 ∧
      Reads (self.onChunk chunk).2 (emitAll Writer.onPart self.writer (chunkParts chunk)).2 := by
  obtain ⟨hcontent, htext⟩ := onContent_writes self
    (((firstChoice chunk).index "delta").index "content")
  have hstarted := (onContent_started self
    (((firstChoice chunk).index "delta").index "content")).trans h
  obtain ⟨hcalls, hout⟩ := emitAll_flatMap (f := onCall) (g := Writer.onPart) (h := callParts)
    (v := writer) (I := fun _ => True) (Q := Reads) rfl Reads.append
    (fun s x _ => ⟨trivial, onCall_writes s x⟩) (s := (self.onContent
      (((firstChoice chunk).index "delta").index "content")).1) trivial
    (elements (((firstChoice chunk).index "delta").index "tool_calls"))
  have hkept : (emitAll onCall (self.onContent (((firstChoice chunk).index "delta").index
      "content")).1 (elements (((firstChoice chunk).index "delta").index
        "tool_calls"))).1.started = true :=
    (emitAll_forall (I := fun s => s.started = true) (Q := fun _ => True)
      (fun s x _ hs => ⟨(onCall_started s x).trans hs, fun _ _ => trivial⟩) hstarted).1
  have hself : { self with started := true } = self := by
    cases self
    cases h
    rfl
  unfold chunkParts
  rw [emitAll_append]
  unfold onChunk
  rw [hself, h]
  rw [hcontent] at hcalls hout
  exact ⟨hkept, hcalls, htext.append hout⟩

end OpenAiToAnthropicStream

end RapidRouter.Providers
