import RapidRouter.Providers.Parts

/-!
# The stream a client of the Responses API reads

`ChunksToResponses` of `router-providers/src/responses.rs` streams output items,
one open at a time. Which items there are, and in what order, is read off the
parts of the chunks (`place`): text goes to the message that is open, or opens
one, and a name opens a call. `Tracks` connects the renderer to them, and to the
place in the grammar where a client is after what was written so far.
-/

namespace RapidRouter.Providers

open Json Emit

namespace Items

/-! ## The items of parts -/

inductive Item where
  | message (text : String)
  | call (index : Nat) (id name args : String)
  deriving DecidableEq

/-- An item's id, at an output index. -/
def Item.idAt (k : Nat) : Item → String
  | .message _ => ChunksToResponses.messageId k
  | .call index _ _ _ => ChunksToResponses.callId index

/-- The item when it is complete. -/
def Item.value (k : Nat) : Item → Value
  | .message text =>
    ChunksToResponses.messageItem k "completed" [ChunksToResponses.outputText text]
  | .call index id name args => ChunksToResponses.callItem index id name args "completed"

/-- The items that are complete, and the one that is open. -/
structure Desk where
  done : List Item
  current : Option Item

namespace Desk

def init : Desk := ⟨[], none⟩

def items (d : Desk) : List Item := d.done ++ d.current.toList

/-- What is open is complete. -/
def close (d : Desk) : Desk := ⟨d.items, none⟩

def begin_ (d : Desk) (item : Item) : Desk := ⟨d.items, some item⟩

def place (d : Desk) : Part → Desk
  | .text text =>
    match d.current with
    | some (.message said) => { d with current := some (.message (said ++ text)) }
    | _ => d.begin_ (.message text)
  | .name index id name => d.begin_ (.call index (id.asStr.getD "call_0") name "")
  -- arguments for any other call are lost
  | .args index fragment =>
    match d.current with
    | some (.call i id name args) =>
      if i = index then { d with current := some (.call i id name (args ++ fragment)) } else d
    | _ => d

end Desk

/-- The items of parts, in the order in which they are opened. -/
def placed (ps : List Part) : List Item := (ps.foldl Desk.place .init).items

/-- Items, each with its place in the output. -/
def listed (items : List Item) : List Value := items.zipIdx.map fun (item, k) => item.value k

theorem listed_append (items : List Item) (item : Item) :
    listed (items ++ [item]) = listed items ++ [item.value items.length] := by
  unfold listed
  rw [List.zipIdx_append, List.map_append]
  simp

@[simp] theorem length_listed (items : List Item) : (listed items).length = items.length := by
  unfold listed
  rw [List.length_map, List.length_zipIdx]

theorem id_messageItem (k : Nat) (status : String) (content : List Value) :
    ((ChunksToResponses.messageItem k status content).index "id").asStr =
      some (ChunksToResponses.messageId k) := by
  simp [ChunksToResponses.messageItem, Value.index_ofMembers, Value.asStr]

theorem id_callItem (index : Nat) (id name args status : String) :
    ((ChunksToResponses.callItem index id name args status).index "id").asStr =
      some (ChunksToResponses.callId index) := by
  simp [ChunksToResponses.callItem, Value.index_ofMembers, Value.asStr]

theorem id_value (item : Item) (k : Nat) : ((item.value k).index "id").asStr = some (item.idAt k) := by
  cases item with
  | message text => exact id_messageItem k _ _
  | call index id name args => exact id_callItem index _ _ _ _

/-! ## The grammar -/

/-- An event as a client reads it. -/
inductive ItemEvent where
  | created
  | added (index : Nat) (id : String)
  /-- A part of the item of this id. -/
  | delta (id : String)
  | done (index : Nat) (item : Value)
  | completed (response : Value)

/-- The events about a part of an item. -/
def partEvents : List String :=
  ["response.content_part.added", "response.output_text.delta", "response.output_text.done",
    "response.function_call_arguments.delta", "response.function_call_arguments.done"]

def readEvent (name : String) (data : Value) : Option ItemEvent :=
  match name with
  | "response.created" => some .created
  | "response.output_item.added" =>
    (data.index "output_index").asU64.bind fun index =>
      ((data.index "item").index "id").asStr.map (.added index)
  | "response.output_item.done" =>
    (data.index "output_index").asU64.map fun index => .done index (data.index "item")
  | "response.completed" => some (.completed (data.index "response"))
  | _ => if name ∈ partEvents then (data.index "item_id").asStr.map .delta else none

/-- The event's name is the type of its data. -/
def readFrame : SseFrame → Option ItemEvent
  | .event name data => if (data.index "type").asStr = some name then readEvent name data else none
  | _ => none

inductive Phase where
  | start
  /-- The ids of the items so far, those that are done, and the one that is open. -/
  | response (ids : List String) (done : List Value) (current : Option String)
  | ended (done : List Value) (response : Value)

/-- One item is open at a time, and has the next output index, of 64 bits. -/
def Phase.accept : Phase → ItemEvent → Option Phase
  | .start, .created => some (.response [] [] none)
  | .response ids done none, .added index id =>
    if index = done.length % 2 ^ 64 then some (.response (id :: ids) done (some id)) else none
  | .response ids done current, .delta id =>
    if id ∈ ids then some (.response ids done current) else none
  | .response ids done (some id), .done index item =>
    if index = done.length % 2 ^ 64 ∧ (item.index "id").asStr = some id then
      some (.response ids (done ++ [item]) none)
    else none
  | .response _ done none, .completed data => some (.ended done data)
  | _, _ => none

def Phase.acceptFrame (p : Phase) (f : SseFrame) : Option Phase := (readFrame f).bind p.accept

/-- A client that reads these frames gets from one place to the other. -/
def Moves (p : Phase) (frames : List SseFrame) (q : Phase) : Prop :=
  frames.foldlM Phase.acceptFrame p = some q

theorem Moves.nil (p : Phase) : Moves p [] p := rfl

theorem Moves.append {p q r : Phase} {a b : List SseFrame} (ha : Moves p a q) (hb : Moves q b r) :
    Moves p (a ++ b) r := by
  unfold Moves at *
  rw [List.foldlM_append, ha]
  exact hb

theorem Moves.one {p q : Phase} {f : SseFrame} {e : ItemEvent} (hread : readFrame f = some e)
    (h : p.accept e = some q) : Moves p [f] q := by
  show (Phase.acceptFrame p f).bind _ = some q
  unfold Phase.acceptFrame
  rw [hread, Option.bind_some, h]
  rfl

/-! ### Frames as they are written -/

section

variable (s : ChunksToResponses) {ids : List String} {done : List Value} {data : List (String × Value)}

theorem index_event (name k : String) (hk : k ≠ "type" ∧ k ≠ "sequence_number") :
    (Value.ofMembers (data ++ [("type", .string name), ("sequence_number", .ofU64 s.sequence)])).index k =
      (Value.ofMembers data).index k := by
  rw [Value.index_ofMembers, Value.index_ofMembers, List.foldl_append]
  simp [hk.1, hk.2]

/-- A frame of the renderer is read by its name. -/
theorem readFrame_event (name : String) :
    ((s.event name data).2.map readFrame) = [readEvent name (.ofMembers (data ++
      [("type", .string name), ("sequence_number", .ofU64 s.sequence)]))] := by
  have htype : ((Value.ofMembers (data ++ [("type", .string name),
      ("sequence_number", .ofU64 s.sequence)])).index "type").asStr = some name := by
    rw [Value.index_ofMembers, List.foldl_append]
    simp [Value.asStr]
  exact congrArg (fun e => [e]) (if_pos htype)

theorem moves_event {name : String} {p q : Phase} {e : ItemEvent}
    (hread : readEvent name (.ofMembers (data ++
      [("type", .string name), ("sequence_number", .ofU64 s.sequence)])) = some e)
    (h : p.accept e = some q) : Moves p (s.event name data).2 q := by
  have hframe : (s.event name data).2.map readFrame = _ := readFrame_event s name
  rw [hread] at hframe
  exact Moves.one (List.singleton_inj.mp hframe) h

theorem moves_created : Moves .start (s.event "response.created" data).2 (.response [] [] none) :=
  moves_event s rfl rfl

theorem moves_added {k : Nat} (hk : k = done.length) {item : Value} {id : String}
    (hid : (item.index "id").asStr = some id) :
    Moves (.response ids done none) (s.event "response.output_item.added"
      [("output_index", .ofU64 k), ("item", item)]).2 (.response (id :: ids) done (some id)) := by
  rw [hk]
  refine moves_event s (e := .added (done.length % 2 ^ 64) id) ?_ (if_pos rfl)
  show Option.bind (Value.index _ "output_index").asU64 _ = _
  rw [index_event s _ "output_index" (by decide)]
  simp only [index_event s _ "item" (by decide)]
  simp [Value.index_ofMembers, hid, Value.asU64, Value.ofU64]

theorem moves_done {k : Nat} (hk : k = done.length) {item : Value} {id : String}
    (hid : (item.index "id").asStr = some id) :
    Moves (.response ids done (some id)) (s.event "response.output_item.done"
      [("output_index", .ofU64 k), ("item", item)]).2 (.response ids (done ++ [item]) none) := by
  rw [hk]
  refine moves_event s (e := .done (done.length % 2 ^ 64) item) ?_ (if_pos ⟨rfl, hid⟩)
  show Option.map _ (Value.index _ "output_index").asU64 = _
  rw [index_event s _ "output_index" (by decide), index_event s _ "item" (by decide)]
  simp [Value.index_ofMembers, Value.asU64, Value.ofU64]

theorem moves_delta {name id : String} {current : Option String} (hname : name ∈ partEvents)
    (hid : ((Value.ofMembers data).index "item_id").asStr = some id) (hmem : id ∈ ids) :
    Moves (.response ids done current) (s.event name data).2 (.response ids done current) := by
  refine moves_event s (e := .delta id) ?_ ?_
  · have hread : ∀ d, readEvent name d = (d.index "item_id").asStr.map .delta := by
      intro d
      simp only [partEvents, List.mem_cons, List.not_mem_nil, or_false] at hname
      rcases hname with rfl | rfl | rfl | rfl | rfl <;> rfl
    rw [hread, index_event s _ _ (by decide), hid]
    rfl
  · cases current with
    | none => exact if_pos hmem
    | some open_ => exact if_pos hmem

/-- The last part of an item is done, and then the item. -/
theorem moves_close {k : Nat} (hk : k = done.length) {name id : String} {item : Value}
    (hname : name ∈ partEvents) (hpart : ((Value.ofMembers data).index "item_id").asStr = some id)
    (hmem : id ∈ ids) (hid : (item.index "id").asStr = some id) :
    Moves (.response ids done (some id)) (s.events [(name, data), ("response.output_item.done",
      [("output_index", .ofU64 k), ("item", item)])]).2 (.response ids (done ++ [item]) none) :=
  (moves_delta s hname hpart hmem).append ((moves_done _ hk hid).append (Moves.nil _))

theorem moves_completed {response : Value} :
    Moves (.response ids done none) (s.event "response.completed" [("response", response)]).2
      (.ended done response) := by
  refine moves_event s (e := .completed response) ?_ rfl
  show some (ItemEvent.completed _) = _
  rw [index_event s _ _ (by decide)]
  simp [Value.index_ofMembers]

end

/-! ## The renderer -/

/-- The renderer has placed these items, and a client knows these ids. -/
structure Tracks (s : ChunksToResponses) (d : Desk) (ids : List String) : Prop where
  started : s.started = true
  output : s.output = listed d.done
  outputIndex : s.outputIndex = d.done.length
  known : ∀ index, s.calls.get? index ≠ none → ChunksToResponses.callId index ∈ ids
  current : match d.current with
    | none => s.openItem = none
    | some (.message text) => s.openItem = some .message ∧ s.text = some text ∧
        ChunksToResponses.messageId d.done.length ∈ ids
    | some (.call index id name args) => s.openItem = some (.functionCall index) ∧
        s.calls.get? index = some (id, name, args)

/-- Where in the grammar a client is. -/
def Desk.phase (d : Desk) (ids : List String) : Phase :=
  .response ids (listed d.done) (d.current.map (·.idAt d.done.length))

theorem phase_close (done : List Item) (item : Item) (ids : List String) :
    (Desk.close ⟨done, some item⟩).phase ids =
      .response ids (listed done ++ [item.value done.length]) none := by
  rw [← listed_append]
  rfl

/-- From what is tracked, to what is tracked then; the usage is left alone. -/
def Steps (s : ChunksToResponses) (d : Desk) (ids : List String)
    (r : ChunksToResponses × List SseFrame) (d' : Desk) : Prop :=
  r.1.usage = s.usage ∧ ∃ ids', Tracks r.1 d' ids' ∧ Moves (d.phase ids) r.2 (d'.phase ids')

theorem Steps.append {s : ChunksToResponses} {d d' d'' : Desk} {ids : List String}
    {a b : ChunksToResponses × List SseFrame} (ha : Steps s d ids a d')
    (hb : ∀ ids, Tracks a.1 d' ids → Steps a.1 d' ids b d'') :
    Steps s d ids (b.1, a.2 ++ b.2) d'' := by
  obtain ⟨husage, ids', htracks, hmoves⟩ := ha
  obtain ⟨husage', ids'', htracks', hmoves'⟩ := hb ids' htracks
  exact ⟨husage'.trans husage, ids'', htracks', hmoves.append hmoves'⟩

theorem Steps.andThen {s : ChunksToResponses} {d d' d'' : Desk} {ids : List String}
    {a : ChunksToResponses × List SseFrame} {f : ChunksToResponses → ChunksToResponses × List SseFrame}
    (ha : Steps s d ids a d') (hf : ∀ ids, Tracks a.1 d' ids → Steps a.1 d' ids (f a.1) d'') :
    Steps s d ids (Emit.andThen a f) d'' := ha.append hf

namespace Tracks

variable {s : ChunksToResponses} {d : Desk} {ids : List String}

theorem stays (h : Tracks s d ids) : Steps s d ids (s, []) d := ⟨rfl, ids, h, Moves.nil _⟩

/-- A state that differs in nothing that is tracked. -/
theorem congr {s' : ChunksToResponses} (h : Tracks s d ids) (hstarted : s'.started = s.started)
    (houtput : s'.output = s.output) (hindex : s'.outputIndex = s.outputIndex)
    (hcalls : s'.calls = s.calls) (hopen : s'.openItem = s.openItem) (htext : s'.text = s.text) :
    Tracks s' d ids where
  started := hstarted.trans h.started
  output := houtput.trans h.output
  outputIndex := hindex.trans h.outputIndex
  known := hcalls ▸ h.known
  current := by
    have hcurrent := h.current
    rw [hopen, htext, hcalls]
    exact hcurrent

/-- The item that is open is pushed. -/
theorem pushed {done : List Item} {item : Item} {value : Value} {s' : ChunksToResponses}
    (h : Tracks s ⟨done, some item⟩ ids) (hvalue : item.value done.length = value)
    (hstarted : s'.started = s.started) (houtput : s'.output = s.output)
    (hindex : s'.outputIndex = done.length) (hcalls : s'.calls = s.calls)
    (hopen : s'.openItem = none) : Tracks (s'.push value) ⟨done ++ [item], none⟩ ids where
  started := hstarted.trans h.started
  output := by
    rw [listed_append, ← h.output, ← houtput, ← hvalue]
    rfl
  outputIndex := by
    rw [List.length_append, List.length_singleton, ← hindex]
    rfl
  known := hcalls ▸ h.known
  current := hopen

theorem close (h : Tracks s d ids) : Steps s d ids s.closeOpenItem d.close := by
  obtain ⟨done, current⟩ := d
  have hlength : (listed done).length = done.length := length_listed done
  have hindex : s.outputIndex = done.length := h.outputIndex
  have hcurrent := h.current
  unfold ChunksToResponses.closeOpenItem
  cases current with
  | none =>
    rw [show s.openItem = none from hcurrent]
    have hclose : (⟨done, none⟩ : Desk).close = ⟨done, none⟩ := by
      show (⟨done ++ [], none⟩ : Desk) = _
      rw [List.append_nil]
    rw [hclose]
    have hnone : Tracks { s with openItem := none } ⟨done, none⟩ ids :=
      h.congr rfl rfl rfl rfl hcurrent.symm rfl
    exact hnone.stays
  | some item =>
    have hid := id_value item done.length
    cases item with
    | message text =>
      obtain ⟨hopen, htext, hmem⟩ := hcurrent
      rw [hopen]
      dsimp only
      rw [htext, hindex]
      refine ⟨rfl, ids, h.pushed rfl rfl rfl rfl rfl rfl, ?_⟩
      rw [phase_close]
      refine moves_close _ hlength.symm (by decide) ?_ hmem hid
      simp [Value.index_ofMembers, Value.asStr, Item.idAt]
    | call index id name args =>
      obtain ⟨hopen, hcall⟩ := hcurrent
      have hmem : ChunksToResponses.callId index ∈ ids :=
        h.known index (by rw [hcall]; exact Option.some_ne_none _)
      rw [hopen]
      dsimp only
      rw [hcall, hindex]
      refine ⟨rfl, ids, h.pushed rfl rfl rfl rfl rfl rfl, ?_⟩
      rw [phase_close]
      refine moves_close _ hlength.symm (by decide) ?_ hmem hid
      simp [Value.index_ofMembers, Value.asStr, Item.idAt]

/-- Text that goes on. -/
theorem said {done : List Item} {said : String} (h : Tracks s ⟨done, some (.message said)⟩ ids)
    (text : String) : Steps s ⟨done, some (.message said)⟩ ids
      ({ s with text := s.text.map (· ++ text) }.event "response.output_text.delta" [
        ("item_id", .string (ChunksToResponses.messageId s.outputIndex)),
        ("output_index", .ofU64 s.outputIndex), ("content_index", .ofU64 0),
        ("delta", .string text)])
      ⟨done, some (.message (said ++ text))⟩ := by
  obtain ⟨hopen, htext, hmem⟩ := h.current
  refine ⟨rfl, ids, ⟨h.started, h.output, h.outputIndex, h.known, hopen, ?_, hmem⟩, ?_⟩
  · show s.text.map (· ++ text) = _
    rw [htext]
    rfl
  · refine moves_delta _ (by decide) ?_ hmem
    rw [show s.outputIndex = done.length from h.outputIndex]
    simp [Value.index_ofMembers, Value.asStr]

/-- A message is opened. -/
theorem openMessage (h : Tracks s d ids) (hopen : s.openItem ≠ some .message) :
    Steps s d ids s.openMessage (d.begin_ (.message "")) := by
  unfold ChunksToResponses.openMessage
  rw [if_neg hopen]
  refine h.close.andThen fun ids h => ?_
  have hindex : s.closeOpenItem.1.outputIndex = d.items.length := h.outputIndex
  have hlength : (listed d.items).length = d.items.length := length_listed d.items
  refine ⟨rfl, ChunksToResponses.messageId d.items.length :: ids,
    ⟨h.started, h.output, h.outputIndex, ?_, rfl, rfl, List.mem_cons_self⟩, ?_⟩
  · intro index hcall
    exact List.mem_cons_of_mem _ (h.known index hcall)
  · rw [hindex]
    refine (moves_added _ hlength.symm (id_messageItem _ _ _)).append ?_
    have hname : "response.content_part.added" ∈ partEvents := by decide
    refine (moves_delta _ hname ?_ List.mem_cons_self).append (Moves.nil _)
    simp [Value.index_ofMembers, Value.asStr]

theorem onContent (h : Tracks s d ids) (content : Value) :
    Steps s d ids (s.onContent content)
      (((nonEmptyStr content).toList.map Part.text).foldl Desk.place d) := by
  unfold ChunksToResponses.onContent
  cases nonEmptyStr content with
  | none => exact h.stays
  | some text =>
    obtain ⟨done, current⟩ := d
    have hcurrent := h.current
    dsimp only
    have hopens (hopen : s.openItem ≠ some .message) : Steps s ⟨done, current⟩ ids
        (andThen s.openMessage fun self =>
          { self with text := self.text.map (· ++ text) }.event "response.output_text.delta" [
            ("item_id", .string (ChunksToResponses.messageId self.outputIndex)),
            ("output_index", .ofU64 self.outputIndex), ("content_index", .ofU64 0),
            ("delta", .string text)]) (Desk.begin_ ⟨done, current⟩ (.message text)) := by
      refine (h.openMessage hopen).andThen fun ids h => ?_
      have hsaid := h.said text
      rw [String.empty_append] at hsaid
      exact hsaid
    cases current with
    | none =>
      refine hopens ?_
      rw [show s.openItem = none from hcurrent]
      exact nofun
    | some item =>
      cases item with
      | message said =>
        have hmessage : s.openMessage = (s, []) := if_pos hcurrent.1
        rw [hmessage]
        exact h.stays.andThen fun ids h => h.said text
      | call index id name args =>
        refine hopens ?_
        rw [hcurrent.1]
        exact nofun

theorem known_insert (h : Tracks s d ids) (index : Nat) (entry : String × String × String) (i : Nat)
    (hcall : (s.calls.insert index entry).get? i ≠ none) :
    i = index ∨ ChunksToResponses.callId i ∈ ids := by
  rw [OrdMap.get?_insert] at hcall
  by_cases heq : i = index
  · exact Or.inl heq
  · rw [if_neg heq] at hcall
    exact Or.inr (h.known i hcall)

theorem onName (h : Tracks s d ids) (call : Value) :
    Steps s d ids (s.onName call) ((((call.index "function").index "name").asStr.toList.map
      fun name => Part.name (toolIndex call) (call.index "id") name).foldl Desk.place d) := by
  unfold ChunksToResponses.onName
  cases ((call.index "function").index "name").asStr with
  | none => exact h.stays
  | some name =>
    refine h.close.andThen fun ids h => ?_
    have hindex : s.closeOpenItem.1.outputIndex = d.items.length := h.outputIndex
    have hlength : (listed d.items).length = d.items.length := length_listed d.items
    refine ⟨rfl, ChunksToResponses.callId (toolIndex call) :: ids,
      ⟨h.started, h.output, h.outputIndex, ?_, rfl, OrdMap.get?_insert_self _ _ _⟩, ?_⟩
    · intro i hcall
      rcases h.known_insert _ _ i hcall with rfl | hmem
      · exact List.mem_cons_self
      · exact List.mem_cons_of_mem _ hmem
    · rw [hindex]
      exact moves_added _ hlength.symm (id_callItem _ _ _ _ _)

/-- A call that was named gets arguments, whatever is open. -/
theorem given (h : Tracks s d ids) {index : Nat} {id name args : String}
    (hcall : s.calls.get? index = some (id, name, args)) (fragment : String) :
    Steps s d ids
      ({ s with calls := s.calls.insert index (id, name, args ++ fragment) }.event
        "response.function_call_arguments.delta" [
          ("item_id", .string (ChunksToResponses.callId index)),
          ("output_index", .ofU64 s.outputIndex), ("delta", .string fragment)])
      (d.place (.args index fragment)) := by
  have hmem : ChunksToResponses.callId index ∈ ids :=
    h.known index (by rw [hcall]; exact Option.some_ne_none _)
  have hmoves : ∀ {p : Phase} {current : Option String}, p = .response ids (listed d.done) current →
      Moves p ({ s with calls := s.calls.insert index (id, name, args ++ fragment) }.event
        "response.function_call_arguments.delta" [
          ("item_id", .string (ChunksToResponses.callId index)),
          ("output_index", .ofU64 s.outputIndex), ("delta", .string fragment)]).2 p := by
    intro p current hp
    rw [hp]
    refine moves_delta _ (by decide) ?_ hmem
    simp [Value.index_ofMembers, Value.asStr]
  have hknown : ∀ i, (s.calls.insert index (id, name, args ++ fragment)).get? i ≠ none →
      ChunksToResponses.callId i ∈ ids := by
    intro i hi
    rcases h.known_insert _ _ i hi with rfl | hi
    · exact hmem
    · exact hi
  obtain ⟨done, current⟩ := d
  have hcurrent := h.current
  cases current with
  | none => exact ⟨rfl, ids, ⟨h.started, h.output, h.outputIndex, hknown, hcurrent⟩, hmoves rfl⟩
  | some item =>
    cases item with
    | message text =>
      exact ⟨rfl, ids, ⟨h.started, h.output, h.outputIndex, hknown, hcurrent⟩, hmoves rfl⟩
    | call i id' name' args' =>
      obtain ⟨hopen, hentry⟩ := hcurrent
      by_cases heq : i = index
      · subst heq
        rw [hentry] at hcall
        cases hcall
        have hplace : Desk.place ⟨done, some (.call i id name args)⟩ (.args i fragment) =
            ⟨done, some (.call i id name (args ++ fragment))⟩ := if_pos rfl
        rw [hplace]
        exact ⟨rfl, ids, ⟨h.started, h.output, h.outputIndex, hknown, hopen,
          OrdMap.get?_insert_self _ _ _⟩, hmoves rfl⟩
      · -- the call was closed before
        have hplace : Desk.place ⟨done, some (.call i id' name' args')⟩ (.args index fragment) =
            ⟨done, some (.call i id' name' args')⟩ := if_neg heq
        rw [hplace]
        refine ⟨rfl, ids, ⟨h.started, h.output, h.outputIndex, hknown, hopen, ?_⟩, hmoves rfl⟩
        show (s.calls.insert index _).get? i = _
        rw [OrdMap.get?_insert, if_neg heq]
        exact hentry

theorem onArguments (h : Tracks s d ids) (call : Value) :
    Steps s d ids (s.onArguments call)
      (((nonEmptyStr ((call.index "function").index "arguments")).toList.map
        fun fragment => Part.args (toolIndex call) fragment).foldl Desk.place d) := by
  unfold ChunksToResponses.onArguments
  cases nonEmptyStr ((call.index "function").index "arguments") with
  | none => exact h.stays
  | some fragment =>
    dsimp only
    cases hcall : s.calls.get? (toolIndex call) with
    | some entry => exact h.given hcall fragment
    | none =>
      have hplace : d.place (.args (toolIndex call) fragment) = d := by
        obtain ⟨done, current⟩ := d
        have hcurrent := h.current
        cases current with
        | none => rfl
        | some item =>
          cases item with
          | message text => rfl
          | call i id name args =>
            refine if_neg fun heq => ?_
            rw [← heq, hcurrent.2] at hcall
            cases hcall
      show Steps s d ids (s, []) (d.place (.args (toolIndex call) fragment))
      rw [hplace]
      exact h.stays

theorem onCall (h : Tracks s d ids) (call : Value) :
    Steps s d ids (s.onCall call) ((callParts call).foldl Desk.place d) := by
  unfold callParts
  rw [List.foldl_append]
  exact (h.onName call).andThen fun ids h => h.onArguments call

theorem onCalls (h : Tracks s d ids) (calls : List Value) :
    Steps s d ids (emitAll ChunksToResponses.onCall s calls)
      ((calls.flatMap callParts).foldl Desk.place d) := by
  induction calls generalizing s d ids with
  | nil => exact h.stays
  | cons call calls ih =>
    rw [List.flatMap_cons, List.foldl_append]
    exact (h.onCall call).append fun ids h => ih h

/-- A chunk is written as its parts are placed. -/
theorem onChunk (h : Tracks s d ids) (chunk : Value) :
    (s.onChunk chunk).1.usage = ((usageOf chunk).map responsesUsage).or s.usage ∧
      ∃ ids', Tracks (s.onChunk chunk).1 ((chunkParts chunk).foldl Desk.place d) ids' ∧
        Moves (d.phase ids) (s.onChunk chunk).2
          (((chunkParts chunk).foldl Desk.place d).phase ids') := by
  have hstart : s.start chunk = (s, []) := if_pos h.started
  unfold chunkParts ChunksToResponses.onChunk
  dsimp only
  rw [List.foldl_append, hstart]
  obtain ⟨husage, ids', htracks, hmoves⟩ :=
    (h.onContent (((firstChoice chunk).index "delta").index "content")).append
      fun ids h => h.onCalls (elements (((firstChoice chunk).index "delta").index "tool_calls"))
  exact ⟨congrArg (((usageOf chunk).map responsesUsage).or ·) husage, ids',
    htracks.congr rfl rfl rfl rfl rfl rfl, hmoves⟩

theorem onChunks (h : Tracks s d ids) {usage : Option Value}
    (husage : s.usage = usage.map responsesUsage) (chunks : List Value) :
    (emitAll ChunksToResponses.onChunk s chunks).1.usage =
        (chunks.foldl (fun usage chunk => (usageOf chunk).or usage) usage).map responsesUsage ∧
      ∃ ids', Tracks (emitAll ChunksToResponses.onChunk s chunks).1
          ((parts chunks).foldl Desk.place d) ids' ∧
        Moves (d.phase ids) (emitAll ChunksToResponses.onChunk s chunks).2
          (((parts chunks).foldl Desk.place d).phase ids') := by
  induction chunks generalizing s d ids usage with
  | nil => exact ⟨husage, ids, h, Moves.nil _⟩
  | cons chunk chunks ih =>
    obtain ⟨hnext, ids', htracks, hmoves⟩ := h.onChunk chunk
    have hlatest : (s.onChunk chunk).1.usage = ((usageOf chunk).or usage).map responsesUsage := by
      rw [hnext, husage]
      cases usageOf chunk <;> rfl
    obtain ⟨hlast, ids'', htracks', hmoves'⟩ := ih htracks hlatest
    unfold parts
    rw [List.flatMap_cons, List.foldl_append]
    exact ⟨hlast, ids'', htracks', hmoves.append hmoves'⟩

/-- What is open is closed, and the last event lists all items. -/
theorem finishFrames (h : Tracks s d ids) : ∃ response,
    Moves (d.phase ids) s.finishFrames (.ended (listed d.items) response) ∧
      response.index "output" = .array (listed d.items) ∧
      response.index "usage" = s.usage.getD .null := by
  obtain ⟨husage, ids', htracks, hmoves⟩ := h.close
  have houtput : s.closeOpenItem.1.output = listed d.items := htracks.output
  unfold ChunksToResponses.finishFrames
  generalize s.closeOpenItem = closed at *
  obtain ⟨closed, frames⟩ := closed
  refine ⟨_, hmoves.append (moves_completed _), ?_, ?_⟩
  · rw [houtput]
    split <;> simp [Value.index_ofMembers]
  · rw [husage]
    split <;> simp [Value.index_ofMembers]

end Tracks

/-- The first chunk begins the response. -/
theorem tracks_start (chunk : Value) :
    Tracks (ChunksToResponses.new.start chunk).1 .init [] ∧
      Moves .start (ChunksToResponses.new.start chunk).2 (Desk.init.phase []) :=
  ⟨⟨rfl, rfl, rfl, fun index h => absurd (OrdMap.get?_empty index) h, rfl⟩, moves_created _⟩

/-- What a client of the Responses API reads: a stream within the grammar, whose
last event lists the items, each at the index under which it was streamed. -/
theorem items_streamed {chunks : List Value} (hsome : chunks ≠ []) : ∃ response,
    Moves .start (renderedFrames .responses chunks)
        (.ended (listed (placed (parts chunks))) response) ∧
      response.index "output" = .array (listed (placed (parts chunks))) ∧
      response.index "usage" = ((chunks.foldl (fun usage chunk => (usageOf chunk).or usage)
        none).map responsesUsage).getD .null := by
  obtain ⟨chunk, rest, rfl⟩ := List.exists_cons_of_ne_nil hsome
  obtain ⟨htracks, hstart⟩ := tracks_start chunk
  have hnew : (ChunksToResponses.new.start chunk).1.usage =
      (none : Option Value).map responsesUsage := rfl
  obtain ⟨husage, ids, hrun, hmoves⟩ := htracks.onChunks hnew (chunk :: rest)
  obtain ⟨response, hfinish, houtput, hresponse⟩ := hrun.finishFrames
  refine ⟨response, ?_, houtput, ?_⟩
  · have hfirst : ChunksToResponses.new.onChunk chunk =
        (((ChunksToResponses.new.start chunk).1.onChunk chunk).1,
          (ChunksToResponses.new.start chunk).2 ++
            ((ChunksToResponses.new.start chunk).1.onChunk chunk).2) := rfl
    have hchunks : emitAll ChunksToResponses.onChunk .new (chunk :: rest) =
        ((emitAll ChunksToResponses.onChunk (ChunksToResponses.new.start chunk).1 (chunk :: rest)).1,
          (ChunksToResponses.new.start chunk).2 ++
            (emitAll ChunksToResponses.onChunk (ChunksToResponses.new.start chunk).1
              (chunk :: rest)).2) := by
      show ((emitAll ChunksToResponses.onChunk (ChunksToResponses.new.onChunk chunk).1 rest).1,
        (ChunksToResponses.new.onChunk chunk).2 ++
          (emitAll ChunksToResponses.onChunk (ChunksToResponses.new.onChunk chunk).1 rest).2) = _
      rw [hfirst, List.append_assoc]
      rfl
    have hwrap : emitAll InboundStream.onChunk (.responses .new) (chunk :: rest) =
        (.responses (emitAll ChunksToResponses.onChunk .new (chunk :: rest)).1,
          (emitAll ChunksToResponses.onChunk .new (chunk :: rest)).2) :=
      emitAll_wrap (fun _ _ => rfl) _ _
    have hframes : renderedFrames .responses (chunk :: rest) =
        (emitAll ChunksToResponses.onChunk .new (chunk :: rest)).2 ++
          (emitAll ChunksToResponses.onChunk .new (chunk :: rest)).1.finishFrames := by
      have hresponses : InboundStream.newFor .responses = .responses .new := rfl
      rw [renderedFrames_eq, hresponses, hwrap]
      rfl
    rw [hframes, hchunks]
    exact (hstart.append hmoves).append hfinish
  · rw [hresponse, husage]

end Items

end RapidRouter.Providers
