import RapidRouter.Providers.Anthropic
import RapidRouter.Providers.Failures
import RapidRouter.Providers.Listed
import RapidRouter.Providers.Orderly

/-!
# A stream as an Anthropic client retells it

A client of the Messages API puts a stream's blocks together as it reads it:
a start adds a block, a delta adds to the block of its index, and the input of a
call is parsed once it is complete (`retold`). `openai_response_to_anthropic`
renders the same answer when it was not asked for as a stream (`wholeMessage`).

What is written of orderly parts is held by the client as the items of those
parts, one block an item (`Held`), and `Listed.lean` says how the items compare
with the fold of the chunks. So the two messages have the same text, the same
calls, each with the input its fragments denote, the same reason for stopping and
the same count of output tokens (`anthropic_retold`).
-/

namespace RapidRouter.Providers

open Json Emit Blocks Items
open Codex (finishOf)

namespace Retold

/-! ## What a client holds -/

/-- A content block; of a call, the text of its input so far. -/
inductive Block where
  | text (said : String)
  | tool (id : Value) (name json : String)

namespace Block

def say (more : String) : Block → Block
  | text said => text (said ++ more)
  | block => block

def give (fragment : String) : Block → Block
  | tool id name json => tool id name (json ++ fragment)
  | block => block

/-- The block when it is complete. -/
def value : Block → Value
  | text said => .ofMembers [("type", .string "text"), ("text", .string said)]
  | tool id name json =>
    .ofMembers [("type", .string "tool_use"), ("id", id), ("name", .string name),
      ("input", (fromStr json).getD (.object []))]

/-- The block that an item is written as. -/
def ofItem : Item → Block
  | .message said => text said
  | .call _ id name args => tool (.string id) name args

end Block

/-- What a block is when it starts. -/
def fresh (tool : Option (Value × String)) : Block :=
  (tool.map fun t => Block.tool t.1 t.2 "").getD (.text "")

def hold (blocks : List Block) : StreamEvent → List Block
  | .blockStart _ tool => blocks ++ [fresh tool]
  | .textDelta index text => blocks.modify index (·.say text)
  | .jsonDelta index fragment => blocks.modify index (·.give fragment)
  | _ => blocks

def holdAll (blocks : List Block) (events : List StreamEvent) : List Block :=
  events.foldl hold blocks

theorem holdAll_append (blocks : List Block) (e e' : List StreamEvent) :
    holdAll blocks (e ++ e') = holdAll (holdAll blocks e) e' := List.foldl_append

/-! ## In lock step with the items -/

/-- What is open, for each thing that may have been opened last. -/
def Facing (w : Writer) (d : Desk) : Current → Prop
  | .nothing => w.openBlock = none ∧ d.current = none
  | .text => w.openBlock = some (d.done.length, false) ∧ ∃ said, d.current = some (.message said)
  | .call index => w.openBlock = some (d.done.length, true) ∧
      w.blocks.get? index = some d.done.length ∧
      ∃ id name args, d.current = some (.call index id name args)
  | .again => w.openBlock = some (d.done.length, true) ∧
      ∃ index id name args, d.current = some (.call index id name args)

/-- Writer, parts, items and client after the same parts. -/
structure Held (w : Writer) (p : Progress) (d : Desk) (blocks : List Block) : Prop where
  opened : w.next = p.opened
  bound : p.opened ≤ 2 ^ 64
  items : d.items.length = w.next
  facing : Facing w d p.current
  held : blocks = d.items.map Block.ofItem

theorem items_some (done : List Item) (item : Item) :
    (⟨done, some item⟩ : Desk).items = done ++ [item] := rfl

theorem items_begin (d : Desk) (item : Item) : (d.begin_ item).items = d.items ++ [item] := rfl

/-- A block is closed without a word to what it holds. -/
theorem holdAll_close (w : Writer) (blocks : List Block) :
    holdAll blocks (w.close.2.map wire) = blocks := by
  unfold Writer.close
  cases w.openBlock with
  | none => rfl
  | some block => rfl

theorem holdAll_begin (w : Writer) (blocks : List Block) (tool : Option (Value × String)) :
    holdAll blocks ((w.begin_ tool).2.map wire) = blocks ++ [fresh tool] := by
  rw [Writer.begin_events, holdAll_append, holdAll_close]
  rfl

/-- What is added to the last block. -/
theorem modify_last (blocks : List Block) (block : Block) (f : Block → Block) :
    (blocks ++ [block]).modify blocks.length f = blocks ++ [f block] :=
  modify_middle blocks block [] f

namespace Held

variable {w : Writer} {p : Progress} {d : Desk} {blocks : List Block}

theorem init : Held .init .init .init [] where
  opened := rfl
  bound := Nat.zero_le _
  items := rfl
  facing := ⟨rfl, rfl⟩
  held := rfl

/-- No text block is open unless text was written last. -/
theorem not_text (h : Held w p d blocks) (hcurrent : p.current ≠ .text) (index : Nat) :
    w.openBlock ≠ some (index, false) := by
  intro hopen
  have hfacing := h.facing
  cases hc : p.current with
  | nothing =>
    rw [hc] at hfacing
    rw [hfacing.1] at hopen
    cases hopen
  | text => exact hcurrent hc
  | call i =>
    rw [hc] at hfacing
    rw [hfacing.1] at hopen
    cases hopen
  | again =>
    rw [hc] at hfacing
    rw [hfacing.1] at hopen
    cases hopen

/-- Nor is a message. -/
theorem begins_text (h : Held w p d blocks) (hcurrent : p.current ≠ .text) (text : String) :
    d.place (.text text) = d.begin_ (.message text) := by
  obtain ⟨done, current⟩ := d
  cases current with
  | none => rfl
  | some item =>
    cases item with
    | call index id name args => rfl
    | message said =>
      have hfacing := h.facing
      cases hc : p.current with
      | nothing =>
        rw [hc] at hfacing
        cases hfacing.2
      | text => exact absurd hc hcurrent
      | call i =>
        rw [hc] at hfacing
        obtain ⟨-, -, id, name, args, hcall⟩ := hfacing
        cases hcall
      | again =>
        rw [hc] at hfacing
        obtain ⟨-, index, id, name, args, hcall⟩ := hfacing
        cases hcall

/-- The next item, and the block it is written as. -/
theorem begin_ (h : Held w p d blocks) {current : Current} {p' : Progress}
    (hp : p.open_ current = some p') (item : Item)
    {w' : Writer} (hnext : w'.next = w.next + 1)
    (hfacing : Facing w' (d.begin_ item) current) {block : Block} (hblock : block = .ofItem item) :
    Held w' p' (d.begin_ item) (blocks ++ [block]) := by
  have hopened := h.opened
  have hitems := h.items
  unfold Progress.open_ at hp
  by_cases hlt : p.opened < 2 ^ 64
  · rw [if_pos hlt] at hp
    cases hp
    refine ⟨?_, ?_, ?_, hfacing, ?_⟩
    · show w'.next = p.opened + 1
      omega
    · show p.opened + 1 ≤ 2 ^ 64
      omega
    · rw [items_begin, List.length_append, hitems, hnext]
      rfl
    · rw [items_begin, List.map_append, ← h.held, hblock]
      rfl
  · rw [if_neg hlt] at hp
    cases hp

theorem text (h : Held w p d blocks) {said : String} {p' : Progress}
    (hp : p.next (.text said) = some p') :
    Held (w.onPart (.text said)).1 p' (d.place (.text said))
      (holdAll blocks ((w.onPart (.text said)).2.map wire)) := by
  by_cases hcurrent : p.current = .text
  · -- the message that is open goes on
    have hsame : p.next (.text said) = some p := if_pos hcurrent
    cases hsame.symm.trans hp
    have hfacing := h.facing
    rw [hcurrent] at hfacing
    obtain ⟨hopen, old, hmessage⟩ := hfacing
    obtain ⟨done, current⟩ := d
    cases hmessage
    have hopened := h.opened
    have hbound := h.bound
    have hitems := h.items
    rw [items_some, List.length_append, List.length_singleton] at hitems
    rw [Writer.onPart_text_open hopen]
    refine ⟨hopened, hbound, ?_, ?_, ?_⟩
    · show (done ++ [Item.message (old ++ said)]).length = w.next
      rw [List.length_append, List.length_singleton]
      exact hitems
    · show Facing w ⟨done, some (.message (old ++ said))⟩ p.current
      rw [hcurrent]
      exact ⟨hopen, old ++ said, rfl⟩
    · show blocks.modify (done.length % 2 ^ 64) (·.say said) =
        (done ++ [Item.message (old ++ said)]).map Block.ofItem
      have hlt : done.length % 2 ^ 64 = (done.map Block.ofItem).length := by
        rw [List.length_map, Nat.mod_eq_of_lt (by omega)]
      rw [h.held, hlt, items_some, List.map_append, List.map_append]
      exact modify_last _ _ _
  · have hopen : p.next (.text said) = p.open_ .text := if_neg hcurrent
    rw [hopen] at hp
    have hopened := h.opened
    have hitems := h.items
    have hlt : p.opened < 2 ^ 64 := by
      unfold Progress.open_ at hp
      by_contra hge
      rw [if_neg hge] at hp
      cases hp
    rw [Writer.onPart_text_new (h.not_text hcurrent), h.begins_text hcurrent, List.map_append,
      holdAll_append, holdAll_begin]
    have hlast : holdAll (blocks ++ [fresh none]) ([StreamEvent.textDelta w.next said].map wire) =
        blocks ++ [.text said] := by
      show (blocks ++ [fresh none]).modify (w.next % 2 ^ 64) (·.say said) = _
      have hlength : w.next % 2 ^ 64 = blocks.length := by
        rw [h.held, List.length_map, hitems, Nat.mod_eq_of_lt (by omega)]
      rw [hlength, modify_last]
      exact congrArg (fun text => blocks ++ [Block.text text]) String.empty_append
    rw [hlast]
    refine h.begin_ hp (.message said) rfl ⟨?_, said, rfl⟩ rfl
    show some (w.next, false) = some (d.items.length, false)
    rw [hitems]

theorem name (h : Held w p d blocks) {index : Nat} {id name : String} {p' : Progress}
    (hp : p.next (.name index (.string id) name) = some p') :
    Held (w.onPart (.name index (.string id) name)).1 p' (d.place (.name index (.string id) name))
      (holdAll blocks ((w.onPart (.name index (.string id) name)).2.map wire)) := by
  have hitems := h.items
  have hwrites : holdAll blocks ((w.onPart (.name index (.string id) name)).2.map wire) =
      blocks ++ [.tool (.string id) name ""] := holdAll_begin w blocks (some (.string id, name))
  rw [hwrites]
  refine h.begin_ hp (.call index id name "") rfl ?_ rfl
  have hopen : (w.onPart (.name index (.string id) name)).1.openBlock =
      some (d.items.length, true) := by
    rw [hitems]
    rfl
  by_cases hbegun : index ∈ p.begun
  · rw [if_pos hbegun]
    exact ⟨hopen, index, id, name, "", rfl⟩
  · rw [if_neg hbegun]
    refine ⟨hopen, ?_, id, name, "", rfl⟩
    show (w.blocks.insert index w.next).get? index = some d.items.length
    rw [OrdMap.get?_insert_self, hitems]

theorem args (h : Held w p d blocks) {index : Nat} {fragment : String} {p' : Progress}
    (hp : p.next (.args index fragment) = some p') :
    Held (w.onPart (.args index fragment)).1 p' (d.place (.args index fragment))
      (holdAll blocks ((w.onPart (.args index fragment)).2.map wire)) := by
  by_cases hcurrent : p.current = .call index
  · have hnext : p.next (.args index fragment) = some { p with begun := index :: p.begun } :=
      if_pos hcurrent
    cases hnext.symm.trans hp
    have hfacing := h.facing
    rw [hcurrent] at hfacing
    obtain ⟨hopen, hblock, id, name, args, hcall⟩ := hfacing
    obtain ⟨done, current⟩ := d
    cases hcall
    have hopened := h.opened
    have hbound := h.bound
    have hitems := h.items
    rw [items_some, List.length_append, List.length_singleton] at hitems
    have hplace : Desk.place ⟨done, some (.call index id name args)⟩ (.args index fragment) =
        ⟨done, some (.call index id name (args ++ fragment))⟩ := if_pos rfl
    rw [Writer.onPart_args_some hblock, hplace]
    refine ⟨hopened, hbound, ?_, ?_, ?_⟩
    · show (done ++ [Item.call index id name (args ++ fragment)]).length = w.next
      rw [List.length_append, List.length_singleton]
      exact hitems
    · show Facing w ⟨done, some (.call index id name (args ++ fragment))⟩ p.current
      rw [hcurrent]
      exact ⟨hopen, hblock, id, name, args ++ fragment, rfl⟩
    · show blocks.modify (done.length % 2 ^ 64) (·.give fragment) =
        (done ++ [Item.call index id name (args ++ fragment)]).map Block.ofItem
      have hlt : done.length % 2 ^ 64 = (done.map Block.ofItem).length := by
        rw [List.length_map, Nat.mod_eq_of_lt (by omega)]
      rw [h.held, hlt, items_some, List.map_append, List.map_append]
      exact modify_last _ _ _
  · have hnone : p.next (.args index fragment) = none := if_neg hcurrent
    cases hnone.symm.trans hp

/-- Every part, when a call's id is a string. -/
theorem next (h : Held w p d blocks) {x : Part} {p' : Progress} (hp : p.next x = some p')
    (hid : ∀ n ∈ namings [x], ∃ id, n.2.1 = .string id) :
    Held (w.onPart x).1 p' (d.place x) (holdAll blocks ((w.onPart x).2.map wire)) := by
  cases x with
  | text said => exact h.text hp
  | name index id name =>
    obtain ⟨s, hs⟩ := hid (index, id, name) List.mem_cons_self
    cases hs
    exact h.name hp
  | args index fragment => exact h.args hp

/-- By induction on the parts: what is written of them is held as their items. -/
theorem run {ps : List Part} {p' : Progress} (h : Held w p d blocks)
    (hp : ps.foldlM Progress.next p = some p')
    (hids : ∀ n ∈ namings ps, ∃ id, n.2.1 = .string id) :
    Held (emitAll Writer.onPart w ps).1 p' (ps.foldl Desk.place d)
      (holdAll blocks ((emitAll Writer.onPart w ps).2.map wire)) := by
  induction ps generalizing w p d blocks with
  | nil =>
    cases hp
    exact h
  | cons x ps ih =>
    obtain ⟨p₁, hx, hps⟩ := Option.bind_eq_some_iff.mp ((List.foldlM_cons ..).symm.trans hp)
    rw [namings_cons x ps] at hids
    have hfirst := h.next hx fun n hn => hids n (List.mem_append_left _ hn)
    rw [onParts_cons, holdAll_append]
    exact ih hfirst hps fun n hn => hids n (List.mem_append_right _ hn)

end Held

/-! ## Settled chunks -/

theorem namings_append (xs ys : List Part) : namings (xs ++ ys) = namings xs ++ namings ys :=
  List.filterMap_append

theorem namings_args (index : Nat) (fragment : Option String) :
    namings (fragment.toList.map (Part.args index)) = [] := by
  cases fragment <;> rfl

/-- What is told of calls, and the parts that tell it. -/
structure Told (t : Telling) (p : Progress) : Prop where
  begun : ∀ index ∈ p.begun, index ∈ t.named
  named : ∀ index id, t.current = some (index, id) → index ∈ t.named
  current : ∀ index id, t.current = some (index, id) → p.current = .call index

namespace Told

variable {t t' : Telling} {p : Progress}

theorem init : Told .init .init where
  begun := fun _ h => by cases h
  named := fun _ _ h => by cases h
  current := fun _ _ h => by cases h

/-- There is room for one more block. -/
theorem open_eq {current : Current} (hroom : p.opened < 2 ^ 64) :
    p.open_ current = some { p with opened := p.opened + 1, current := current } := if_pos hroom

theorem text (h : Told t p) (said : String) (hroom : p.opened < 2 ^ 64) :
    ∃ p', p.next (.text said) = some p' ∧ p'.opened ≤ p.opened + 1 ∧
      Told { t with current := none } p' := by
  by_cases hcurrent : p.current = .text
  · exact ⟨p, if_pos hcurrent, Nat.le_succ _, h.begun, fun _ _ h => (by cases h),
      fun _ _ h => (by cases h)⟩
  · refine ⟨_, (if_neg hcurrent).trans (open_eq hroom), le_rfl, h.begun, fun _ _ h => (by cases h),
      fun _ _ h => (by cases h)⟩

/-- Arguments for the call that is open. -/
theorem args (h : Told t p) {index : Nat} {id : String} (hopen : t.current = some (index, id))
    (fragment : Option String) : ∃ p',
      (fragment.toList.map (Part.args index)).foldlM Progress.next p = some p' ∧
        p'.opened = p.opened ∧ Told t p' := by
  cases fragment with
  | none => exact ⟨p, rfl, rfl, h⟩
  | some fragment =>
    have hnext : p.next (.args index fragment) = some { p with begun := index :: p.begun } :=
      if_pos (h.current index id hopen)
    refine ⟨{ p with begun := index :: p.begun }, ?_, rfl, ?_, h.named, h.current⟩
    · show (p.next (.args index fragment)).bind pure = _
      rw [hnext]
      rfl
    · intro i hi
      rcases List.mem_cons.mp hi with rfl | hi
      · exact h.named i id hopen
      · exact h.begun i hi

/-- A call that gives a name has not been given arguments before. -/
theorem name (h : Told t p) {index : Nat} (id : String) (value : Value) (name : String)
    (hnew : index ∉ t.named) (hroom : p.opened < 2 ^ 64) :
    ∃ p', p.next (.name index value name) = some p' ∧ p'.opened ≤ p.opened + 1 ∧
      Told ⟨index :: t.named, some (index, id)⟩ p' := by
  have hbegun : index ∉ p.begun := fun hmem => hnew (h.begun index hmem)
  have hnext : p.next (.name index value name) = p.open_ (.call index) :=
    congrArg p.open_ (if_neg hbegun)
  refine ⟨_, hnext.trans (open_eq hroom), le_rfl, ?_, ?_, ?_⟩
  · exact fun i hi => List.mem_cons_of_mem _ (h.begun i hi)
  · intro i id' hcurrent
    cases hcurrent
    exact List.mem_cons_self
  · intro i id' hcurrent
    cases hcurrent
    rfl

/-- One entry, and what follows of its parts. -/
theorem entry (h : Told t p) {e : Entry} (he : t.next e = some t')
    (hroom : p.opened + e.parts.length ≤ 2 ^ 64) :
    (∃ p', e.parts.foldlM Progress.next p = some p' ∧ p'.opened ≤ p.opened + e.parts.length ∧
      Told t' p') ∧ ∀ n ∈ namings e.parts, ∃ id, n.2.1 = .string id := by
  cases e with
  | text said =>
    cases he
    obtain ⟨p', hp, hopened, htold⟩ := h.text said hroom
    refine ⟨⟨p', ?_, hopened, htold⟩, fun n hn => by cases hn⟩
    show (p.next (.text said)).bind pure = _
    rw [hp]
    rfl
  | call value =>
    unfold Telling.next at he
    dsimp only at he
    unfold Entry.parts callParts at hroom ⊢
    dsimp only at hroom ⊢
    cases hname : ((value.index "function").index "name").asStr with
    | some name =>
      rw [hname] at he hroom
      dsimp only at he
      obtain ⟨id, hid, hnew⟩ := Option.bind_eq_some_iff.mp he
      by_cases hmem : toolIndex value ∈ t.named
      · rw [if_pos hmem] at hnew
        cases hnew
      · rw [if_neg hmem] at hnew
        cases hnew
        rw [List.length_append] at hroom
        have hlt : p.opened < 2 ^ 64 := by
          have hone : ((some name).toList.map fun name =>
            Part.name (toolIndex value) (value.index "id") name).length = 1 := rfl
          omega
        obtain ⟨p₁, hp₁, hopened₁, htold₁⟩ := h.name id (value.index "id") name hmem hlt
        obtain ⟨p', hp', hopened', htold'⟩ := htold₁.args rfl
          (nonEmptyStr ((value.index "function").index "arguments"))
        refine ⟨⟨p', ?_, ?_, htold'⟩, fun n hn => ?_⟩
        · rw [List.foldlM_append]
          show ((p.next (.name (toolIndex value) (value.index "id") name)).bind pure).bind _ = _
          rw [hp₁]
          exact hp'
        · rw [List.length_append, List.length_map]
          show p'.opened ≤ p.opened + (1 + _)
          omega
        · have hids := Value.eq_string_of_asStr hid
          rw [namings_append, namings_args, List.append_nil] at hn
          cases List.mem_singleton.mp hn
          exact ⟨id, hids⟩
    | none =>
      rw [hname] at he hroom
      dsimp only at he
      have hnone : ∀ n ∈ namings (List.map (fun name => Part.name (toolIndex value)
          (value.index "id") name) (none : Option String).toList ++ List.map
            (fun fragment => Part.args (toolIndex value) fragment)
            (nonEmptyStr ((value.index "function").index "arguments")).toList),
          ∃ id, n.2.1 = .string id := by
        intro n hn
        rw [namings_append, namings_args] at hn
        cases hn
      by_cases hsays : Telling.SaysNothing value ∨ t.goesOn value = true
      · rw [if_pos hsays] at he
        cases he
        rcases hsays with hnothing | hgoes
        · rw [hnothing.2] at hroom ⊢
          exact ⟨⟨p, rfl, Nat.le_add_right _ _, h⟩, fun n hn => by cases hn⟩
        · unfold Telling.goesOn at hgoes
          cases hopen : t.current with
          | none =>
            rw [hopen] at hgoes
            cases hgoes
          | some call =>
            rw [hopen] at hgoes
            have hindex : call.1 = toolIndex value := (of_decide_eq_true hgoes).1
            have hcurrent : t.current = some (toolIndex value, call.2) :=
              hopen.trans (congrArg some (Prod.ext hindex rfl))
            obtain ⟨p', hp', hopened, htold⟩ := h.args hcurrent
              (nonEmptyStr ((value.index "function").index "arguments"))
            exact ⟨⟨p', hp', by omega, htold⟩, hnone⟩
      · rw [if_neg hsays] at he
        cases he

/-- By induction on the entries: there is room for each part. -/
theorem run {es : List Entry} (h : Told t p) (he : es.foldlM Telling.next t = some t')
    (hroom : p.opened + (es.flatMap Entry.parts).length ≤ 2 ^ 64) :
    ((es.flatMap Entry.parts).foldlM Progress.next p).isSome = true ∧
      ∀ n ∈ namings (es.flatMap Entry.parts), ∃ id, n.2.1 = .string id := by
  induction es generalizing t p with
  | nil => exact ⟨rfl, fun n hn => by cases hn⟩
  | cons e es ih =>
    obtain ⟨t₁, hfirst, hrest⟩ := Option.bind_eq_some_iff.mp ((List.foldlM_cons ..).symm.trans he)
    rw [List.flatMap_cons] at hroom ⊢
    rw [List.length_append] at hroom
    obtain ⟨⟨p₁, hp, hopened, htold⟩, hids⟩ := h.entry hfirst (by omega)
    obtain ⟨hsome, hids'⟩ := ih htold hrest (by omega)
    rw [List.foldlM_append, hp]
    refine ⟨hsome, fun n hn => ?_⟩
    rw [namings_append] at hn
    rcases List.mem_append.mp hn with hn | hn
    · exact hids n hn
    · exact hids' n hn

end Told

/-- Chunks that tell each call in one go are in the order a client needs. -/
theorem orderly_of_settled {chunks : List Value} (h : Settled chunks)
    (hroom : (parts chunks).length ≤ 2 ^ 64) :
    Orderly (parts chunks) ∧ ∀ n ∈ namings (parts chunks), ∃ id, n.2.1 = .string id := by
  obtain ⟨t, ht⟩ := Option.isSome_iff_exists.mp h
  rw [← parts_entries] at hroom ⊢
  exact Told.init.run ht (by rw [show Progress.init.opened = 0 from rfl]; omega)

/-! ## The two messages -/

/-- What a client takes from a message. -/
structure Message where
  content : List Value
  stopReason : Value
  outputTokens : Value

/-- The blocks that a stream's events come to. -/
def blocksOf (frames : List SseFrame) : List Block := holdAll [] (frames.filterMap Blocks.readFrame)

def endData : SseFrame → Option Value
  | .event name data => if name = "message_delta" then some data else none
  | _ => none

def retold (frames : List SseFrame) : Message :=
  let ending := (frames.findSome? endData).getD .null
  { content := (blocksOf frames).map Block.value
    stopReason := (ending.index "delta").index "stop_reason"
    outputTokens := (ending.index "usage").index "output_tokens" }

/-- A message that was not streamed. -/
def told (message : Value) : Message :=
  { content := elements (message.index "content")
    stopReason := message.index "stop_reason"
    outputTokens := (message.index "usage").index "output_tokens" }

/-- The answer rendered whole. -/
def wholeMessage (chunks : List Value) : Value := openaiResponseToAnthropic (aggregateChunks chunks)

def blockText (block : Value) : Option String :=
  if (block.index "type").asStr = some "text" then (block.index "text").asStr else none

/-- The texts of the blocks, one after the other. -/
def saidOf (content : List Value) : String := String.join (content.filterMap blockText)

def isTool (block : Value) : Bool := (block.index "type").asStr = some "tool_use"

def toolsOf (content : List Value) : List Value := content.filter isTool

/-- What a message says that another one says too, of the answer that chunks
deliver. -/
structure Agree (chunks : List Value) (m whole : Message) : Prop where
  text : saidOf m.content = saidOf whole.content
  tools : toolsOf m.content = (namings (parts chunks)).map fun n =>
    (toolsOf whole.content).getD n.1 .null
  /-- Named in the order of their indices, they are in the same order. -/
  inOrder : (namings (parts chunks)).map Prod.fst = List.range (toolsOf whole.content).length →
    toolsOf m.content = toolsOf whole.content
  stopReason : m.stopReason = whole.stopReason
  tokens : ReportsUsage chunks → ∀ n, whole.outputTokens.asU64 = some n →
    m.outputTokens = whole.outputTokens

/-! ### The blocks -/

theorem filterMap_reads {frames : List SseFrame} {events : List StreamEvent}
    (h : OpenAiToAnthropicStream.Reads frames events) :
    frames.filterMap Blocks.readFrame = events.map wire := by
  have hmap : frames.filterMap Blocks.readFrame = (frames.map Blocks.readFrame).filterMap id := by
    rw [List.filterMap_map]
    rfl
  rw [hmap, h, List.filterMap_map]
  exact List.filterMap_eq_map (f := wire) ▸ rfl

/-- A client holds the items of the parts. -/
theorem blocks_retold {chunks : List Value} (horderly : Orderly (parts chunks))
    (hids : ∀ n ∈ namings (parts chunks), ∃ id, n.2.1 = .string id) :
    blocksOf (renderedFrames (.dialect .anthropic) chunks) =
      (placed (parts chunks)).map Block.ofItem := by
  cases chunks with
  | nil =>
    rw [anthropic_frames]
    rfl
  | cons chunk chunks =>
    have hreads := renderedFrames_reads chunk chunks
    obtain ⟨p, hp⟩ := Option.isSome_iff_exists.mp horderly
    have hheld := (Held.init.run hp hids).held
    unfold blocksOf
    rw [filterMap_reads hreads, List.map_cons, List.map_append, List.map_append]
    -- what surrounds the blocks leaves them as they are
    show holdAll [] (_ ++ _ ++ [StreamEvent.messageDelta, .messageStop]) = _
    rw [holdAll_append, holdAll_append, holdAll_close]
    exact hheld

theorem read_text (said : String) :
    blockText (Block.text said).value = some said ∧ isTool (Block.text said).value = false := by
  unfold blockText isTool Block.value
  simp [Value.index_ofMembers, Value.asStr]

theorem read_tool (id : Value) (name json : String) :
    blockText (Block.tool id name json).value = none ∧
      isTool (Block.tool id name json).value = true := by
  unfold blockText isTool Block.value
  simp [Value.index_ofMembers, Value.asStr]

/-- A call's block. -/
def toolBlock (call : String × String × String) : Value :=
  (Block.tool (.string call.1) call.2.1 call.2.2).value

theorem saidOf_items (items : List Item) :
    saidOf ((items.map Block.ofItem).map Block.value) = String.join (items.map Item.said) := by
  unfold saidOf
  induction items with
  | nil => rfl
  | cons item items ih =>
    rw [List.map_cons, List.map_cons, List.map_cons, String.join_cons, ← ih]
    cases item with
    | message said =>
      have htext : blockText (Block.ofItem (.message said)).value = some said := (read_text said).1
      rw [List.filterMap_cons_some htext, String.join_cons]
      rfl
    | call index id name args =>
      have hnone : blockText (Block.ofItem (.call index id name args)).value = none :=
        (read_tool (.string id) name args).1
      rw [List.filterMap_cons_none hnone]
      exact String.empty_append.symm

theorem toolsOf_items (items : List Item) :
    toolsOf ((items.map Block.ofItem).map Block.value) =
      (items.filterMap Item.entry?).map fun e => toolBlock e.2 := by
  unfold toolsOf
  induction items with
  | nil => rfl
  | cons item items ih =>
    rw [List.map_cons, List.map_cons]
    cases item with
    | message said =>
      have hnot : ¬ isTool (Block.ofItem (.message said)).value = true :=
        Bool.not_eq_true _ ▸ (read_text said).2
      rw [List.filter_cons_of_neg hnot, ih]
      rfl
    | call index id name args =>
      have htool : isTool (Block.ofItem (.call index id name args)).value = true :=
        (read_tool (.string id) name args).2
      rw [List.filter_cons_of_pos htool, ih]
      rfl

/-! ### The whole message -/

/-- What is rendered of a completion is what a client takes from it. -/
theorem told_answer (completion : Value) :
    told (openaiResponseToAnthropic completion) =
      { content := (nonEmptyStr (answer completion).content).toList.map (fun text =>
            (Block.text text).value) ++
          (answer completion).calls.map fun call =>
            Value.ofMembers [("type", .string "tool_use"), ("id", call.id), ("name", call.name),
              ("input", (call.arguments.asStr.bind fromStr).getD (.object []))]
        stopReason := .string (fromFinish (answer completion).finish.asStr)
        outputTokens := (answer completion).usage.index "completion_tokens" } := by
  unfold told openaiResponseToAnthropic answer elements
  simp [Value.index_ofMembers, Value.asArray]
  rfl

theorem told_whole (chunks : List Value) :
    told (wholeMessage chunks) =
      let a := chunks.foldl Aggregate.onChunk .init
      { content := (if a.content = "" then [] else [(Block.text a.content).value]) ++
          a.calls.map toolBlock
        stopReason := .string (fromFinish (some a.finish))
        outputTokens := (a.usage.getD .null).index "completion_tokens" } := by
  unfold wholeMessage aggregateChunks
  generalize chunks.foldl Aggregate.onChunk .init = a
  rw [told_answer, answer_completion]
  dsimp only
  have htext : (nonEmptyStr (if a.content ≠ "" ∨ a.calls = [] then .string a.content
      else .null)).toList.map (fun text => (Block.text text).value) =
        if a.content = "" then [] else [(Block.text a.content).value] := by
    by_cases hempty : a.content = ""
    · rw [if_pos hempty, hempty]
      split <;> rfl
    · rw [if_neg hempty, if_pos (Or.inl hempty)]
      have hsome : nonEmptyStr (.string a.content) = some a.content := by
        simp [nonEmptyStr, Value.asStr, Option.filter, hempty]
      rw [hsome]
      rfl
  rw [htext, List.map_map]
  rfl

theorem saidOf_whole (text : String) (calls : List (String × String × String)) :
    saidOf ((if text = "" then [] else [(Block.text text).value]) ++ calls.map toolBlock) =
      text := by
  have hcalls : (calls.map toolBlock).filterMap blockText = [] := by
    refine List.filterMap_eq_nil_iff.mpr fun block hblock => ?_
    obtain ⟨call, -, rfl⟩ := List.mem_map.mp hblock
    exact (read_tool _ _ _).1
  unfold saidOf
  rw [List.filterMap_append, hcalls, List.append_nil]
  split
  · next hempty => exact hempty.symm
  · rw [List.filterMap_cons_some (read_text text).1]
    simp

theorem toolsOf_whole (text : String) (calls : List (String × String × String)) :
    toolsOf ((if text = "" then [] else [(Block.text text).value]) ++ calls.map toolBlock) =
      calls.map toolBlock := by
  have htext : (if text = "" then [] else [(Block.text text).value]).filter isTool = [] := by
    split
    · rfl
    · rw [List.filter_cons_of_neg (Bool.not_eq_true _ ▸ (read_text text).2)]
      rfl
  unfold toolsOf
  rw [List.filter_append, htext, List.nil_append]
  refine List.filter_eq_self.mpr fun block hblock => ?_
  obtain ⟨call, -, rfl⟩ := List.mem_map.mp hblock
  exact (read_tool _ _ _).2

/-! ### The end -/

section End

open OpenAiToAnthropicStream

/-- Before the end of the stream: the usage is what it was, and no frame says why
the message stops. -/
def Before (s : OpenAiToAnthropicStream) (r : OpenAiToAnthropicStream × List SseFrame) : Prop :=
  r.1.usage = s.usage ∧ ∀ f ∈ r.2, endData f = none

variable (s : OpenAiToAnthropicStream)

theorem endData_event {name : String} (hname : name ≠ "message_delta") (data : Value) :
    endData (.event name data) = none := if_neg hname

theorem endData_append {a b : List SseFrame} (ha : ∀ f ∈ a, endData f = none)
    (hb : ∀ f ∈ b, endData f = none) : ∀ f ∈ a ++ b, endData f = none := by
  intro f hf
  rcases List.mem_append.mp hf with hf | hf
  · exact ha f hf
  · exact hb f hf

theorem endData_one {f : SseFrame} (hf : endData f = none) : ∀ g ∈ [f], endData g = none := by
  intro g hg
  rw [List.mem_singleton.mp hg]
  exact hf

theorem before_close : Before s s.closeOpenBlock := by
  unfold closeOpenBlock
  split
  · exact ⟨rfl, endData_one (endData_event (by simp) _)⟩
  · exact ⟨rfl, fun f hf => by cases hf⟩

theorem before_content (content : Value) : Before s (s.onContent content) := by
  unfold onContent
  split
  · next text _ =>
    unfold onText
    dsimp only
    split
    · exact ⟨rfl, endData_one (endData_event (by simp) _)⟩
    · obtain ⟨husage, hframes⟩ := before_close s
      exact ⟨husage, endData_append hframes (endData_append (a := [_])
        (endData_one (endData_event (by simp) _)) (endData_one (endData_event (by simp) _)))⟩
  · exact ⟨rfl, fun f hf => by cases hf⟩

theorem before_call (call : Value) : Before s (s.onCall call) := by
  have hname : Before s (s.onName call) := by
    unfold onName
    split
    · obtain ⟨husage, hframes⟩ := before_close s
      exact ⟨husage, endData_append hframes (endData_one (endData_event (by simp) _))⟩
    · exact ⟨rfl, fun f hf => by cases hf⟩
  refine ⟨hname.1, endData_append hname.2 ?_⟩
  unfold argumentDeltas
  split
  · exact endData_one (endData_event (by simp) _)
  · exact fun f hf => by cases hf

theorem before_calls (calls : List Value) : Before s (emitAll onCall s calls) :=
  emitAll_forall (I := fun t : OpenAiToAnthropicStream => t.usage = s.usage)
    (Q := fun f => endData f = none)
    (fun t call _ ht => ⟨(before_call t call).1.trans ht, (before_call t call).2⟩) rfl

theorem onChunk_usage (chunk : Value) :
    (s.onChunk chunk).1.usage = (usageOf chunk).or s.usage ∧
      ∀ f ∈ (s.onChunk chunk).2, endData f = none := by
  let delta := (firstChoice chunk).index "delta"
  have hcontent := before_content { s with started := true } (delta.index "content")
  have hcalls := before_calls ({ s with started := true }.onContent (delta.index "content")).1
    (elements (delta.index "tool_calls"))
  unfold onChunk
  dsimp only
  refine ⟨?_, endData_append (endData_append ?_ hcontent.2) hcalls.2⟩
  · rw [hcalls.1, hcontent.1]
  · split
    · exact fun f hf => by cases hf
    · exact endData_one (endData_event (by simp) _)

theorem onChunks_usage (chunks : List Value) :
    (emitAll onChunk s chunks).1.usage =
        chunks.foldl (fun usage chunk => (usageOf chunk).or usage) s.usage ∧
      ∀ f ∈ (emitAll onChunk s chunks).2, endData f = none := by
  induction chunks generalizing s with
  | nil => exact ⟨rfl, fun f hf => by cases hf⟩
  | cons chunk chunks ih =>
    obtain ⟨husage, hframes⟩ := onChunk_usage s chunk
    obtain ⟨hlast, hrest⟩ := ih (s.onChunk chunk).1
    rw [husage] at hlast
    exact ⟨hlast, endData_append hframes hrest⟩

theorem findSome?_frames {frames : List SseFrame} (h : ∀ f ∈ frames, endData f = none)
    (rest : List SseFrame) : (frames ++ rest).findSome? endData = rest.findSome? endData := by
  rw [List.findSome?_append, List.findSome?_eq_none_iff.mpr h]
  rfl

/-- Why a streamed message stops, and how many tokens it counts. -/
theorem retold_end (chunks : List Value) :
    (retold (renderedFrames (.dialect .anthropic) chunks)).stopReason =
        .string (fromFinish (chunks.filterMap finishOf).getLast?) ∧
      (retold (renderedFrames (.dialect .anthropic) chunks)).outputTokens =
        .ofU64 (((chunks.foldl (fun usage chunk => (usageOf chunk).or usage) none).bind fun u =>
          (u.index "completion_tokens").asU64).getD 0) := by
  obtain ⟨husage, hframes⟩ := onChunks_usage .new chunks
  obtain ⟨hfinish, -⟩ := OpenAiToAnthropicStream.new.onChunks_end chunks
  rw [anthropic_frames]
  generalize emitAll onChunk .new chunks = run at husage hframes hfinish
  obtain ⟨hkept, hclosed⟩ := before_close run.1
  have hsame := run.1.silent_close.1
  have hfind : (run.2 ++ run.1.finishFrames).findSome? endData = endData
      (messageDelta run.1.closeOpenBlock.1.finish
        ((run.1.closeOpenBlock.1.usage.bind fun u =>
          (u.index "completion_tokens").asU64).getD 0)) := by
    rw [findSome?_frames hframes]
    unfold finishFrames
    dsimp only
    rw [findSome?_frames hclosed]
    rfl
  unfold retold
  dsimp only
  rw [hfind, hkept, husage, hsame, hfinish]
  have hnone : OpenAiToAnthropicStream.new.finish = none := rfl
  have hempty : OpenAiToAnthropicStream.new.usage = none := rfl
  rw [hnone, hempty, Option.or_none]
  unfold messageDelta
  simp [endData, Value.index_ofMembers]

end End

/-! ### Together -/

/-- The fold's reason is the last that is given. -/
theorem aggregate_finish (chunks : List Value) (a : Aggregate) :
    some (chunks.foldl Aggregate.onChunk a).finish =
      (chunks.filterMap finishOf).getLast?.or (some a.finish) := by
  induction chunks generalizing a with
  | nil => rfl
  | cons chunk chunks ih =>
    have hstep : (finishOf chunk).or (some a.finish) = some (Aggregate.onChunk a chunk).finish := by
      show _ = some ((finishOf chunk).getD a.finish)
      cases finishOf chunk <;> rfl
    rw [List.foldl_cons, ih, getLast?_finishes, hstep]

theorem fromFinish_stop (finish : Option String) :
    fromFinish (finish.or (some "stop")) = fromFinish finish := by
  cases finish <;> rfl

theorem getD_tools (calls : List (String × String × String)) {i : Nat} (h : i < calls.length) :
    (calls.map toolBlock).getD i .null = toolBlock (calls.getD i blank) := by
  rw [List.getD_eq_getElem?_getD, List.getElem?_map, List.getD_eq_getElem?_getD,
    List.getElem?_eq_getElem h]
  rfl

theorem map_getD_range (tools : List Value) :
    (List.range tools.length).map (tools.getD · .null) = tools := by
  refine List.ext_getElem (by simp) fun i hi hi' => ?_
  rw [List.getElem_map, List.getElem_range, List.getD_eq_getElem?_getD,
    List.getElem?_eq_getElem hi']
  rfl

variable {chunks : List Value}

/-- The calls of the items are those of the fold, each under its index. -/
theorem tools_placed (h : Settled chunks) :
    ((placed (parts chunks)).filterMap Item.entry?).map (fun e => toolBlock e.2) =
      (namings (parts chunks)).map fun n =>
        ((chunks.foldl Aggregate.onChunk .init).calls.map toolBlock).getD n.1 .null := by
  obtain ⟨t, hagrees⟩ := agrees_settled h
  have hnamed := entries_named (parts chunks) .init
  have hindices : (namings (parts chunks)).map (fun n =>
      ((chunks.foldl Aggregate.onChunk .init).calls.map toolBlock).getD n.1 .null) =
      (((parts chunks).foldl Desk.place .init).entries.map Prod.fst).map fun i =>
        ((chunks.foldl Aggregate.onChunk .init).calls.map toolBlock).getD i .null := by
    rw [hnamed]
    show _ = ((namings (parts chunks)).map Prod.fst).map _
    rw [List.map_map]
    rfl
  rw [hindices, List.map_map]
  refine List.map_congr_left fun e he => ?_
  show _ = List.getD _ e.1 _
  rw [getD_tools _ (hagrees.bound e.1 (hagrees.mem_named he)), hagrees.agree e he]

/-- The text of a streamed message is that of the fold. -/
theorem retold_text (h : Settled chunks) (hroom : (parts chunks).length ≤ 2 ^ 64) :
    saidOf (retold (renderedFrames (.dialect .anthropic) chunks)).content =
      (chunks.foldl Aggregate.onChunk .init).content := by
  obtain ⟨horderly, hids⟩ := orderly_of_settled h hroom
  show saidOf ((blocksOf (renderedFrames (.dialect .anthropic) chunks)).map Block.value) = _
  rw [blocks_retold horderly hids, saidOf_items, aggregate_content]
  exact said_parts (parts chunks) .init

/-- Its calls are those of the fold, in the order in which they were named. -/
theorem retold_tools (h : Settled chunks) (hroom : (parts chunks).length ≤ 2 ^ 64) :
    toolsOf (retold (renderedFrames (.dialect .anthropic) chunks)).content =
      ((namings (parts chunks)).map Prod.fst).map fun i =>
        ((chunks.foldl Aggregate.onChunk .init).calls.map toolBlock).getD i .null := by
  obtain ⟨horderly, hids⟩ := orderly_of_settled h hroom
  show toolsOf ((blocksOf (renderedFrames (.dialect .anthropic) chunks)).map Block.value) = _
  rw [blocks_retold horderly hids, toolsOf_items, tools_placed h, List.map_map]
  rfl

/-- What an Anthropic client reads of a stream is the message it would have been
given whole. -/
theorem anthropic_retold (h : Settled chunks) (hroom : (parts chunks).length ≤ 2 ^ 64) :
    Agree chunks (retold (renderedFrames (.dialect .anthropic) chunks))
      (told (wholeMessage chunks)) := by
  obtain ⟨hstop, htokens⟩ := retold_end chunks
  have hcalls : toolsOf (told (wholeMessage chunks)).content =
      (chunks.foldl Aggregate.onChunk .init).calls.map toolBlock := by
    rw [told_whole, toolsOf_whole]
  refine ⟨?_, ?_, fun hindices => ?_, ?_, fun hreports n hn => ?_⟩
  · rw [retold_text h hroom, told_whole, saidOf_whole]
  · rw [retold_tools h hroom, hcalls, List.map_map]
    rfl
  · rw [retold_tools h hroom, hindices, hcalls]
    exact map_getD_range _
  · rw [hstop, told_whole]
    show _ = Value.string (fromFinish (some (chunks.foldl Aggregate.onChunk .init).finish))
    rw [aggregate_finish]
    exact congrArg Value.string (fromFinish_stop _).symm
  · obtain ⟨c, hc, hobject⟩ := hreports.2
    have hreported : (usageOf c).isSome = true := by
      rw [usageOf_eq (hreports.1 c hc), if_pos hobject]
      rfl
    have hlatest : (chunks.foldl (fun usage chunk =>
        (usageOf chunk).or usage) none).isSome = true :=
      latest_isSome (Or.inr ⟨c, hc, hreported⟩)
    obtain ⟨usage, hsome⟩ := Option.isSome_iff_exists.mp hlatest
    have haggregate : (chunks.foldl Aggregate.onChunk .init).usage = some usage :=
      (usage_latest hreports.1 .init).trans hsome
    rw [told_whole] at hn ⊢
    dsimp only at hn ⊢
    rw [haggregate, Option.getD_some] at hn ⊢
    rw [htokens, hsome, Option.bind_some, hn, Anthropic.ofU64_of_asU64 hn]
    rfl

theorem anthropic_retold_mixed : Settled mixed ∧
    Agree mixed (retold (renderedFrames (.dialect .anthropic) mixed)) (told (wholeMessage mixed)) :=
  ⟨by decide, anthropic_retold (by decide) (by decide)⟩

end Retold

end RapidRouter.Providers
