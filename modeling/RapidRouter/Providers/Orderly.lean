import Mathlib.Logic.Function.Basic
import RapidRouter.Providers.Blocks

/-!
# Orderly parts are well-formed streams

The renderer, the client's grammar and the order of the parts, in lock step:
`Linked` says where the three stand after the same parts. An orderly part keeps
them linked (`Linked.next`), and a part that is not orderly is written where the
grammar or the ownership of the blocks forbids it (`Linked.orderly`).
-/

namespace RapidRouter.Providers

open Json Emit

namespace Blocks

theorem landed_append (e e' : List StreamEvent) : landed (e ++ e') = landed e ++ landed e' :=
  List.filterMap_append

theorem toolStarts_append (e e' : List StreamEvent) :
    toolStarts (e ++ e') = toolStarts e ++ toolStarts e' := List.filterMap_append

namespace Writer

/-- Where the grammar stands when the writer stands here. -/
def phase (w : Writer) : Phase := .message w.next w.openBlock

theorem close_landed (w : Writer) : landed (w.close.2.map wire) = [] := by
  unfold close
  cases w.openBlock <;> rfl

theorem close_toolStarts (w : Writer) : toolStarts (w.close.2.map wire) = [] := by
  unfold close
  cases w.openBlock <;> rfl

theorem close_accept {w : Writer} (h : ∀ block, w.openBlock = some block → block.1 < 2 ^ 64) :
    (w.close.2.map wire).foldlM Phase.accept w.phase = some (.message w.next none) := by
  unfold close phase
  cases hopen : w.openBlock with
  | none => rfl
  | some block =>
    obtain ⟨index, tool⟩ := block
    have hindex : index % 2 ^ 64 = index := Nat.mod_eq_of_lt (h _ hopen)
    show Phase.accept (.message w.next (some (index, tool))) (.blockStop (index % 2 ^ 64)) >>= pure = _
    rw [hindex, accept_stop]
    rfl

theorem begin_events (w : Writer) (tool : Option (Value × String)) :
    (w.begin_ tool).2.map wire = w.close.2.map wire ++ [wire (.blockStart w.next tool)] := by
  rw [← List.map_singleton, ← List.map_append]
  rfl

theorem begin_landed (w : Writer) (tool : Option (Value × String)) :
    landed ((w.begin_ tool).2.map wire) = [] := by
  rw [begin_events, landed_append, close_landed]
  rfl

theorem begin_toolStarts (w : Writer) (tool : Option (Value × String)) :
    toolStarts ((w.begin_ tool).2.map wire) = tool.toList.map fun x => (w.next % 2 ^ 64, x) := by
  rw [begin_events, toolStarts_append, close_toolStarts]
  cases tool <;> rfl

/-- A block can be opened while there are indices left. -/
theorem begin_accept {w : Writer} (tool : Option (Value × String))
    (h : ∀ block, w.openBlock = some block → block.1 < 2 ^ 64) (hnext : w.next ≤ 2 ^ 64) :
    ((w.begin_ tool).2.map wire).foldlM Phase.accept w.phase =
      if w.next < 2 ^ 64 then some (w.begin_ tool).1.phase else none := by
  rw [begin_events, List.foldlM_append, close_accept h]
  show (Phase.accept (.message w.next none) (.blockStart (w.next % 2 ^ 64) tool)).bind pure = _
  by_cases hlt : w.next < 2 ^ 64
  · rw [if_pos hlt, Nat.mod_eq_of_lt hlt]
    rw [accept_start]
    rfl
  · have heq : w.next = 2 ^ 64 := by omega
    rw [if_neg hlt, heq]
    rfl

theorem onPart_text_open {w : Writer} {index : Nat} (h : w.openBlock = some (index, false))
    (text : String) : w.onPart (.text text) = (w, [.textDelta index text]) := by
  unfold onPart
  dsimp only
  rw [h]

theorem onPart_text_new {w : Writer} (h : ∀ index, w.openBlock ≠ some (index, false))
    (text : String) : w.onPart (.text text) =
      ((w.begin_ none).1, (w.begin_ none).2 ++ [.textDelta w.next text]) := by
  unfold onPart
  dsimp only
  split
  · rename_i index hopen
    exact absurd hopen (h index)
  · rfl

/-- Nothing but a piece of arguments lands, and it lands once or not at all. -/
theorem onPart_landed (w : Writer) (p : Part) :
    (landed ((w.onPart p).2.map wire)).length ≤ (fragments [p]).length := by
  cases p with
  | text text =>
    by_cases h : ∃ index, w.openBlock = some (index, false)
    · obtain ⟨index, h⟩ := h
      rw [onPart_text_open h]
      exact le_rfl
    · rw [onPart_text_new (not_exists.mp h), List.map_append, landed_append, begin_landed]
      exact le_rfl
  | name index id name =>
    show (landed ((w.begin_ (some (id, name))).2.map wire)).length ≤ 0
    rw [begin_landed]
    exact le_rfl
  | args index fragment =>
    cases h : w.blocks.get? index with
    | none =>
      rw [onPart_args_none h]
      exact Nat.zero_le 1
    | some block =>
      rw [onPart_args_some h]
      exact le_rfl

theorem onParts_landed (w : Writer) (ps : List Part) :
    (landed ((emitAll onPart w ps).2.map wire)).length ≤ (fragments ps).length := by
  induction ps generalizing w with
  | nil => exact le_rfl
  | cons p ps ih =>
    have hhead := onPart_landed w p
    have htail := ih (w.onPart p).1
    show (landed (((w.onPart p).2 ++ (emitAll onPart (w.onPart p).1 ps).2).map wire)).length ≤
      (fragments ([p] ++ ps)).length
    rw [List.map_append, landed_append, List.length_append]
    unfold fragments at *
    rw [List.filterMap_append, List.length_append]
    omega

end Writer

/-! ## In lock step -/

/-- What is open, for each thing that may have been opened last. -/
def Stands (own : Nat → Nat) (w : Writer) (begun : List Nat) : Current → Prop
  | .nothing => w.openBlock = none
  | .text => ∃ block, block < w.next ∧ w.openBlock = some (block, false)
  | .call index => ∃ block, w.openBlock = some (block, true) ∧ w.blocks.get? index = some block ∧
      (∀ i, w.blocks.get? i = some block → i = index) ∧
      (index ∈ begun → own index = block) ∧ ∀ i ∈ begun, own i = block → i = index
  | .again => ∃ block, block < w.next ∧ w.openBlock = some (block, true) ∧
      ∀ i, w.blocks.get? i = some block → i ∈ begun ∧ own i ≠ block

/-- Writer and parts after the same parts, where the arguments of call `i` went
to block `own i`; with the blocks and the names there have been. -/
structure Linked (own : Nat → Nat) (starts names : List (Nat × Value × String)) (w : Writer)
    (p : Progress) : Prop where
  opened : w.next = p.opened
  bound : p.opened ≤ 2 ^ 64
  blocks : ∀ i b, w.blocks.get? i = some b →
    b < w.next ∧ ∃ x, (b, x) ∈ starts ∧ (i, x) ∈ names
  begun : ∀ i ∈ p.begun, own i < w.next ∧ ∃ x, (own i, x) ∈ starts ∧ (i, x) ∈ names
  apart : ∀ i ∈ p.begun, ∀ j ∈ p.begun, own i = own j → i = j
  current : Stands own w p.begun p.current

namespace Linked

variable {own : Nat → Nat} {starts names : List (Nat × Value × String)} {w : Writer} {p : Progress}

theorem init (own : Nat → Nat) : Linked own [] [] .init .init where
  opened := rfl
  bound := Nat.zero_le _
  blocks := fun i _ h => nomatch (OrdMap.get?_empty i).symm.trans h
  begun := fun _ h => nomatch h
  apart := fun _ h => nomatch h
  current := rfl

theorem open_lt (h : Linked own starts names w p) {block : Nat × Bool}
    (hopen : w.openBlock = some block) : block.1 < w.next := by
  have hstands := h.current
  cases hcurrent : p.current with
  | nothing =>
    rw [hcurrent] at hstands
    cases hopen.symm.trans hstands
  | text =>
    rw [hcurrent] at hstands
    obtain ⟨_, hlt, hb⟩ := hstands
    cases hopen.symm.trans hb
    exact hlt
  | call index =>
    rw [hcurrent] at hstands
    obtain ⟨b, hb, hblock, -⟩ := hstands
    cases hopen.symm.trans hb
    exact (h.blocks index b hblock).1
  | again =>
    rw [hcurrent] at hstands
    obtain ⟨b, hlt, hb, -⟩ := hstands
    cases hopen.symm.trans hb
    exact hlt

theorem open_wire (h : Linked own starts names w p) (block : Nat × Bool)
    (hopen : w.openBlock = some block) : block.1 < 2 ^ 64 := by
  have hlt := h.open_lt hopen
  have hopened := h.opened
  have hbound := h.bound
  omega

theorem not_text (h : Linked own starts names w p) (hcurrent : p.current ≠ .text) (index : Nat) :
    w.openBlock ≠ some (index, false) := by
  intro hopen
  have hstands := h.current
  cases hc : p.current with
  | nothing =>
    rw [hc] at hstands
    cases hopen.symm.trans hstands
  | text => exact hcurrent hc
  | call i =>
    rw [hc] at hstands
    obtain ⟨block, hblock, -⟩ := hstands
    cases hopen.symm.trans hblock
  | again =>
    rw [hc] at hstands
    obtain ⟨block, -, hblock, -⟩ := hstands
    cases hopen.symm.trans hblock

/-- What the blocks of the calls say does not change when there are more blocks. -/
theorem begun_mono (h : Linked own starts names w p) (starts' names' : List (Nat × Value × String)) :
    ∀ i ∈ p.begun, own i < w.next + 1 ∧
      ∃ x, (own i, x) ∈ starts ++ starts' ∧ (i, x) ∈ names ++ names' := by
  intro i hi
  obtain ⟨hlt, x, hstart, hname⟩ := h.begun i hi
  exact ⟨Nat.lt_succ_of_lt hlt, x, List.mem_append_left _ hstart, List.mem_append_left _ hname⟩

theorem blocks_mono (h : Linked own starts names w p) (starts' names' : List (Nat × Value × String)) :
    ∀ i b, w.blocks.get? i = some b → b < w.next + 1 ∧
      ∃ x, (b, x) ∈ starts ++ starts' ∧ (i, x) ∈ names ++ names' := by
  intro i b hi
  obtain ⟨hlt, x, hstart, hname⟩ := h.blocks i b hi
  exact ⟨Nat.lt_succ_of_lt hlt, x, List.mem_append_left _ hstart, List.mem_append_left _ hname⟩

theorem open_lt_of_open_ (h : Linked own starts names w p) {current : Current} {p' : Progress}
    (hp : p.open_ current = some p') :
    w.next < 2 ^ 64 ∧ p' = { p with opened := p.opened + 1, current := current } := by
  unfold Progress.open_ at hp
  split at hp
  · rename_i hlt
    rw [h.opened]
    exact ⟨hlt, (Option.some.inj hp).symm⟩
  · cases hp

/-- Text that opens a block. -/
theorem opens_text (h : Linked own starts names w p) {p' : Progress}
    (hp : p.open_ .text = some p') :
    ((w.begin_ none).2.map wire).foldlM Phase.accept w.phase = some (w.begin_ none).1.phase ∧
      Linked own starts names (w.begin_ none).1 p' := by
  obtain ⟨hlt, rfl⟩ := h.open_lt_of_open_ hp
  have hbegun := h.begun_mono [] []
  have hblocks := h.blocks_mono [] []
  simp only [List.append_nil] at hbegun hblocks
  refine ⟨(Writer.begin_accept none h.open_wire hlt.le).trans (if_pos hlt), ?_⟩
  exact {
    opened := congrArg (· + 1) h.opened
    bound := by
      have hopened := h.opened
      show p.opened + 1 ≤ 2 ^ 64
      omega
    blocks := hblocks
    begun := hbegun
    apart := h.apart
    current := ⟨w.next, Nat.lt_succ_self _, rfl⟩ }

/-- A name opens a block of its call. -/
theorem opens_call (h : Linked own starts names w p) {index : Nat} {id : Value} {name : String}
    {p' : Progress} (hp : p.next (.name index id name) = some p') :
    ((w.begin_ (some (id, name))).2.map wire).foldlM Phase.accept w.phase =
        some (w.begin_ (some (id, name))).1.phase ∧
      Linked own (starts ++ [(w.next, id, name)]) (names ++ [(index, id, name)])
        (w.onPart (.name index id name)).1 p' := by
  obtain ⟨hlt, rfl⟩ := h.open_lt_of_open_ hp
  refine ⟨(Writer.begin_accept _ h.open_wire hlt.le).trans (if_pos hlt), ?_⟩
  have hget (i : Nat) : (w.onPart (.name index id name)).1.blocks.get? i =
      if i = index then some w.next else w.blocks.get? i := OrdMap.get?_insert ..
  -- no call has arguments in the new block, and none had it before
  have hnew : ∀ i b, (w.onPart (.name index id name)).1.blocks.get? i = some b → b = w.next →
      i = index := by
    intro i b hi hb
    by_contra hne
    rw [hget, if_neg hne] at hi
    exact absurd (h.blocks i b hi).1 (by omega)
  have hfresh : ∀ i ∈ p.begun, own i ≠ w.next := fun i hi heq =>
    absurd (h.begun i hi).1 (by omega)
  exact {
    opened := congrArg (· + 1) h.opened
    bound := by
      have hopened := h.opened
      show p.opened + 1 ≤ 2 ^ 64
      omega
    blocks := by
      intro i b hi
      rw [hget] at hi
      by_cases heq : i = index
      · rw [if_pos heq] at hi
        cases hi
        cases heq
        exact ⟨Nat.lt_succ_self _, (id, name), List.mem_append_right _ List.mem_cons_self,
          List.mem_append_right _ List.mem_cons_self⟩
      · rw [if_neg heq] at hi
        exact h.blocks_mono _ _ i b hi
    begun := h.begun_mono _ _
    apart := h.apart
    current := by
      by_cases hbegun : index ∈ p.begun
      · show Stands own _ p.begun (if index ∈ p.begun then .again else .call index)
        rw [if_pos hbegun]
        refine ⟨w.next, Nat.lt_succ_self _, rfl, fun i hi => ?_⟩
        cases hnew i _ hi rfl
        exact ⟨hbegun, hfresh _ hbegun⟩
      · show Stands own _ p.begun (if index ∈ p.begun then .again else .call index)
        rw [if_neg hbegun]
        exact ⟨w.next, rfl, (hget index).trans (if_pos rfl), fun i hi => hnew i _ hi rfl,
          fun hi => absurd hi hbegun, fun i hi heq => absurd heq (hfresh i hi)⟩ }

/-- A piece of arguments for the call that is open goes to its block. -/
theorem gives_args (h : Linked own starts names w p) {index : Nat} {fragment : String}
    {p' : Progress} (hp : p.next (.args index fragment) = some p')
    (hown : index ∉ p.begun → w.blocks.get? index = some (own index)) :
    w.onPart (.args index fragment) = (w, [.jsonDelta (own index) fragment]) ∧
      w.openBlock = some (own index, true) ∧ Linked own starts names w p' := by
  have hcurrent : p.current = .call index ∧ { p with begun := index :: p.begun } = p' := by
    change (if p.current = .call index then some { p with begun := index :: p.begun } else none) =
      some p' at hp
    split at hp
    · rename_i hcurrent
      exact ⟨hcurrent, Option.some.inj hp⟩
    · cases hp
  obtain ⟨hcurrent, rfl⟩ := hcurrent
  have hstands := h.current
  rw [hcurrent] at hstands
  obtain ⟨block, hopen, hblock, honly, hkept, halone⟩ := hstands
  have howns : own index = block := by
    by_cases hbegun : index ∈ p.begun
    · exact hkept hbegun
    · exact Option.some.inj ((hown hbegun).symm.trans hblock)
  obtain ⟨hlt, hnamed⟩ := h.blocks index block hblock
  refine ⟨Writer.onPart_args_some (howns ▸ hblock) fragment, howns ▸ hopen, ?_⟩
  exact {
    opened := h.opened
    bound := h.bound
    blocks := h.blocks
    begun := by
      intro i hi
      rcases List.mem_cons.mp hi with rfl | hi
      · rw [howns]
        exact ⟨hlt, hnamed⟩
      · exact h.begun i hi
    apart := by
      intro i hi j hj heq
      rcases List.mem_cons.mp hi with rfl | hi' <;> rcases List.mem_cons.mp hj with rfl | hj'
      · rfl
      · exact (halone j hj' (heq.symm.trans howns)).symm
      · exact halone i hi' (heq.trans howns)
      · exact h.apart i hi' j hj' heq
    current := by
      show Stands own w (index :: p.begun) p.current
      rw [hcurrent]
      refine ⟨block, hopen, hblock, honly, fun _ => howns, fun i hi heq => ?_⟩
      rcases List.mem_cons.mp hi with rfl | hi
      · rfl
      · exact halone i hi heq }

/-- What an orderly part is written as is within the grammar, and what it says of
arguments lands in the block of its call. -/
theorem next (h : Linked own starts names w p) {x : Part} {p' : Progress}
    (hp : p.next x = some p')
    (hown : ∀ i s, x = .args i s → i ∉ p.begun → w.blocks.get? i = some (own i)) :
    ((w.onPart x).2.map wire).foldlM Phase.accept w.phase = some (w.onPart x).1.phase ∧
      landed ((w.onPart x).2.map wire) = (fragments [x]).map (fun f => (own f.1, f.2)) ∧
      Linked own (starts ++ toolStarts ((w.onPart x).2.map wire)) (names ++ namings [x])
        (w.onPart x).1 p' := by
  have hopened := h.opened
  have hbound := h.bound
  cases x with
  | text text =>
    show _ ∧ _ = [] ∧ Linked own _ (names ++ []) _ _
    rw [List.append_nil]
    by_cases hcurrent : p.current = .text
    · have hstands := h.current
      rw [hcurrent] at hstands
      obtain ⟨block, hlt, hopen⟩ := hstands
      have hsame : p = p' := Option.some.inj ((if_pos hcurrent).symm.trans hp)
      rw [Writer.onPart_text_open hopen]
      refine ⟨?_, rfl, ?_⟩
      · show Phase.accept (.message w.next w.openBlock) (.textDelta (block % 2 ^ 64) text) >>= pure = _
        rw [hopen, Nat.mod_eq_of_lt (by omega), accept_text]
        exact congrArg (some <| Phase.message w.next ·) hopen.symm
      · show Linked own (starts ++ []) names w p'
        rw [List.append_nil]
        exact hsame ▸ h
    · obtain ⟨haccept, hlinked⟩ := h.opens_text ((if_neg hcurrent).symm.trans hp)
      have hlt := (h.open_lt_of_open_ ((if_neg hcurrent).symm.trans hp)).1
      rw [Writer.onPart_text_new (h.not_text hcurrent)]
      refine ⟨?_, ?_, ?_⟩
      · rw [List.map_append, List.foldlM_append, haccept]
        show Phase.accept (.message (w.next + 1) (some (w.next, false)))
          (.textDelta (w.next % 2 ^ 64) text) >>= pure = _
        rw [Nat.mod_eq_of_lt hlt, accept_text]
        rfl
      · rw [List.map_append, landed_append, Writer.begin_landed]
        rfl
      · rw [List.map_append, toolStarts_append, Writer.begin_toolStarts]
        show Linked own (starts ++ []) names _ p'
        rw [List.append_nil]
        exact hlinked
  | name index id name =>
    obtain ⟨haccept, hlinked⟩ := h.opens_call hp
    have hlt := (h.open_lt_of_open_ hp).1
    refine ⟨haccept, Writer.begin_landed w _, ?_⟩
    have hstarts := Writer.begin_toolStarts w (some (id, name))
    rw [Nat.mod_eq_of_lt hlt] at hstarts
    show Linked own (starts ++ toolStarts ((w.begin_ (some (id, name))).2.map wire)) _ _ p'
    rw [hstarts]
    exact hlinked
  | args index fragment =>
    obtain ⟨hpart, hopen, hlinked⟩ := h.gives_args hp (hown index fragment rfl)
    have hblock : own index % 2 ^ 64 = own index := Nat.mod_eq_of_lt (h.open_wire _ hopen)
    rw [hpart]
    refine ⟨?_, ?_, ?_⟩
    · show Phase.accept (.message w.next w.openBlock) (.jsonDelta (own index % 2 ^ 64) fragment)
        >>= pure = _
      rw [hopen, hblock, accept_json]
      exact congrArg (some <| Phase.message w.next ·) hopen.symm
    · show [(own index % 2 ^ 64, fragment)] = [(own index, fragment)]
      rw [hblock]
    · show Linked own (starts ++ []) (names ++ []) w p'
      rw [List.append_nil, List.append_nil]
      exact hlinked

/-- Where the arguments of a call that has had none are to go is open. -/
theorem reassign (h : Linked own starts names w p) {index : Nat} (hindex : index ∉ p.begun)
    (block : Nat) : Linked (Function.update own index block) starts names w p := by
  have hkeeps : ∀ i ∈ p.begun, Function.update own index block i = own i := fun i hi =>
    Function.update_of_ne (ne_of_mem_of_not_mem hi hindex) _ _
  exact {
    opened := h.opened
    bound := h.bound
    blocks := h.blocks
    begun := by
      intro i hi
      rw [hkeeps i hi]
      exact h.begun i hi
    apart := by
      intro i hi j hj heq
      rw [hkeeps i hi, hkeeps j hj] at heq
      exact h.apart i hi j hj heq
    current := by
      have hstands := h.current
      cases hc : p.current with
      | nothing =>
        rw [hc] at hstands
        exact hstands
      | text =>
        rw [hc] at hstands
        exact hstands
      | call i =>
        rw [hc] at hstands
        obtain ⟨b, hopen, hblock, honly, hkept, halone⟩ := hstands
        refine ⟨b, hopen, hblock, honly, fun hi => (hkeeps i hi).trans (hkept hi), fun j hj heq => ?_⟩
        exact halone j hj ((hkeeps j hj).symm.trans heq)
      | again =>
        rw [hc] at hstands
        obtain ⟨b, hlt, hopen, hothers⟩ := hstands
        refine ⟨b, hlt, hopen, fun i hi => ?_⟩
        obtain ⟨hbegun, hne⟩ := hothers i hi
        rw [hkeeps i hbegun]
        exact ⟨hbegun, hne⟩ }

/-- The block for the next part's arguments can be chosen. -/
theorem chooses (h : Linked own starts names w p) {x : Part} {p' : Progress}
    (hp : p.next x = some p') :
    ∃ own', (∀ i ∈ p.begun, own' i = own i) ∧ Linked own' starts names w p ∧
      ∀ i s, x = .args i s → i ∉ p.begun → w.blocks.get? i = some (own' i) := by
  cases x with
  | text text => exact ⟨own, fun _ _ => rfl, h, nofun⟩
  | name index id name => exact ⟨own, fun _ _ => rfl, h, nofun⟩
  | args index fragment =>
    by_cases hindex : index ∈ p.begun
    · refine ⟨own, fun _ _ => rfl, h, fun i s hx hi => ?_⟩
      cases hx
      exact absurd hindex hi
    · have hcurrent : p.current = .call index := by
        by_contra hne
        cases (if_neg hne).symm.trans hp
      have hstands := h.current
      rw [hcurrent] at hstands
      obtain ⟨block, -, hblock, -⟩ := hstands
      refine ⟨_, fun i hi => Function.update_of_ne (ne_of_mem_of_not_mem hi hindex) block own,
        h.reassign hindex block, fun i s hx _ => ?_⟩
      cases hx
      rw [Function.update_self]
      exact hblock

end Linked

theorem begun_next {p p' : Progress} {x : Part} (h : p.next x = some p') :
    p'.begun = (fragments [x]).map Prod.fst ++ p.begun := by
  have hopen {current : Current} (h : p.open_ current = some p') : p'.begun = p.begun := by
    unfold Progress.open_ at h
    split at h
    · cases h
      rfl
    · cases h
  cases x with
  | text text =>
    change (if p.current = .text then some p else p.open_ .text) = some p' at h
    split at h
    · cases h
      rfl
    · exact hopen h
  | name index id name => exact hopen h
  | args index fragment =>
    change (if p.current = .call index then some { p with begun := index :: p.begun } else none) =
      some p' at h
    split at h
    · cases h
      rfl
    · cases h

theorem fragments_cons (x : Part) (ps : List Part) :
    fragments (x :: ps) = fragments [x] ++ fragments ps :=
  @List.filterMap_append _ _ [x] ps _

theorem namings_cons (x : Part) (ps : List Part) :
    namings (x :: ps) = namings [x] ++ namings ps :=
  @List.filterMap_append _ _ [x] ps _

theorem onParts_cons (w : Writer) (x : Part) (ps : List Part) :
    (emitAll Writer.onPart w (x :: ps)).2.map wire = (w.onPart x).2.map wire ++
      (emitAll Writer.onPart (w.onPart x).1 ps).2.map wire := List.map_append

/-- Orderly parts are written within the grammar, the arguments of each call in
one block of its own. -/
theorem Linked.run {ps : List Part} {own : Nat → Nat} {starts names : List (Nat × Value × String)}
    {w : Writer} {p p' : Progress} (h : Linked own starts names w p)
    (hp : ps.foldlM Progress.next p = some p') :
    ∃ own', (∀ i ∈ p.begun, own' i = own i ∧ i ∈ p'.begun) ∧
      ((emitAll Writer.onPart w ps).2.map wire).foldlM Phase.accept w.phase =
        some (emitAll Writer.onPart w ps).1.phase ∧
      landed ((emitAll Writer.onPart w ps).2.map wire) =
        (fragments ps).map (fun f => (own' f.1, f.2)) ∧
      (∀ f ∈ fragments ps, f.1 ∈ p'.begun) ∧
      Linked own' (starts ++ toolStarts ((emitAll Writer.onPart w ps).2.map wire))
        (names ++ namings ps) (emitAll Writer.onPart w ps).1 p' := by
  induction ps generalizing own starts names w p with
  | nil =>
    cases hp
    refine ⟨own, fun i hi => ⟨rfl, hi⟩, rfl, rfl, nofun, ?_⟩
    show Linked own (starts ++ []) (names ++ []) w _
    rw [List.append_nil, List.append_nil]
    exact h
  | cons x ps ih =>
    obtain ⟨p₁, hx, hps⟩ := Option.bind_eq_some_iff.mp ((List.foldlM_cons ..).symm.trans hp)
    obtain ⟨own₁, hagree, hlinked, hown⟩ := h.chooses hx
    obtain ⟨haccept, hlanded, hnext⟩ := hlinked.next hx hown
    obtain ⟨own', hkept, haccepts, hlands, hbegun, hlast⟩ := ih hnext hps
    have hgrows := begun_next hx
    have hfirst : ∀ f ∈ fragments [x], f.1 ∈ p₁.begun := fun f hf =>
      hgrows ▸ List.mem_append_left _ (List.mem_map_of_mem hf)
    refine ⟨own', fun i hi => ?_, ?_, ?_, fun f hf => ?_, ?_⟩
    · obtain ⟨heq, hmem⟩ := hkept i (hgrows ▸ List.mem_append_right _ hi)
      exact ⟨heq.trans (hagree i hi), hmem⟩
    · rw [onParts_cons, List.foldlM_append, haccept]
      exact haccepts
    · rw [onParts_cons, landed_append, hlanded, hlands, fragments_cons x ps, List.map_append]
      congr 1
      exact List.map_congr_left fun f hf => by rw [(hkept f.1 (hfirst f hf)).1]
    · rw [fragments_cons x ps] at hf
      rcases List.mem_append.mp hf with hf | hf
      · exact (hkept f.1 (hfirst f hf)).2
      · exact hbegun f hf
    · rw [onParts_cons, toolStarts_append, namings_cons x ps, ← List.append_assoc, ← List.append_assoc]
      exact hlast

/-! ## What is not orderly -/

theorem accept_jsonDelta {next index : Nat} {openBlock : Option (Nat × Bool)} {fragment : String}
    {q : Phase} (h : Phase.accept (.message next openBlock) (.jsonDelta index fragment) = some q) :
    openBlock = some (index, true) := by
  cases openBlock with
  | none => cases h
  | some block =>
    obtain ⟨b, tool⟩ := block
    cases tool with
    | false => cases h
    | true =>
      by_cases heq : index = b
      · rw [heq]
      · cases (if_neg heq).symm.trans h

namespace Linked

variable {own : Nat → Nat} {starts names : List (Nat × Value × String)} {w : Writer} {p : Progress}

/-- A block that was opened within the grammar had an index. -/
theorem opens_of_accept (h : Linked own starts names w p) {tool : Option (Value × String)}
    {q : Phase} (haccept : ((w.begin_ tool).2.map wire).foldlM Phase.accept w.phase = some q)
    (current : Current) : ∃ p', p.open_ current = some p' := by
  have hopened := h.opened
  have hbound := h.bound
  have hbegin := Writer.begin_accept tool h.open_wire (by omega)
  by_cases hlt : w.next < 2 ^ 64
  · exact ⟨_, if_pos (hopened ▸ hlt)⟩
  · rw [if_neg hlt] at hbegin
    cases hbegin.symm.trans haccept

/-- Of a part that is written within the grammar, its arguments in the block of
its call, nothing was out of order. -/
theorem orderly_next (h : Linked own starts names w p) {x : Part} {q : Phase}
    (haccept : ((w.onPart x).2.map wire).foldlM Phase.accept w.phase = some q)
    (hlanded : landed ((w.onPart x).2.map wire) = (fragments [x]).map fun f => (own f.1, f.2)) :
    (∃ p', p.next x = some p') ∧
      ∀ i s, x = .args i s → i ∉ p.begun → w.blocks.get? i = some (own i) := by
  cases x with
  | text text =>
    refine ⟨?_, nofun⟩
    by_cases hcurrent : p.current = .text
    · exact ⟨p, if_pos hcurrent⟩
    · rw [Writer.onPart_text_new (h.not_text hcurrent), List.map_append, List.foldlM_append] at haccept
      obtain ⟨q₁, hbegin, -⟩ := Option.bind_eq_some_iff.mp haccept
      obtain ⟨p', hp⟩ := h.opens_of_accept hbegin .text
      exact ⟨p', (if_neg hcurrent).trans hp⟩
  | name index id name => exact ⟨h.opens_of_accept haccept _, nofun⟩
  | args index fragment =>
    cases hget : w.blocks.get? index with
    | none =>
      rw [Writer.onPart_args_none hget] at hlanded
      cases hlanded
    | some block =>
      rw [Writer.onPart_args_some hget] at hlanded haccept
      have hopened := h.opened
      have hbound := h.bound
      have hlt := (h.blocks index block hget).1
      have hblock : block % 2 ^ 64 = block := Nat.mod_eq_of_lt (by omega)
      change [(block % 2 ^ 64, fragment)] = [(own index, fragment)] at hlanded
      rw [hblock] at hlanded
      have howns : block = own index := (Prod.mk.inj (List.cons.inj hlanded).1).1
      obtain ⟨q₁, hdelta, -⟩ := Option.bind_eq_some_iff.mp haccept
      have hopen := accept_jsonDelta hdelta
      rw [hblock] at hopen
      refine ⟨?_, fun i s hx _ => ?_⟩
      · -- the block that is open is this call's, and only one call's
        have hstands := h.current
        cases hc : p.current with
        | nothing =>
          rw [hc] at hstands
          cases hopen.symm.trans hstands
        | text =>
          rw [hc] at hstands
          obtain ⟨b, -, hb⟩ := hstands
          cases hopen.symm.trans hb
        | call i =>
          rw [hc] at hstands
          obtain ⟨b, hb, -, honly, -⟩ := hstands
          cases hopen.symm.trans hb
          cases honly index hget
          exact ⟨_, if_pos hc⟩
        | again =>
          rw [hc] at hstands
          obtain ⟨b, -, hb, hothers⟩ := hstands
          cases hopen.symm.trans hb
          exact absurd howns.symm (hothers index hget).2
      · cases hx
        exact hget.trans (congrArg some howns)

/-- Only orderly parts are written within the grammar, the arguments of each call
in one block of its own. -/
theorem orderly {ps : List Part} {q : Phase} (h : Linked own starts names w p)
    (haccept : ((emitAll Writer.onPart w ps).2.map wire).foldlM Phase.accept w.phase = some q)
    (hlanded : landed ((emitAll Writer.onPart w ps).2.map wire) =
      (fragments ps).map fun f => (own f.1, f.2)) :
    (ps.foldlM Progress.next p).isSome = true := by
  induction ps generalizing starts names w p with
  | nil => rfl
  | cons x ps ih =>
    rw [onParts_cons, List.foldlM_append] at haccept
    obtain ⟨q₁, hfirst, hrest⟩ := Option.bind_eq_some_iff.mp haccept
    rw [onParts_cons, landed_append, fragments_cons x ps, List.map_append] at hlanded
    -- neither this part nor the rest lands more than it has, so neither lands less
    have hle := Writer.onPart_landed w x
    have hle' := Writer.onParts_landed (w.onPart x).1 ps
    have hlength := congrArg List.length hlanded
    simp only [List.length_append, List.length_map] at hlength
    obtain ⟨hhead, htail⟩ := List.append_inj hlanded (by rw [List.length_map]; omega)
    obtain ⟨⟨p', hp⟩, hown⟩ := h.orderly_next hfirst hhead
    obtain ⟨haccepted, -, hnext⟩ := h.next hp hown
    cases haccepted.symm.trans hfirst
    rw [List.foldlM_cons, hp]
    exact ih hnext hrest htail

end Linked

end Blocks

/-! ## The whole stream -/

open Blocks OpenAiToAnthropicStream

theorem anthropic_frames (chunks : List Value) :
    renderedFrames (.dialect .anthropic) chunks =
      (emitAll onChunk .new chunks).2 ++ (emitAll onChunk .new chunks).1.finishFrames := by
  have hrun := @emitAll_wrap _ _ _ InboundStream.onChunk _ OpenAiToAnthropicStream.onChunk
    .anthropic (fun _ _ => rfl) .new chunks
  show (emitAll InboundStream.onChunk (.anthropic .new) chunks).2 ++
    (emitAll InboundStream.onChunk (.anthropic .new) chunks).1.finishFrames = _
  rw [hrun]
  rfl

theorem finishFrames_reads (self : OpenAiToAnthropicStream) :
    Reads self.finishFrames (self.writer.close.2 ++ [.messageDelta, .messageStop]) :=
  (closeOpenBlock_writes self).2.append
    ((reads_one (readFrame_messageDelta _ _)).append
      (reads_one (readFrame_event (by simp [Value.index_ofMembers, Value.asStr]))))

/-- What a client reads of a stream that began. -/
theorem renderedFrames_reads (chunk : Value) (chunks : List Value) :
    let run := emitAll Writer.onPart .init (parts (chunk :: chunks))
    Reads (renderedFrames (.dialect .anthropic) (chunk :: chunks))
      (.messageStart :: (run.2 ++ run.1.close.2 ++ [.messageDelta, .messageStop])) := by
  intro run
  -- the first chunk is written as a later one, but for the start of the message
  have hfirst : emitAll onChunk .new (chunk :: chunks) =
      ((emitAll onChunk { new with started := true } (chunk :: chunks)).1,
        messageStart chunk :: (emitAll onChunk { new with started := true } (chunk :: chunks)).2) := rfl
  obtain ⟨hwriter, hreads⟩ := emitAll_flatMap (f := onChunk) (g := Writer.onPart) (h := chunkParts)
    (v := writer) (I := fun s => s.started = true) (Q := Reads) rfl Reads.append
    (fun s x hs => onChunk_writes s x hs) (s := { new with started := true }) rfl
    (chunk :: chunks)
  have hfinish := finishFrames_reads
    (emitAll onChunk { new with started := true } (chunk :: chunks)).1
  rw [hwriter] at hfinish
  rw [anthropic_frames, hfirst, List.append_assoc]
  exact (reads_one (readFrame_messageStart chunk)).append (hreads.append hfinish)

theorem OpenAiToAnthropicStream.Reads.wellFormed_iff {ps : List Part} {frames : List SseFrame} {events : List StreamEvent}
    (h : Reads frames events) :
    WellFormed ps frames ↔ (events.map wire).foldlM Phase.accept .start = some .ended ∧
      ∃ own : Nat → Nat,
        landed (events.map wire) = (fragments ps).map (fun f => (own f.1, f.2)) ∧
        (∀ f ∈ fragments ps, ∃ x, (own f.1, x) ∈ toolStarts (events.map wire) ∧
          (f.1, x) ∈ namings ps) ∧
        ∀ f ∈ fragments ps, ∀ g ∈ fragments ps, own f.1 = own g.1 → f.1 = g.1 := by
  have hread : frames.filterMap readFrame = events.map wire := by
    have hmap : frames.filterMap readFrame = (frames.map readFrame).filterMap id := by
      rw [List.filterMap_map]
      rfl
    rw [hmap, h, List.filterMap_map]
    exact List.filterMap_eq_map (f := wire) ▸ rfl
  constructor
  · rintro ⟨-, hgrammar, hown⟩
    rw [hread] at hgrammar hown
    exact ⟨hgrammar, hown⟩
  · rintro ⟨hgrammar, hown⟩
    refine ⟨fun frame hframe => ?_, hread ▸ hgrammar, hread ▸ hown⟩
    obtain ⟨e, -, he⟩ := List.mem_map.mp (h ▸ List.mem_map_of_mem hframe)
    rw [← he]
    rfl

/-! A message is its blocks, between its start and its end. -/

section

variable (run : Writer × List StreamEvent)

theorem message_landed :
    landed ((.messageStart :: (run.2 ++ run.1.close.2 ++ [.messageDelta, .messageStop])).map wire) =
      landed (run.2.map wire) := by
  rw [List.map_cons, List.map_append, List.map_append]
  show landed (_ ++ _ ++ _) = _
  rw [landed_append, landed_append, Writer.close_landed, List.append_nil]
  exact List.append_nil _

theorem message_toolStarts :
    toolStarts ((.messageStart :: (run.2 ++ run.1.close.2 ++ [.messageDelta, .messageStop])).map
      wire) = toolStarts (run.2.map wire) := by
  rw [List.map_cons, List.map_append, List.map_append]
  show toolStarts (_ ++ _ ++ _) = _
  rw [toolStarts_append, toolStarts_append, Writer.close_toolStarts, List.append_nil]
  exact List.append_nil _

theorem message_grammar :
    ((.messageStart :: (run.2 ++ run.1.close.2 ++ [.messageDelta, .messageStop])).map
        wire).foldlM Phase.accept .start =
      (run.2.map wire).foldlM Phase.accept Writer.init.phase >>= fun q =>
        (run.1.close.2.map wire ++ [StreamEvent.messageDelta, .messageStop]).foldlM Phase.accept q := by
  rw [← List.foldlM_append, List.map_cons, List.map_append, List.map_append, List.append_assoc]
  rfl

end

/-- The stream is valid, with the arguments of each call in that call's own block,
exactly when there are chunks and their parts are orderly. -/
theorem anthropic_wellFormed_iff (chunks : List Value) :
    WellFormed (parts chunks) (renderedFrames (.dialect .anthropic) chunks) ↔
      chunks ≠ [] ∧ Orderly (parts chunks) := by
  cases chunks with
  | nil =>
    have hreads : Reads (renderedFrames (.dialect .anthropic) []) [.messageDelta, .messageStop] := by
      rw [anthropic_frames]
      exact finishFrames_reads new
    rw [hreads.wellFormed_iff]
    constructor
    · rintro ⟨hgrammar, -⟩
      cases hgrammar
    · rintro ⟨hne, -⟩
      exact absurd rfl hne
  | cons chunk chunks =>
    rw [(renderedFrames_reads chunk chunks).wellFormed_iff]
    obtain ⟨ps, hps⟩ : ∃ ps, ps = parts (chunk :: chunks) := ⟨_, rfl⟩
    rw [← hps]
    obtain ⟨run, hrun⟩ : ∃ run, run = emitAll Writer.onPart .init ps := ⟨_, rfl⟩
    rw [← hrun, message_landed, message_toolStarts, message_grammar]
    constructor
    · rintro ⟨haccept, own, hland, -, -⟩
      obtain ⟨q, hq, -⟩ := Option.bind_eq_some_iff.mp haccept
      rw [hrun] at hq hland
      exact ⟨List.cons_ne_nil _ _, (Linked.init own).orderly hq hland⟩
    · rintro ⟨-, horderly⟩
      obtain ⟨p, hp⟩ := Option.isSome_iff_exists.mp horderly
      obtain ⟨own, -, haccept, hland, hbegun, hlast⟩ := (Linked.init fun _ => 0).run hp
      rw [← hrun] at haccept hland hlast
      refine ⟨?_, own, hland, fun f hf => ?_, fun f hf g hg => ?_⟩
      · rw [haccept]
        show (run.1.close.2.map wire ++ _).foldlM Phase.accept run.1.phase = _
        rw [List.foldlM_append, Writer.close_accept hlast.open_wire]
        rfl
      · exact (hlast.begun f.1 (hbegun f hf)).2
      · exact hlast.apart f.1 (hbegun f hf) g.1 (hbegun g hg)

def toolDelta (calls : List Value) : Value :=
  .ofMembers [("choices", .array [.ofMembers [("delta", .ofMembers [("tool_calls", .array calls)])]])]

def named (index : Nat) (id name : String) : Value :=
  .ofMembers [("index", .ofU64 index), ("id", .string id),
    ("function", .ofMembers [("name", .string name)])]

def argued (index : Nat) (fragment : String) : Value :=
  .ofMembers [("index", .ofU64 index),
    ("function", .ofMembers [("arguments", .string fragment)])]

/-- Two calls are named, and the first is given arguments: they are written to a
block that is closed. And without chunks there is no message_start. -/
theorem anthropic_wellFormed_lost :
    ¬ WellFormed (parts [toolDelta [named 0 "a" "f", named 1 "b" "g"], toolDelta [argued 0 "1"]])
        (renderedFrames (.dialect .anthropic)
          [toolDelta [named 0 "a" "f", named 1 "b" "g"], toolDelta [argued 0 "1"]]) ∧
      ¬ WellFormed (parts []) (renderedFrames (.dialect .anthropic) []) := by
  constructor
  · intro h
    have hgrammar := h.grammar
    revert hgrammar
    decide
  · intro h
    have hgrammar := h.grammar
    revert hgrammar
    decide

end RapidRouter.Providers
