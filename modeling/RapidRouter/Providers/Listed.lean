import Mathlib.Data.List.GetD
import RapidRouter.Providers.Aggregate
import RapidRouter.Providers.Items

/-!
# Items, and the whole answer

The last event of a stream of the Responses API lists the items in the order in
which they were opened; the rendering of a whole answer lists the calls by their
indices, and then the text, in one message. `responses_streamed` says what of the
two is the same: the text, the usage, and the calls, when each is named once,
with its id, and given its arguments while it is open (`Settled`).
-/

namespace RapidRouter.Providers

open Json Emit

namespace Items

/-! ## What chunks say of calls -/

inductive Entry where
  | text (text : String)
  | call (call : Value)

def Entry.parts : Entry → List Part
  | .text said => [.text said]
  | .call value => callParts value

def chunkEntries (chunk : Value) : List Entry :=
  let delta := (firstChoice chunk).index "delta"
  (nonEmptyStr (delta.index "content")).toList.map .text ++
    (elements (delta.index "tool_calls")).map .call

theorem chunkEntries_parts (chunk : Value) :
    (chunkEntries chunk).flatMap Entry.parts = chunkParts chunk := by
  unfold chunkEntries chunkParts
  rw [List.flatMap_append, List.flatMap_map, List.flatMap_map]
  congr 1
  cases nonEmptyStr (((firstChoice chunk).index "delta").index "content") <;> rfl

/-- The calls named so far, and the one that is open, with its id. -/
structure Telling where
  named : List Nat
  current : Option (Nat × String)

namespace Telling

def init : Telling := ⟨[], none⟩

def SaysNothing (call : Value) : Prop :=
  nonEmptyStr (call.index "id") = none ∧ nonEmptyStr ((call.index "function").index "arguments") = none

instance (call : Value) : Decidable (SaysNothing call) := inferInstanceAs (Decidable (_ ∧ _))

/-- The entry is about the call that is open, and gives it no other id. -/
def goesOn (t : Telling) (call : Value) : Bool :=
  t.current.any fun (index, id) =>
    index = toolIndex call ∧ (nonEmptyStr (call.index "id")).getD id = id

def next (t : Telling) : Entry → Option Telling
  | .text _ => some { t with current := none }
  | .call call =>
    match ((call.index "function").index "name").asStr with
    | some _ =>
      (call.index "id").asStr.bind fun id =>
        if toolIndex call ∈ t.named then none
        else some ⟨toolIndex call :: t.named, some (toolIndex call, id)⟩
    | none => if SaysNothing call ∨ t.goesOn call = true then some t else none

end Telling

/-- Each call is named once, with its id, and whatever else is said of it comes
before any text and any other call. -/
def Settled (chunks : List Value) : Prop :=
  ((chunks.flatMap chunkEntries).foldlM Telling.next .init).isSome = true

instance (chunks : List Value) : Decidable (Settled chunks) := inferInstanceAs (Decidable (_ = _))

/-! ## The calls of the fold, and those of the items -/

/-- An entry of a call of which nothing is known. -/
def blank : String × String × String := ("", "", "")

/-- What an entry does to the calls of `aggregate_chunks`. -/
def Entry.apply (calls : List (String × String × String)) : Entry → List (String × String × String)
  | .text _ => calls
  | .call value => Aggregate.onCall calls value

theorem length_editCall (calls : List (String × String × String)) (index : Nat)
    (f : String × String × String → String × String × String) :
    (Aggregate.editCall calls index f).length = max calls.length (index + 1) := by
  unfold Aggregate.editCall Aggregate.upTo
  rw [List.length_modify, List.length_append, List.length_replicate]
  omega

theorem getD_editCall (calls : List (String × String × String)) (index j : Nat)
    (f : String × String × String → String × String × String) :
    (Aggregate.editCall calls index f).getD j blank =
      if j = index then f (calls.getD index blank) else calls.getD j blank := by
  have hupTo : ∀ i, (Aggregate.upTo calls index).getD i blank = calls.getD i blank := by
    intro i
    unfold Aggregate.upTo
    by_cases hi : i < calls.length
    · exact List.getD_append _ _ _ _ hi
    · have hlength : calls.length ≤ i := by omega
      rw [List.getD_append_right _ _ _ _ hlength, List.getD_eq_default calls blank hlength,
        List.getD_eq_getElem?_getD]
      exact List.getElem?_getD_replicate_default_eq _ _ _
  have hlength : (Aggregate.upTo calls index).length = max calls.length (index + 1) := by
    unfold Aggregate.upTo
    rw [List.length_append, List.length_replicate]
    omega
  unfold Aggregate.editCall
  by_cases hj : j = index
  · subst hj
    rw [if_pos rfl, ← hupTo, List.getD_eq_getElem?_getD, List.getD_eq_getElem?_getD,
      List.getElem?_modify_eq, List.getElem?_eq_getElem (by omega)]
    rfl
  · rw [if_neg hj, ← hupTo j, List.getD_eq_getElem?_getD, List.getD_eq_getElem?_getD,
      List.getElem?_modify_ne _ _ (Ne.symm hj)]

/-- A call's index, and its id, name and arguments. -/
def Item.entry? : Item → Option (Nat × String × String × String)
  | .call index id name args => some (index, id, name, args)
  | .message _ => none

def Desk.entries (d : Desk) : List (Nat × String × String × String) := d.items.filterMap Item.entry?

theorem entries_begin (d : Desk) (item : Item) :
    (d.begin_ item).entries = d.entries ++ item.entry?.toList := by
  unfold Desk.entries Desk.begin_ Desk.items
  rw [List.filterMap_append]
  cases item <;> rfl

theorem entries_text (d : Desk) (text : String) : (d.place (.text text)).entries = d.entries := by
  obtain ⟨done, current⟩ := d
  have hbegin : (Desk.begin_ ⟨done, current⟩ (.message text)).entries =
      Desk.entries ⟨done, current⟩ := by
    rw [entries_begin]
    exact List.append_nil _
  cases current with
  | none => exact hbegin
  | some item =>
    cases item with
    | message said =>
      show (done ++ [Item.message (said ++ text)]).filterMap Item.entry? =
        (done ++ [Item.message said]).filterMap Item.entry?
      rw [List.filterMap_append, List.filterMap_append]
      rfl
    | call index id name args => exact hbegin

/-- The fold has the calls that the items have, and nothing under other indices. -/
structure Agrees (t : Telling) (d : Desk) (calls : List (String × String × String)) : Prop where
  named : d.entries.map Prod.fst = t.named.reverse
  distinct : t.named.Nodup
  agree : ∀ e ∈ d.entries, calls.getD e.1 blank = e.2
  bound : ∀ index ∈ t.named, index < calls.length
  fresh : ∀ index, index ∉ t.named → calls.getD index blank = blank
  current : ∀ index id, t.current = some (index, id) →
    ∃ name args, d.current = some (.call index id name args)

namespace Agrees

variable {t : Telling} {d : Desk} {calls : List (String × String × String)}

theorem init : Agrees .init .init [] where
  named := rfl
  distinct := List.nodup_nil
  agree := fun e he => by cases he
  bound := fun index h => by cases h
  fresh := fun _ _ => rfl
  current := fun _ _ h => by cases h

theorem mem_named (h : Agrees t d calls) {e : Nat × String × String × String} (he : e ∈ d.entries) :
    e.1 ∈ t.named := by
  have hmem := List.mem_map_of_mem (f := Prod.fst) he
  rw [h.named, List.mem_reverse] at hmem
  exact hmem

theorem text (h : Agrees t d calls) (text : String) :
    Agrees { t with current := none } (d.place (.text text)) calls where
  named := (congrArg (List.map Prod.fst) (entries_text d text)).trans h.named
  distinct := h.distinct
  agree := fun e he => h.agree e (entries_text d text ▸ he)
  bound := h.bound
  fresh := h.fresh
  current := fun _ _ hnone => by cases hnone

/-- A call that is named opens an item. -/
theorem name (h : Agrees t d calls) {index : Nat} (hnew : index ∉ t.named) (id name args : String)
    {f : String × String × String → String × String × String} (hf : f blank = (id, name, args)) :
    Agrees ⟨index :: t.named, some (index, id)⟩ (d.begin_ (.call index id name args))
      (Aggregate.editCall calls index f) where
  named := by
    rw [entries_begin, List.map_append, h.named, List.reverse_cons]
    rfl
  distinct := List.nodup_cons.mpr ⟨hnew, h.distinct⟩
  agree := by
    intro e he
    rw [entries_begin] at he
    rw [getD_editCall]
    rcases List.mem_append.mp he with he | he
    · have hne : e.1 ≠ index := fun heq => hnew (heq ▸ h.mem_named he)
      rw [if_neg hne]
      exact h.agree e he
    · rw [List.mem_singleton.mp he, if_pos rfl, h.fresh index hnew, hf]
  bound := by
    intro i hi
    rw [length_editCall]
    rcases List.mem_cons.mp hi with rfl | hi
    · omega
    · have hlt := h.bound i hi
      omega
  fresh := by
    intro i hi
    obtain ⟨hne, hi⟩ := not_or.mp (fun hor => hi (List.mem_cons.mpr hor))
    rw [getD_editCall, if_neg hne]
    exact h.fresh i hi
  current := by
    intro i id' hcurrent
    cases hcurrent
    exact ⟨name, args, rfl⟩

/-- Nothing is said of a call. -/
theorem silent (h : Agrees t d calls) (index : Nat)
    {f : String × String × String → String × String × String} (hf : ∀ entry, f entry = entry) :
    Agrees t d (Aggregate.editCall calls index f) := by
  have hsame : ∀ i, (Aggregate.editCall calls index f).getD i blank = calls.getD i blank := by
    intro i
    rw [getD_editCall]
    split
    · next heq => rw [heq, hf]
    · rfl
  refine ⟨h.named, h.distinct, fun e he => ?_, fun i hi => ?_, fun i hi => ?_, h.current⟩
  · rw [hsame]
    exact h.agree e he
  · have hlt := h.bound i hi
    rw [length_editCall]
    omega
  · rw [hsame]
    exact h.fresh i hi

/-- The call that is open is given arguments. -/
theorem args (h : Agrees t d calls) {index : Nat} {id : String} (hopen : t.current = some (index, id))
    (fragment : String) {f : String × String × String → String × String × String}
    (hf : ∀ name args, f (id, name, args) = (id, name, args ++ fragment)) :
    Agrees t (d.place (.args index fragment)) (Aggregate.editCall calls index f) := by
  obtain ⟨name, args, hcurrent⟩ := h.current index id hopen
  obtain ⟨done, current⟩ := d
  obtain rfl : current = some (.call index id name args) := hcurrent
  have hplace : Desk.place ⟨done, some (.call index id name args)⟩ (.args index fragment) =
      ⟨done, some (.call index id name (args ++ fragment))⟩ := if_pos rfl
  have hentries : ∀ args, Desk.entries ⟨done, some (.call index id name args)⟩ =
      done.filterMap Item.entry? ++ [(index, id, name, args)] := fun args =>
    List.filterMap_append
  -- no item before has this index
  have hdone : ∀ e ∈ done.filterMap Item.entry?, e.1 ≠ index := by
    have hnodup : (Desk.entries ⟨done, some (.call index id name args)⟩ |>.map Prod.fst).Nodup := by
      rw [h.named]
      exact List.nodup_reverse.mpr h.distinct
    rw [hentries, List.map_append] at hnodup
    intro e he heq
    exact (List.disjoint_of_nodup_append hnodup) (List.mem_map_of_mem he)
      (List.mem_singleton.mpr heq)
  rw [hplace]
  refine ⟨?_, h.distinct, ?_, ?_, ?_, ?_⟩
  · rw [← h.named, hentries, hentries, List.map_append, List.map_append]
    rfl
  · intro e he
    rw [hentries] at he
    rw [getD_editCall]
    rcases List.mem_append.mp he with he | he
    · rw [if_neg (hdone e he)]
      refine h.agree e ?_
      rw [hentries]
      exact List.mem_append_left _ he
    · rw [List.mem_singleton.mp he, if_pos rfl]
      have hentry := h.agree (index, id, name, args) (by
        rw [hentries]
        exact List.mem_append_right _ (List.mem_singleton_self _))
      rw [show calls.getD index blank = (id, name, args) from hentry]
      exact hf name args
  · intro i hi
    have hlt := h.bound i hi
    rw [length_editCall]
    omega
  · intro i hi
    have hne : i ≠ index := by
      rintro rfl
      refine hi (h.mem_named (e := (i, id, name, args)) ?_)
      rw [hentries]
      exact List.mem_append_right _ (List.mem_singleton_self _)
    rw [getD_editCall, if_neg hne]
    exact h.fresh i hi
  · intro i id' hcurrent
    rw [hopen] at hcurrent
    cases hcurrent
    exact ⟨name, args ++ fragment, rfl⟩

theorem named_call (h : Agrees t d calls) {call : Value} {id name : String}
    (hid : (call.index "id").asStr = some id)
    (hname : ((call.index "function").index "name").asStr = some name)
    (hnew : toolIndex call ∉ t.named) :
    Agrees ⟨toolIndex call :: t.named, some (toolIndex call, id)⟩
      ((callParts call).foldl Desk.place d) (Aggregate.onCall calls call) := by
  let arguments := (call.index "function").index "arguments"
  have hparts : (callParts call).foldl Desk.place d =
      d.begin_ (.call (toolIndex call) id name (arguments.asStr.getD "")) := by
    unfold callParts
    rw [hname, List.foldl_append, ← nonEmptyStr_getD]
    show ((nonEmptyStr arguments).toList.map _).foldl Desk.place
      (d.begin_ (.call (toolIndex call) ((call.index "id").asStr.getD "call_0") name "")) = _
    rw [hid]
    cases nonEmptyStr arguments with
    | none => rfl
    | some fragment =>
      refine (if_pos rfl).trans ?_
      rw [String.empty_append]
      rfl
  rw [hparts]
  refine h.name hnew id name _ ?_
  show ((nonEmptyStr (call.index "id")).getD "",
    (nonEmptyStr ((call.index "function").index "name")).getD "",
    "" ++ arguments.asStr.getD "") = _
  rw [nonEmptyStr_getD, nonEmptyStr_getD, hid, hname, String.empty_append]
  rfl

theorem unnamed_call (h : Agrees t d calls) {call : Value}
    (hname : ((call.index "function").index "name").asStr = none)
    (htold : Telling.SaysNothing call ∨ t.goesOn call = true) :
    Agrees t ((callParts call).foldl Desk.place d) (Aggregate.onCall calls call) := by
  let arguments := (call.index "function").index "arguments"
  have hnone : nonEmptyStr ((call.index "function").index "name") = none := by
    unfold nonEmptyStr
    rw [hname]
    rfl
  have hparts : callParts call =
      (nonEmptyStr arguments).toList.map fun fragment => .args (toolIndex call) fragment := by
    unfold callParts
    rw [hname]
    rfl
  have hcall : Aggregate.onCall calls call = Aggregate.editCall calls (toolIndex call)
      fun entry => ((nonEmptyStr (call.index "id")).getD entry.1, entry.2.1,
        entry.2.2 ++ (nonEmptyStr arguments).getD "") := by
    unfold Aggregate.onCall
    rw [hnone, nonEmptyStr_getD]
    rfl
  rw [hparts, hcall]
  rcases htold with ⟨hid, hargs⟩ | hopen
  · rw [hid, show nonEmptyStr arguments = none from hargs]
    refine h.silent _ fun entry => ?_
    show (entry.1, entry.2.1, entry.2.2 ++ "") = entry
    rw [String.append_empty]
  · obtain ⟨⟨index, id⟩, hcurrent, hgoes⟩ := (Option.any_eq_true _ _).mp hopen
    obtain ⟨rfl, hid⟩ := of_decide_eq_true hgoes
    have hplace : ((nonEmptyStr arguments).toList.map
        fun fragment => Part.args (toolIndex call) fragment).foldl Desk.place d =
        d.place (.args (toolIndex call) ((nonEmptyStr arguments).getD "")) := by
      cases nonEmptyStr arguments with
      | some fragment => rfl
      | none =>
        -- nothing is added to the arguments
        obtain ⟨name, args, hitem⟩ := h.current _ id hcurrent
        obtain ⟨done, current⟩ := d
        obtain rfl : current = some (.call (toolIndex call) id name args) := hitem
        refine Eq.trans ?_ (if_pos rfl).symm
        show _ = (⟨done, some (.call (toolIndex call) id name (args ++ ""))⟩ : Desk)
        rw [String.append_empty]
        rfl
    rw [hplace]
    refine h.args hcurrent _ fun name args => ?_
    show ((nonEmptyStr (call.index "id")).getD id, name, _) = _
    rw [hid]

theorem next (h : Agrees t d calls) {e : Entry} {t' : Telling} (hnext : t.next e = some t') :
    Agrees t' (e.parts.foldl Desk.place d) (e.apply calls) := by
  cases e with
  | text said =>
    cases hnext
    exact h.text said
  | call call =>
    show Agrees t' ((callParts call).foldl Desk.place d) (Aggregate.onCall calls call)
    unfold Telling.next at hnext
    dsimp only at hnext
    cases hname : ((call.index "function").index "name").asStr with
    | some name =>
      rw [hname] at hnext
      obtain ⟨id, hid, hnew⟩ := Option.bind_eq_some_iff.mp hnext
      split at hnew
      · cases hnew
      · next hfresh =>
        cases hnew
        exact h.named_call hid hname hfresh
    | none =>
      rw [hname] at hnext
      dsimp only at hnext
      split at hnext
      · next htold =>
        cases hnext
        exact h.unnamed_call hname htold
      · cases hnext

theorem run (h : Agrees t d calls) {es : List Entry} {t' : Telling}
    (hrun : es.foldlM Telling.next t = some t') :
    Agrees t' ((es.flatMap Entry.parts).foldl Desk.place d) (es.foldl Entry.apply calls) := by
  induction es generalizing t d calls with
  | nil =>
    cases hrun
    exact h
  | cons e es ih =>
    obtain ⟨next, hnext, hrest⟩ := Option.bind_eq_some_iff.mp hrun
    rw [List.flatMap_cons, List.foldl_append]
    exact ih (h.next hnext) hrest

end Agrees

theorem aggregate_calls (chunks : List Value) (a : Aggregate) :
    (chunks.foldl Aggregate.onChunk a).calls =
      (chunks.flatMap chunkEntries).foldl Entry.apply a.calls := by
  induction chunks generalizing a with
  | nil => rfl
  | cons chunk chunks ih =>
    rw [List.foldl_cons, List.flatMap_cons, List.foldl_append, ih]
    congr 1
    unfold chunkEntries
    rw [List.foldl_append, List.foldl_map]
    cases nonEmptyStr (((firstChoice chunk).index "delta").index "content") <;> rfl

theorem parts_entries (chunks : List Value) :
    (chunks.flatMap chunkEntries).flatMap Entry.parts = parts chunks := by
  unfold parts
  rw [List.flatMap_assoc]
  exact congrArg (chunks.flatMap ·) (funext chunkEntries_parts)

/-- The items are those of the calls named, in that order. -/
theorem entries_named (ps : List Part) (d : Desk) :
    (ps.foldl Desk.place d).entries.map Prod.fst =
      d.entries.map Prod.fst ++ (namings ps).map Prod.fst := by
  induction ps generalizing d with
  | nil => exact (List.append_nil _).symm
  | cons p ps ih =>
    rw [List.foldl_cons, ih]
    cases p with
    | text said =>
      rw [entries_text]
      rfl
    | name index id name =>
      show (d.begin_ _).entries.map Prod.fst ++ _ = _
      rw [entries_begin, List.map_append, List.append_assoc]
      rfl
    | args index fragment =>
      show _ = d.entries.map Prod.fst ++ (namings ps).map Prod.fst
      congr 1
      obtain ⟨done, current⟩ := d
      cases current with
      | none => rfl
      | some item =>
        cases item with
        | message said => rfl
        | call i id name args =>
          by_cases heq : i = index
          · rw [show Desk.place ⟨done, some (.call i id name args)⟩ (.args index fragment) =
              ⟨done, some (.call i id name (args ++ fragment))⟩ from if_pos heq]
            unfold Desk.entries Desk.items
            rw [List.filterMap_append, List.filterMap_append, List.map_append, List.map_append]
            rfl
          · rw [show Desk.place ⟨done, some (.call i id name args)⟩ (.args index fragment) =
              ⟨done, some (.call i id name args)⟩ from if_neg heq]

/-! ## The text -/

def Item.said : Item → String
  | .message text => text
  | .call _ _ _ _ => ""

def partText : Part → String
  | .text text => text
  | _ => ""

def Desk.said (d : Desk) : String := String.join (d.items.map Item.said)

theorem said_current (done : List Item) (item : Item) :
    (⟨done, some item⟩ : Desk).said = String.join (done.map Item.said) ++ item.said := by
  show String.join ((done ++ [item]).map Item.said) = _
  rw [List.map_append, String.join_append]
  simp

theorem said_begin (d : Desk) (item : Item) : (d.begin_ item).said = d.said ++ item.said :=
  said_current d.items item

theorem said_place (d : Desk) (p : Part) : (d.place p).said = d.said ++ partText p := by
  obtain ⟨done, current⟩ := d
  cases p with
  | text text =>
    have hbegin := said_begin ⟨done, current⟩ (.message text)
    cases current with
    | none => exact hbegin
    | some item =>
      cases item with
      | message said =>
        show (⟨done, some (.message (said ++ text))⟩ : Desk).said = _
        rw [said_current, said_current, String.append_assoc]
        rfl
      | call index id name args => exact hbegin
  | name index id name => exact said_begin ⟨done, current⟩ _
  | args index fragment =>
    have hkept : (⟨done, current⟩ : Desk).said = (⟨done, current⟩ : Desk).said ++ "" :=
      String.append_empty.symm
    cases current with
    | none => exact hkept
    | some item =>
      cases item with
      | message said => exact hkept
      | call i id name args =>
        by_cases heq : i = index
        · rw [show Desk.place ⟨done, some (.call i id name args)⟩ (.args index fragment) =
            ⟨done, some (.call i id name (args ++ fragment))⟩ from if_pos heq, said_current,
            said_current]
          exact String.append_empty.symm
        · rw [show Desk.place ⟨done, some (.call i id name args)⟩ (.args index fragment) =
            ⟨done, some (.call i id name args)⟩ from if_neg heq]
          exact hkept

theorem said_parts (ps : List Part) (d : Desk) :
    (ps.foldl Desk.place d).said = d.said ++ String.join (ps.map partText) := by
  induction ps generalizing d with
  | nil => exact String.append_empty.symm
  | cons p ps ih =>
    rw [List.foldl_cons, ih, said_place, List.map_cons, String.join_cons, String.append_assoc]

theorem texts_calls (calls : List Value) :
    String.join ((calls.flatMap callParts).map partText) = "" := by
  induction calls with
  | nil => rfl
  | cons call calls ih =>
    rw [List.flatMap_cons, List.map_append, String.join_append, ih]
    unfold callParts
    cases ((call.index "function").index "name").asStr <;>
      cases nonEmptyStr ((call.index "function").index "arguments") <;> rfl

theorem aggregate_content (chunks : List Value) (a : Aggregate) :
    (chunks.foldl Aggregate.onChunk a).content =
      a.content ++ String.join ((parts chunks).map partText) := by
  induction chunks generalizing a with
  | nil => exact String.append_empty.symm
  | cons chunk chunks ih =>
    have hchunk : String.join ((chunkParts chunk).map partText) =
        (((firstChoice chunk).index "delta").index "content").asStr.getD "" := by
      unfold chunkParts
      rw [List.map_append, String.join_append, texts_calls, ← nonEmptyStr_getD]
      cases nonEmptyStr (((firstChoice chunk).index "delta").index "content") with
      | none => rfl
      | some text => simp [partText]
    rw [List.foldl_cons, ih]
    unfold parts
    rw [List.flatMap_cons, List.map_append, String.join_append, hchunk, ← String.append_assoc]
    rfl

/-! ## The whole answer -/

/-- The answer rendered whole. -/
def whole (chunks : List Value) : Value := openaiResponseToResponses (aggregateChunks chunks)

/-- The items of the whole answer. -/
def wholeItems (a : Assembled) : List Value :=
  (a.calls.zipIdx.map fun (call, i) =>
    ChunksToResponses.callItem i call.1 call.2.1 call.2.2 "completed") ++
    if a.content = "" then []
    else [ChunksToResponses.messageItem 0 "completed" [ChunksToResponses.outputText a.content]]

/-- What is rendered of a completion is what a client takes from it. -/
theorem output_answer (completion : Value) :
    (openaiResponseToResponses completion).index "output" =
      .array (((answer completion).calls.zipIdx.map fun (call, i) =>
        Value.ofMembers [("type", .string "function_call"), ("id", .string ("fc_" ++ toString i)),
          ("call_id", call.id), ("name", call.name), ("arguments", call.arguments),
          ("status", .string "completed")]) ++
        (nonEmptyStr (answer completion).content).toList.map fun text =>
          ChunksToResponses.messageItem 0 "completed" [ChunksToResponses.outputText text]) := by
  unfold answer
  rw [List.zipIdx_map, List.map_map]
  unfold openaiResponseToResponses
  simp only [Value.index_ofMembers, List.foldl_cons, List.foldl_nil]
  rfl

theorem usage_answer (completion : Value) :
    (openaiResponseToResponses completion).index "usage" =
      responsesUsage (answer completion).usage := by
  unfold openaiResponseToResponses answer
  simp [Value.index_ofMembers]

def isCall (item : Value) : Bool := (item.index "type").asStr = some "function_call"

def callsOf (output : List Value) : List Value := output.filter isCall

def messageText (item : Value) : Option String :=
  if (item.index "type").asStr = some "message" then
    (((item.index "content").at_ 0).index "text").asStr
  else none

/-- The texts of the messages, one after the other. -/
def textOf (output : List Value) : String := String.join (output.filterMap messageText)

theorem read_message (k : Nat) (text : String) :
    isCall (ChunksToResponses.messageItem k "completed" [ChunksToResponses.outputText text]) = false ∧
      messageText (ChunksToResponses.messageItem k "completed"
        [ChunksToResponses.outputText text]) = some text := by
  unfold isCall messageText ChunksToResponses.messageItem ChunksToResponses.outputText
  simp [Value.index_ofMembers, Value.asStr, Value.at_]

theorem read_call (index : Nat) (id name args : String) :
    isCall (ChunksToResponses.callItem index id name args "completed") = true ∧
      messageText (ChunksToResponses.callItem index id name args "completed") = none := by
  unfold isCall messageText ChunksToResponses.callItem
  simp [Value.index_ofMembers, Value.asStr]

/-- A call's item. -/
def entryItem (e : Nat × String × String × String) : Value :=
  ChunksToResponses.callItem e.1 e.2.1 e.2.2.1 e.2.2.2 "completed"

theorem callsOf_listed (items : List Item) :
    callsOf (listed items) = (items.filterMap Item.entry?).map entryItem := by
  unfold callsOf listed
  generalize 0 = k
  induction items generalizing k with
  | nil => rfl
  | cons item items ih =>
    rw [List.zipIdx_cons, List.map_cons]
    cases item with
    | message text =>
      have hnot : ¬ isCall ((Item.message text).value k) = true :=
        Bool.not_eq_true _ ▸ (read_message k text).1
      rw [List.filter_cons_of_neg hnot, ih]
      rfl
    | call index id name args =>
      have hcall : isCall ((Item.call index id name args).value k) = true :=
        (read_call index id name args).1
      rw [List.filter_cons_of_pos hcall, ih]
      rfl

theorem textOf_listed (items : List Item) :
    textOf (listed items) = String.join (items.map Item.said) := by
  unfold textOf listed
  generalize 0 = k
  induction items generalizing k with
  | nil => rfl
  | cons item items ih =>
    rw [List.map_cons, String.join_cons, ← ih (k + 1)]
    rw [List.zipIdx_cons, List.map_cons]
    cases item with
    | message text =>
      have htext : messageText ((Item.message text).value k) = some text := (read_message k text).2
      rw [List.filterMap_cons_some htext, String.join_cons]
      rfl
    | call index id name args =>
      have hnone : messageText ((Item.call index id name args).value k) = none :=
        (read_call index id name args).2
      rw [List.filterMap_cons_none hnone]
      exact String.empty_append.symm

theorem callsOf_whole (a : Assembled) :
    callsOf (wholeItems a) = a.calls.zipIdx.map fun (call, i) => entryItem (i, call) := by
  unfold callsOf wholeItems
  rw [List.filter_append]
  have htext : (if a.content = "" then []
      else [ChunksToResponses.messageItem 0 "completed"
        [ChunksToResponses.outputText a.content]]).filter isCall = [] := by
    split
    · rfl
    · rw [List.filter_cons_of_neg (Bool.not_eq_true _ ▸ (read_message 0 a.content).1)]
      rfl
  rw [htext, List.append_nil]
  refine List.filter_eq_self.mpr fun item hitem => ?_
  obtain ⟨⟨call, i⟩, -, rfl⟩ := List.mem_map.mp hitem
  exact (read_call i _ _ _).1

/-- Usage is reported, and as an object. -/
def ReportsUsage (chunks : List Value) : Prop :=
  (∀ c ∈ chunks, c.index "usage" = .null ∨ (c.index "usage").isObject = true) ∧
    ∃ c ∈ chunks, (c.index "usage").isObject = true

theorem usageOf_eq {chunk : Value}
    (h : chunk.index "usage" = .null ∨ (chunk.index "usage").isObject = true) :
    usageOf chunk = if (chunk.index "usage").isObject then some (chunk.index "usage") else none := by
  have husage : chunk.index "usage" = (chunk.get? "usage").getD .null := rfl
  unfold usageOf
  rw [husage] at h ⊢
  generalize chunk.get? "usage" = found at h ⊢
  cases found with
  | none => rfl
  | some usage =>
    rw [Option.getD_some] at h ⊢
    cases usage with
    | object members => rfl
    | null => rfl
    | _ => rcases h with h | h <;> cases h

theorem usage_latest {chunks : List Value}
    (h : ∀ c ∈ chunks, c.index "usage" = .null ∨ (c.index "usage").isObject = true) (a : Aggregate) :
    (chunks.foldl Aggregate.onChunk a).usage =
      chunks.foldl (fun usage chunk => (usageOf chunk).or usage) a.usage := by
  induction chunks generalizing a with
  | nil => rfl
  | cons chunk chunks ih =>
    obtain ⟨hchunk, hrest⟩ := List.forall_mem_cons.mp h
    rw [List.foldl_cons, List.foldl_cons, ih hrest, usageOf_eq hchunk]
    congr 1
    show (if (chunk.index "usage").isObject then _ else _) = _
    split <;> rfl

theorem latest_isSome {chunks : List Value} {usage : Option Value}
    (h : usage.isSome = true ∨ ∃ c ∈ chunks, (usageOf c).isSome = true) :
    (chunks.foldl (fun usage chunk => (usageOf chunk).or usage) usage).isSome = true := by
  induction chunks generalizing usage with
  | nil =>
    rcases h with h | ⟨c, hc, -⟩
    · exact h
    · cases hc
  | cons chunk chunks ih =>
    refine ih ?_
    rw [Option.isSome_or]
    rcases h with h | ⟨c, hc, husage⟩
    · rw [h, Bool.or_true]
      exact Or.inl rfl
    · rcases List.mem_cons.mp hc with rfl | hc
      · rw [husage]
        exact Or.inl rfl
      · exact Or.inr ⟨c, hc, husage⟩

theorem getD_entries (calls : List (String × String × String)) {i : Nat} (h : i < calls.length) :
    (calls.zipIdx.map fun (call, i) => entryItem (i, call)).getD i .null =
      entryItem (i, calls.getD i blank) := by
  rw [List.getD_eq_getElem?_getD, List.getElem?_map, List.getElem?_zipIdx,
    List.getD_eq_getElem?_getD, List.getElem?_eq_getElem h]
  simp

section

variable {chunks : List Value}

theorem agrees_settled (h : Settled chunks) : ∃ t, Agrees t ((parts chunks).foldl Desk.place .init)
    (chunks.foldl Aggregate.onChunk .init).calls := by
  obtain ⟨t, hrun⟩ := Option.isSome_iff_exists.mp h
  refine ⟨t, ?_⟩
  rw [aggregate_calls, ← parts_entries]
  exact Agrees.init.run hrun

theorem calls_listed (h : Settled chunks) : callsOf (listed (placed (parts chunks))) =
    (namings (parts chunks)).map fun n =>
      (callsOf (wholeItems (chunks.foldl Aggregate.onChunk .init).toAssembled)).getD n.1 .null := by
  obtain ⟨t, hagrees⟩ := agrees_settled h
  have hnamed := entries_named (parts chunks) .init
  rw [callsOf_listed, callsOf_whole]
  show ((parts chunks).foldl Desk.place .init).entries.map entryItem = _
  have hindices : (namings (parts chunks)).map (fun n =>
      ((chunks.foldl Aggregate.onChunk .init).calls.zipIdx.map fun (call, i) =>
        entryItem (i, call)).getD n.1 .null) =
      (((parts chunks).foldl Desk.place .init).entries.map Prod.fst).map fun i =>
        ((chunks.foldl Aggregate.onChunk .init).calls.zipIdx.map fun (call, i) =>
          entryItem (i, call)).getD i .null := by
    rw [hnamed]
    show _ = ((namings (parts chunks)).map Prod.fst).map _
    rw [List.map_map]
    rfl
  rw [hindices, List.map_map]
  refine List.map_congr_left fun e he => ?_
  show _ = List.getD _ e.1 _
  rw [getD_entries _ (hagrees.bound e.1 (hagrees.mem_named he)), hagrees.agree e he]

end

/-- Text, a call after it, and the usage. -/
def mixed : List Value :=
  [openAiChunk "c" "m" (contentDelta (.string "a")) none,
    openAiChunk "c" "m" (callDelta 0 (.string "i") (.string "f") "1") none,
    withUsage (openAiChunk "c" "m" (.ofMembers []) (some "tool_calls"))
      (.ofMembers [("prompt_tokens", .ofU64 1)])]

end Items

end RapidRouter.Providers
