import Mathlib.Order.Lattice
import Mathlib.Data.List.Induction
import Mathlib.Data.List.Nodup
import Mathlib.Data.List.Pairwise

/-!
# Ordered maps

A map kept as its list of entries in increasing key order, which is the order
a `BTreeMap` iterates in. `Entries.insert` is a single pass that replaces the
value of a key already present, so the lookup laws hold of every list; the
bundled `OrdMap` carries the sortedness, from which "each key once" follows
and with it that membership of an entry is the same as looking it up.
-/

universe u v w

namespace Entries

variable {α : Type u} {β : Type v} {γ : Type w} [LinearOrder α]

/-- Insert in key order, replacing the entry of the same key. -/
def insert (k : α) (x : β) : List (α × β) → List (α × β)
  | [] => [(k, x)]
  | (k', x') :: rest =>
    if k < k' then (k, x) :: (k', x') :: rest
    else if k = k' then (k, x) :: rest
    else (k', x') :: insert k x rest

/-- The value of the first entry with this key. -/
def find? (k : α) : List (α × β) → Option β
  | [] => none
  | (k', x) :: rest => if k = k' then some x else find? k rest

/-- The list is in strictly increasing key order. -/
def Sorted (l : List (α × β)) : Prop := l.Pairwise fun a b => a.1 < b.1

theorem mem_insert {k : α} {x : β} {e : α × β} {l : List (α × β)}
    (h : e ∈ insert k x l) : e = (k, x) ∨ e ∈ l := by
  induction l with
  | nil => exact Or.inl (by simpa [insert] using h)
  | cons hd tl ih =>
    obtain ⟨k', x'⟩ := hd
    unfold insert at h
    split at h
    · rcases List.mem_cons.mp h with rfl | h
      · exact Or.inl rfl
      · exact Or.inr h
    · split at h
      · rcases List.mem_cons.mp h with rfl | h
        · exact Or.inl rfl
        · exact Or.inr (List.mem_cons_of_mem _ h)
      · rcases List.mem_cons.mp h with rfl | h
        · exact Or.inr List.mem_cons_self
        · exact (ih h).imp_right (List.mem_cons_of_mem _)

theorem sorted_insert (k : α) (x : β) {l : List (α × β)} (h : Sorted l) :
    Sorted (insert k x l) := by
  induction l with
  | nil => exact List.pairwise_singleton _ _
  | cons hd tl ih =>
    obtain ⟨k', x'⟩ := hd
    obtain ⟨hhd, htl⟩ := List.pairwise_cons.mp h
    unfold insert
    split
    next hlt =>
      refine List.pairwise_cons.mpr ⟨fun e he => ?_, h⟩
      rcases List.mem_cons.mp he with rfl | he
      · exact hlt
      · exact lt_trans hlt (hhd e he)
    next hnlt =>
      split
      next heq =>
        exact List.pairwise_cons.mpr ⟨fun e he => heq ▸ hhd e he, htl⟩
      next hne =>
        refine List.pairwise_cons.mpr ⟨fun e he => ?_, ih htl⟩
        rcases mem_insert he with rfl | he
        · exact lt_of_le_of_ne (not_lt.mp hnlt) (Ne.symm hne)
        · exact hhd e he

/-- A key above all others goes to the end. -/
theorem insert_eq_append {k : α} (x : β) {l : List (α × β)} (h : ∀ e ∈ l, e.1 < k) :
    insert k x l = l ++ [(k, x)] := by
  induction l with
  | nil => rfl
  | cons hd tl ih =>
    have hhd : hd.1 < k := h hd List.mem_cons_self
    unfold insert
    rw [if_neg (not_lt.mpr hhd.le), if_neg hhd.ne', ih fun e he => h e (List.mem_cons_of_mem _ he)]
    rfl

theorem find?_insert (k k' : α) (x : β) (l : List (α × β)) :
    find? k' (insert k x l) = if k' = k then some x else find? k' l := by
  induction l with
  | nil => rfl
  | cons hd tl ih =>
    obtain ⟨j, y⟩ := hd
    unfold insert
    split
    next => rfl
    next =>
      split
      next heq =>
        subst heq
        by_cases h : k' = k <;> simp [find?, h]
      next hne =>
        by_cases hj : k' = j
        · subst hj
          simp [find?, Ne.symm hne]
        · simp [find?, hj, ih]

/-- Of the items put in one after the other, the last of a key is found. -/
theorem find?_foldl_insert {ι : Type w} (key : ι → α) (value : ι → β) (k : α) (items : List ι)
    (l : List (α × β)) :
    find? k (items.foldl (fun l item => insert (key item) (value item) l) l) =
      ((items.reverse.find? fun item => decide (k = key item)).map value).or (find? k l) := by
  induction items generalizing l with
  | nil => rfl
  | cons item items ih =>
    rw [List.foldl_cons, ih, find?_insert, List.reverse_cons, List.find?_append]
    cases items.reverse.find? fun item => decide (k = key item) with
    | some last => rfl
    | none =>
      by_cases hk : k = key item
      · simp [hk]
      · simp [hk]

/-- Keys that are renamed in the same order. -/
theorem insert_mapKeys {δ : Type w} [LinearOrder δ] {f : α → δ} (hf : ∀ a b, f a < f b ↔ a < b)
    (k : α) (x : β) (l : List (α × β)) :
    insert (f k) x (l.map fun e => (f e.1, e.2)) = (insert k x l).map fun e => (f e.1, e.2) := by
  have hinj : ∀ a b, f a = f b ↔ a = b := by
    intro a b
    rw [le_antisymm_iff, le_antisymm_iff, ← not_lt, ← not_lt, hf, hf, not_lt, not_lt]
  induction l with
  | nil => rfl
  | cons hd tl ih =>
    obtain ⟨j, y⟩ := hd
    show insert (f k) x ((f j, y) :: tl.map fun e => (f e.1, e.2)) = _
    unfold insert
    by_cases hlt : k < j
    · rw [if_pos hlt, if_pos ((hf k j).mpr hlt)]
      rfl
    · rw [if_neg hlt, if_neg (fun h => hlt ((hf k j).mp h))]
      by_cases heq : k = j
      · rw [if_pos heq, if_pos ((hinj k j).mpr heq)]
        rfl
      · rw [if_neg heq, if_neg (fun h => heq ((hinj k j).mp h)), ih]
        rfl

/-- In a sorted list an entry is present exactly when its key finds it. -/
theorem mem_iff_find? {k : α} {x : β} {l : List (α × β)} (h : Sorted l) :
    (k, x) ∈ l ↔ find? k l = some x := by
  induction l with
  | nil => simp [find?]
  | cons hd tl ih =>
    obtain ⟨j, y⟩ := hd
    obtain ⟨hhd, htl⟩ := List.pairwise_cons.mp h
    by_cases hj : k = j
    · subst hj
      have hnot : (k, x) ∉ tl := fun hz => lt_irrefl k (hhd (k, x) hz)
      simp [find?, hnot, eq_comm]
    · simp [find?, hj, ih htl]

theorem mem_of_find? {k : α} {x : β} {l : List (α × β)} (h : find? k l = some x) : (k, x) ∈ l := by
  induction l with
  | nil => cases h
  | cons hd tl ih =>
    obtain ⟨j, y⟩ := hd
    unfold find? at h
    split at h
    · next heq =>
      rw [heq, Option.some.inj h]
      exact List.mem_cons_self
    · exact List.mem_cons_of_mem _ (ih h)

theorem find?_filter {p : α × β → Bool} {k : α} {l : List (α × β)} (h : Sorted l) :
    find? k (l.filter p) = (find? k l).filter fun x => p (k, x) := by
  ext x
  rw [← mem_iff_find? (h.sublist List.filter_sublist), List.mem_filter, mem_iff_find? h,
    Option.filter_eq_some_iff]

theorem find?_mapValues (f : β → γ) (k : α) (l : List (α × β)) :
    find? k (l.map fun e => (e.1, f e.2)) = (find? k l).map f := by
  induction l with
  | nil => rfl
  | cons hd tl ih =>
    obtain ⟨j, y⟩ := hd
    by_cases hj : k = j <;> simp [find?, hj, ih]

end Entries

/-- A finite map, in increasing key order. -/
structure OrdMap (α : Type u) (β : Type v) [LinearOrder α] where
  entries : List (α × β)
  sorted : Entries.Sorted entries
  deriving DecidableEq

namespace OrdMap

variable {α : Type u} {β : Type v} {γ : Type w} [LinearOrder α]

def empty : OrdMap α β := ⟨[], List.Pairwise.nil⟩

instance : Inhabited (OrdMap α β) := ⟨empty⟩

def get? (m : OrdMap α β) (k : α) : Option β := Entries.find? k m.entries

def insert (m : OrdMap α β) (k : α) (x : β) : OrdMap α β :=
  ⟨Entries.insert k x m.entries, Entries.sorted_insert k x m.sorted⟩

/-- Keep the entries a predicate accepts. -/
def retain (m : OrdMap α β) (p : α → β → Bool) : OrdMap α β :=
  ⟨m.entries.filter fun e => p e.1 e.2, m.sorted.sublist List.filter_sublist⟩

def erase (m : OrdMap α β) (k : α) : OrdMap α β := m.retain fun k' _ => k' ≠ k

def mapValues (m : OrdMap α β) (f : β → γ) : OrdMap α γ :=
  ⟨m.entries.map fun e => (e.1, f e.2), List.pairwise_map.mpr (m.sorted.imp id)⟩

/-- The values, in key order. -/
def values (m : OrdMap α β) : List β := m.entries.map (·.2)

@[simp] theorem get?_empty (k : α) : (empty : OrdMap α β).get? k = none := rfl

theorem get?_insert (m : OrdMap α β) (k k' : α) (x : β) :
    (m.insert k x).get? k' = if k' = k then some x else m.get? k' :=
  Entries.find?_insert k k' x m.entries

@[simp] theorem get?_insert_self (m : OrdMap α β) (k : α) (x : β) :
    (m.insert k x).get? k = some x := by rw [get?_insert, if_pos rfl]

theorem get?_retain (m : OrdMap α β) (p : α → β → Bool) (k : α) :
    (m.retain p).get? k = (m.get? k).filter (p k) :=
  Entries.find?_filter m.sorted

theorem get?_erase (m : OrdMap α β) (k k' : α) :
    (m.erase k).get? k' = if k' = k then none else m.get? k' := by
  unfold erase
  rw [get?_retain]
  by_cases h : k' = k
  · rw [if_pos h]
    cases m.get? k' <;> simp [h]
  · rw [if_neg h]
    cases m.get? k' <;> simp [h]

@[simp] theorem get?_mapValues (m : OrdMap α β) (f : β → γ) (k : α) :
    (m.mapValues f).get? k = (m.get? k).map f :=
  Entries.find?_mapValues f k m.entries

/-- A value is held under some key. -/
theorem mem_values {m : OrdMap α β} {x : β} : x ∈ m.values ↔ ∃ k, m.get? k = some x := by
  unfold values get?
  rw [List.mem_map]
  constructor
  · rintro ⟨⟨k, y⟩, he, rfl⟩
    exact ⟨k, (Entries.mem_iff_find? m.sorted).mp he⟩
  · rintro ⟨k, hk⟩
    exact ⟨(k, x), (Entries.mem_iff_find? m.sorted).mpr hk, rfl⟩

/-- Map each value, with its key. -/
def mapWithKey (m : OrdMap α β) (f : α → β → γ) : OrdMap α γ :=
  ⟨m.entries.map fun e => (e.1, f e.1 e.2), List.pairwise_map.mpr (m.sorted.imp id)⟩

theorem get?_mapWithKey (m : OrdMap α β) (f : α → β → γ) (k : α) :
    (m.mapWithKey f).get? k = (m.get? k).map (f k) := by
  unfold mapWithKey get?
  dsimp only
  induction m.entries with
  | nil => rfl
  | cons hd tl ih =>
    obtain ⟨j, y⟩ := hd
    by_cases hj : k = j
    · subst hj
      simp [Entries.find?]
    · simp [Entries.find?, hj, ih]

theorem mem_entries {m : OrdMap α β} {k : α} {x : β} : (k, x) ∈ m.entries ↔ m.get? k = some x :=
  Entries.mem_iff_find? m.sorted

/-- Insert the entries of a list, one after the other. -/
def ofList (l : List (α × β)) : OrdMap α β := l.foldl (fun m e => m.insert e.1 e.2) empty

/-- The last entry of a key counts. -/
theorem get?_ofList (l : List (α × β)) (k : α) :
    (ofList l).get? k = l.reverse.findSome? fun e => if k = e.1 then some e.2 else none := by
  unfold ofList
  induction l using List.reverseRecOn with
  | nil => rfl
  | append_singleton l e ih =>
    rw [List.foldl_append, List.foldl_cons, List.foldl_nil, get?_insert, ih, List.reverse_append,
      List.reverse_cons, List.reverse_nil, List.nil_append, List.cons_append, List.nil_append,
      List.findSome?_cons]
    by_cases hk : k = e.1
    · rw [if_pos hk, if_pos hk]
    · rw [if_neg hk, if_neg hk]

theorem get?_ofList_of_nodup {l : List (α × β)} (h : (l.map Prod.fst).Nodup) {k : α} {x : β} :
    (ofList l).get? k = some x ↔ (k, x) ∈ l := by
  rw [get?_ofList]
  constructor
  · intro hfind
    obtain ⟨e, he, heq⟩ := List.exists_of_findSome?_eq_some hfind
    split at heq
    · next hk =>
      rw [Option.some.injEq] at heq
      subst hk heq
      exact List.mem_reverse.mp he
    · cases heq
  · intro hmem
    cases hfind : l.reverse.findSome? fun e => if k = e.1 then some e.2 else none with
    | none =>
      have hnone := List.findSome?_eq_none_iff.mp hfind (k, x) (List.mem_reverse.mpr hmem)
      rw [if_pos rfl] at hnone
      cases hnone
    | some y =>
      obtain ⟨e, he, heq⟩ := List.exists_of_findSome?_eq_some hfind
      split at heq
      · next hk =>
        have hsame : e = (k, x) :=
          List.inj_on_of_nodup_map h (List.mem_reverse.mp he) hmem hk.symm
        rw [hsame] at heq
        exact heq.symm
      · cases heq

/-- A map is what its lookups are. -/
theorem ext_get? {m m' : OrdMap α β} (h : ∀ k, m.get? k = m'.get? k) : m = m' := by
  obtain ⟨entries, hsorted⟩ := m
  obtain ⟨entries', hsorted'⟩ := m'
  have hmem : ∀ e : α × β, e ∈ entries ↔ e ∈ entries' := by
    intro e
    have hk : Entries.find? e.1 entries = Entries.find? e.1 entries' := h e.1
    rw [Entries.mem_iff_find? hsorted, Entries.mem_iff_find? hsorted', hk]
  have hnodup : ∀ {l : List (α × β)}, Entries.Sorted l → l.Nodup := by
    intro l hl
    exact hl.imp fun hlt heq => absurd (heq ▸ hlt) (lt_irrefl _)
  have hperm : entries.Perm entries' :=
    (List.perm_ext_iff_of_nodup (hnodup hsorted) (hnodup hsorted')).mpr hmem
  have heq : entries = entries' :=
    hperm.eq_of_pairwise (fun a b _ _ hab hba => absurd (lt_trans hab hba) (lt_irrefl _))
      hsorted hsorted'
  subst heq
  rfl

/-- A key written again is as if written once. -/
theorem insert_insert_self (m : OrdMap α β) (k : α) (x y : β) :
    (m.insert k x).insert k y = m.insert k y := by
  refine ext_get? fun k' => ?_
  rw [get?_insert, get?_insert, get?_insert]
  by_cases h : k' = k
  · rw [if_pos h, if_pos h]
  · rw [if_neg h, if_neg h, if_neg h]

/-- Different keys are written in any order. -/
theorem insert_comm (m : OrdMap α β) {k k' : α} (h : k ≠ k') (x y : β) :
    (m.insert k x).insert k' y = (m.insert k' y).insert k x := by
  refine ext_get? fun j => ?_
  rw [get?_insert, get?_insert, get?_insert, get?_insert]
  by_cases hk : j = k
  · have hk' : j ≠ k' := fun hj => h (hk.symm.trans hj)
    rw [if_neg hk', if_pos hk, if_pos hk]
  · rw [if_neg hk, if_neg hk]

theorem nodup_keys (m : OrdMap α β) : (m.entries.map Prod.fst).Nodup :=
  (List.pairwise_map.mpr m.sorted).imp ne_of_lt

/-- A map is made again of its entries. -/
theorem ofList_entries (m : OrdMap α β) : ofList m.entries = m := by
  refine ext_get? fun k => Option.ext fun x => ?_
  rw [get?_ofList_of_nodup (nodup_keys m), mem_entries]

end OrdMap
