import Mathlib.Data.Finset.Card
import Mathlib.Data.Finset.Range
import Mathlib.Data.List.Nodup
import Mathlib.Logic.Function.Basic

/-!
# Keys in order of first appearance

The keys of a list, each where it first appears (`firsts`), and a table of one
value for each, in that order. To change the value of a key is to change one
place of the table (`map_modify`), and a new key goes to its end.
-/

namespace Firsts

universe u v

variable {α : Type u} {β : Type v} [DecidableEq α]

/-- A key goes to the end, unless it is there already. -/
def add (keys : List α) (k : α) : List α := if k ∈ keys then keys else keys ++ [k]

/-- The keys of a list in the order in which they first appear. -/
def firsts (l : List α) : List α := l.foldl add []

theorem add_mem {keys : List α} {k : α} (h : k ∈ keys) : add keys k = keys := if_pos h

theorem add_new {keys : List α} {k : α} (h : k ∉ keys) : add keys k = keys ++ [k] := if_neg h

theorem firsts_concat (l : List α) (k : α) : firsts (l ++ [k]) = add (firsts l) k :=
  List.foldl_append

theorem mem_add {keys : List α} {k x : α} : x ∈ add keys k ↔ x ∈ keys ∨ x = k := by
  by_cases h : k ∈ keys
  · rw [add_mem h]
    constructor
    · exact Or.inl
    · rintro (hx | rfl)
      · exact hx
      · exact h
  · rw [add_new h, List.mem_append, List.mem_singleton]

theorem mem_firsts {l : List α} {x : α} : x ∈ firsts l ↔ x ∈ l := by
  induction l using List.reverseRecOn with
  | nil => exact Iff.rfl
  | append_singleton l k ih => rw [firsts_concat, mem_add, ih, List.mem_append, List.mem_singleton]

theorem nodup_add {keys : List α} (h : keys.Nodup) (k : α) : (add keys k).Nodup := by
  by_cases hk : k ∈ keys
  · rw [add_mem hk]
    exact h
  · rw [add_new hk]
    exact h.append (List.nodup_singleton k) (List.disjoint_singleton.mpr hk)

theorem nodup_firsts (l : List α) : (firsts l).Nodup := by
  induction l using List.reverseRecOn with
  | nil => exact List.nodup_nil
  | append_singleton l k ih =>
    rw [firsts_concat]
    exact nodup_add ih k

/-- A key's value is changed at the place of the key. -/
theorem map_modify {keys : List α} (hnodup : keys.Nodup) {k : α} (hk : k ∈ keys) (g : α → β)
    (f : β → β) : (keys.map g).modify (keys.idxOf k) f = keys.map (Function.update g k (f (g k))) := by
  induction keys with
  | nil => cases hk
  | cons x keys ih =>
    obtain ⟨hx, htail⟩ := List.nodup_cons.mp hnodup
    by_cases heq : x = k
    · have hrest : keys.map (Function.update g k (f (g k))) = keys.map g := by
        refine List.map_congr_left fun y hy => Function.update_of_ne ?_ _ _
        rintro rfl
        exact hx (heq ▸ hy)
      rw [List.idxOf_cons_eq _ heq, List.map_cons, List.map_cons, hrest, heq, Function.update_self]
      rfl
    · have hmem : k ∈ keys := (List.mem_cons.mp hk).resolve_left fun h => heq h.symm
      rw [List.idxOf_cons_ne _ heq, List.map_cons, List.map_cons, Function.update_of_ne heq,
        ← ih htail hmem]
      rfl

/-- A new key's value goes to the end. -/
theorem map_new {keys : List α} {k : α} (hk : k ∉ keys) (g : α → β) (x : β) :
    (keys ++ [k]).map (Function.update g k x) = keys.map g ++ [x] := by
  rw [List.map_append, List.map_singleton, Function.update_self]
  congr 1
  refine List.map_congr_left fun y hy => Function.update_of_ne ?_ _ _
  rintro rfl
  exact hk hy

/-- There are no more keys below a bound than the bound. -/
theorem length_le {keys : List Nat} (hnodup : keys.Nodup) {n : Nat} (h : ∀ k ∈ keys, k < n) :
    keys.length ≤ n := by
  rw [← List.toFinset_card_of_nodup hnodup, ← Finset.card_range n]
  refine Finset.card_le_card fun k hk => ?_
  exact Finset.mem_range.mpr (h k (List.mem_toFinset.mp hk))

end Firsts
