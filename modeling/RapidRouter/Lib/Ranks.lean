import Mathlib.Data.Multiset.Sort
import RapidRouter.Lib.OrdMap

/-!
# Ranks in counted keys

A sorted list of keys with their counts stands for the sorted list that has each key as
often as it is counted (`expand`). A walk that adds up the counts until they reach a rank
(`crossing`) finds the key that stands at the rank in that list (`crossing_eq`).
-/

universe u v

namespace Ranks

variable {α : Type u}

/-- The keys, each as often as it is counted. -/
def expand (entries : List (α × Nat)) : List α := entries.flatMap fun e => List.replicate e.2 e.1

/-- The first key at which the counts reach a rank. -/
def crossing (rank : Nat) : Nat → List (α × Nat) → Option α
  | _, [] => none
  | seen, (k, n) :: rest => if rank ≤ seen + n then some k else crossing rank (seen + n) rest

theorem expand_cons (k : α) (n : Nat) (rest : List (α × Nat)) :
    expand ((k, n) :: rest) = List.replicate n k ++ expand rest := List.flatMap_cons

theorem crossing_eq {rank seen : Nat} (h : seen < rank) (entries : List (α × Nat)) :
    crossing rank seen entries = (expand entries)[rank - seen - 1]? := by
  induction entries generalizing seen with
  | nil => exact List.getElem?_nil.symm
  | cons e rest ih =>
    obtain ⟨k, n⟩ := e
    unfold crossing
    rw [expand_cons]
    by_cases hreach : rank ≤ seen + n
    · rw [if_pos hreach, List.getElem?_append_left (by rw [List.length_replicate]; omega),
        List.getElem?_replicate, if_pos (by omega)]
    · rw [if_neg hreach, List.getElem?_append_right (by rw [List.length_replicate]; omega),
        List.length_replicate, ih (by omega)]
      have hindex : rank - (seen + n) - 1 = rank - seen - 1 - n := by omega
      rw [hindex]

/-- Counts that do not reach the rank leave the last key. -/
theorem getLast?_expand {entries : List (α × Nat)} (h : ∀ e ∈ entries, 0 < e.2) :
    (expand entries).getLast? = entries.getLast?.map (·.1) := by
  induction entries with
  | nil => rfl
  | cons e rest ih =>
    obtain ⟨k, n⟩ := e
    have hrest := ih fun e he => h e (List.mem_cons_of_mem _ he)
    have hpos := h (k, n) List.mem_cons_self
    rw [expand_cons, List.getLast?_append, hrest]
    cases rest with
    | nil =>
      obtain ⟨m, rfl⟩ : ∃ m, n = m + 1 := ⟨n - 1, by dsimp only at hpos; omega⟩
      rw [List.replicate_succ', List.getLast?_concat]
      rfl
    | cons e' rest =>
      rw [List.getLast?_cons_cons, List.getLast?_cons]
      rfl

/-- Where the walk ends, with the last key where the rank is never reached. -/
theorem crossing_or_last {rank : Nat} (hrank : 0 < rank) {entries : List (α × Nat)}
    (h : ∀ e ∈ entries, 0 < e.2) :
    (crossing rank 0 entries).or (entries.getLast?.map (·.1)) =
      (expand entries)[min rank (expand entries).length - 1]? := by
  rw [crossing_eq hrank, ← getLast?_expand h, List.getLast?_eq_getElem?, Nat.sub_zero]
  by_cases hin : rank ≤ (expand entries).length
  · rw [Nat.min_eq_left hin, List.getElem?_eq_getElem (show rank - 1 < _ by omega)]
    rfl
  · rw [Nat.min_eq_right (by omega), List.getElem?_eq_none (by omega)]
    rfl

theorem mem_expand {k : α} {entries : List (α × Nat)} (h : k ∈ expand entries) :
    ∃ e ∈ entries, e.1 = k := by
  obtain ⟨e, he, hk⟩ := List.mem_flatMap.mp h
  exact ⟨e, he, (List.eq_of_mem_replicate hk).symm⟩

section Order

variable [LinearOrder α]

theorem pairwise_expand {entries : List (α × Nat)} (h : Entries.Sorted entries) :
    (expand entries).Pairwise (· ≤ ·) := by
  induction entries with
  | nil => exact List.Pairwise.nil
  | cons e rest ih =>
    obtain ⟨k, n⟩ := e
    obtain ⟨hfirst, hrest⟩ := List.pairwise_cons.mp h
    rw [expand_cons, List.pairwise_append]
    refine ⟨List.pairwise_replicate.mpr (Or.inr le_rfl), ih hrest, fun a ha b hb => ?_⟩
    obtain ⟨e, he, rfl⟩ := mem_expand hb
    rw [List.eq_of_mem_replicate ha]
    exact (hfirst e he).le

theorem count_expand {entries : List (α × Nat)} (h : Entries.Sorted entries) (k : α) :
    (expand entries).count k = (Entries.find? k entries).getD 0 := by
  induction entries with
  | nil => rfl
  | cons e rest ih =>
    obtain ⟨k', n⟩ := e
    obtain ⟨hfirst, hrest⟩ := List.pairwise_cons.mp h
    rw [expand_cons, List.count_append]
    unfold Entries.find?
    by_cases hk : k = k'
    · -- No later entry has the key.
      subst hk
      have hnone : k ∉ expand rest := fun hmem => by
        obtain ⟨e, he, heq⟩ := mem_expand hmem
        exact absurd heq (hfirst e he).ne'
      rw [if_pos rfl, List.count_replicate_self, List.count_eq_zero.mpr hnone]
      rfl
    · rw [if_neg hk, List.count_replicate, if_neg (by simpa using Ne.symm hk), Nat.zero_add]
      exact ih hrest

/-- A sorted list that counts what a multiset counts is the multiset sorted. -/
theorem eq_sort {l : List α} (hsorted : l.Pairwise (· ≤ ·)) {s : Multiset α}
    (h : ∀ k, l.count k = s.count k) : l = s.sort := by
  refine List.Perm.eq_of_pairwise' hsorted (Multiset.pairwise_sort s _) ?_
  rw [← Multiset.coe_eq_coe, Multiset.sort_eq]
  refine Multiset.ext.mpr fun k => ?_
  rw [Multiset.coe_count]
  exact h k

/-- Sorting after a monotone function is sorting before it. -/
theorem sort_map {β : Type v} [LinearOrder β] {f : α → β} (hf : Monotone f) (s : Multiset α) :
    (s.map f).sort = s.sort.map f := by
  refine (List.Perm.eq_of_pairwise' ?_ (Multiset.pairwise_sort _ _) ?_).symm
  · exact (Multiset.pairwise_sort s _).map f fun _ _ h => hf h
  · rw [← Multiset.coe_eq_coe, Multiset.sort_eq, ← Multiset.map_coe, Multiset.sort_eq]

end Order

end Ranks
