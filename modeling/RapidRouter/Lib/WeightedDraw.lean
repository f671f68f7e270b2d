import Mathlib.Analysis.SpecialFunctions.Pow.Real
import Mathlib.Data.List.Sort

/-!
# Drawing a pool in weighted-random order

Weighted sampling without replacement by sort keys: every entry gets the key
`u ^ (1 / w)` for its weight `w` and a fresh uniform `u`, and the pool is
sorted by key, largest first, entries of equal key staying in place.

`byKeys` is the sort, for keys in any linear order. Two facts are what a
safety argument over all draws needs: a draw only permutes the pool
(`byKeys_perm`), and with positive weights every entry comes first in some draw
(`exists_draw_first`), so "for every draw" and "for every entry" are the same
quantifier at the head.
-/

namespace WeightedDraw

open List

variable {α κ : Type*} [LinearOrder κ]

/-- Entries sorted by their keys, largest first, stably. -/
def byKeys (key : ℕ → α → κ) (l : List α) : List α :=
  ((l.zipIdx.map fun e => (key e.2 e.1, e.1)).insertionSort fun a b => b.1 ≤ a.1).map (·.2)

/-- A draw permutes the pool. -/
theorem byKeys_perm (key : ℕ → α → κ) (l : List α) : (byKeys key l).Perm l := by
  have hsort := perm_insertionSort (fun a b : κ × α => b.1 ≤ a.1)
    (l.zipIdx.map fun e => (key e.2 e.1, e.1))
  have hmap := hsort.map (·.2)
  rw [List.map_map] at hmap
  have hfst : ((fun e : κ × α => e.2) ∘ fun e : α × ℕ => (key e.2 e.1, e.1)) = Prod.fst := rfl
  rw [hfst, List.zipIdx_map_fst] at hmap
  exact hmap

/-- The entry whose key is above all others comes first. -/
theorem byKeys_head {key : ℕ → α → κ} {l : List α} {i : ℕ} (hi : i < l.length)
    (hmax : ∀ j (hj : j < l.length), j ≠ i → key j l[j] < key i l[i]) :
    (byKeys key l).head? = some l[i] := by
  unfold byKeys
  have hmem : (key i l[i], l[i]) ∈ (l.zipIdx.map fun e => (key e.2 e.1, e.1)).insertionSort
      fun a b => b.1 ≤ a.1 := by
    rw [mem_insertionSort, List.mem_map]
    exact ⟨(l[i], i), List.mk_mem_zipIdx_iff_getElem?.mpr (List.getElem?_eq_getElem hi), rfl⟩
  have hsorted := pairwise_insertionSort (fun a b : κ × α => b.1 ≤ a.1)
    (l.zipIdx.map fun e => (key e.2 e.1, e.1))
  have hback : ∀ e ∈ (l.zipIdx.map fun e => (key e.2 e.1, e.1)).insertionSort
      (fun a b => b.1 ≤ a.1), ∃ j, ∃ hj : j < l.length, e = (key j l[j], l[j]) := by
    intro e he
    rw [mem_insertionSort, List.mem_map] at he
    obtain ⟨⟨x, j⟩, hx, rfl⟩ := he
    obtain ⟨hj, hget⟩ := List.getElem?_eq_some_iff.mp (List.mk_mem_zipIdx_iff_getElem?.mp hx)
    exact ⟨j, hj, by rw [hget]⟩
  cases hs : (l.zipIdx.map fun e => (key e.2 e.1, e.1)).insertionSort fun a b => b.1 ≤ a.1 with
  | nil =>
    rw [hs] at hmem
    exact absurd hmem List.not_mem_nil
  | cons hd tl =>
    rw [hs] at hmem hsorted hback
    obtain ⟨j, hj, hhd⟩ := hback hd List.mem_cons_self
    rcases List.mem_cons.mp hmem with he | he
    · rw [← he]
      rfl
    · have hle : key i l[i] ≤ hd.1 := (List.pairwise_cons.mp hsorted).1 _ he
      rw [hhd] at hle
      have hji : j = i := by
        by_contra hne
        exact absurd (hmax j hj hne) (not_lt.mpr hle)
      subst hji
      rw [hhd]
      rfl

/-- The sort key of an entry of weight `w` for the uniform `u`. -/
noncomputable def sortKey (u w : ℝ) : ℝ := u ^ (1 / w)

/-- Every key strictly between 0 and 1 is drawn by some uniform. -/
theorem exists_sortKey {w k : ℝ} (hw : 0 < w) (h0 : 0 < k) (h1 : k < 1) :
    ∃ u : Set.Ioo (0 : ℝ) 1, sortKey u w = k := by
  refine ⟨⟨k ^ w, Real.rpow_pos_of_pos h0 w, Real.rpow_lt_one h0.le h1 hw⟩, ?_⟩
  unfold sortKey
  dsimp only
  rw [← Real.rpow_mul h0.le, mul_one_div_cancel hw.ne', Real.rpow_one]

/-- With positive weights, every entry comes first in some draw. -/
theorem exists_draw_first {w : α → ℝ} (hw : ∀ x, 0 < w x) {l : List α} {i : ℕ}
    (hi : i < l.length) :
    ∃ u : ℕ → Set.Ioo (0 : ℝ) 1,
      (byKeys (fun j x => sortKey (u j) (w x)) l).head? = some l[i] := by
  -- The chosen entry is given the key 1/2 and every other entry 1/4.
  have hkey : ∀ j, ∃ u : Set.Ioo (0 : ℝ) 1, ∀ hj : j < l.length,
      sortKey u (w l[j]) = if j = i then 1 / 2 else 1 / 4 := by
    intro j
    by_cases hj : j < l.length
    · obtain ⟨u, hu⟩ : ∃ u : Set.Ioo (0 : ℝ) 1,
          sortKey u (w l[j]) = if j = i then 1 / 2 else 1 / 4 := by
        split
        · exact exists_sortKey (hw _) (by norm_num) (by norm_num)
        · exact exists_sortKey (hw _) (by norm_num) (by norm_num)
      exact ⟨u, fun _ => hu⟩
    · exact ⟨⟨1 / 2, by norm_num, by norm_num⟩, fun h => absurd h hj⟩
  choose u hu using hkey
  refine ⟨u, byKeys_head hi fun j hj hne => ?_⟩
  rw [hu j hj, hu i hi, if_neg hne, if_pos rfl]
  norm_num

end WeightedDraw
