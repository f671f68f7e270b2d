import Mathlib.Algebra.GroupWithZero.Nat
import Mathlib.Data.List.Basic

/-!
# Fields joined by a separator

Fields are joined with a letter between them. The joined text counts the
letter once for each place between two fields and once for each time it
stands in one, so a text that is joined from fields without the letter is
joined from nothing else (`joined_inj`). A field that has the letter is the
opposite: its two halves belong to its neighbours as well (`joined_split`).
-/

namespace Joined

variable {α : Type} [DecidableEq α] {c : α}

/-- No field has the separator in it. -/
def Plain (c : α) (fields : List (List α)) : Prop := ∀ f ∈ fields, c ∉ f

theorem count_joined (fields : List (List α)) (h : fields ≠ []) :
    ([c].intercalate fields).count c + 1 = (fields.map (List.count c)).sum + fields.length := by
  induction fields with
  | nil => exact absurd rfl h
  | cons f rest ih =>
    cases rest with
    | nil =>
      show (([c].intercalate [f]).count c) + 1 = (f.count c + 0) + 1
      rw [List.intercalate_singleton, Nat.add_zero]
    | cons g rest =>
      have hrest := ih (List.cons_ne_nil g rest)
      rw [List.intercalate_cons_cons, List.count_append, List.count_append, List.count_singleton_self,
        List.map_cons, List.sum_cons, List.length_cons]
      omega

omit [DecidableEq α] in
/-- What is not the separator is in the joined text when it is in a field. -/
theorem not_mem_joined {a : α} (hne : a ≠ c) {fields : List (List α)} (h : Plain a fields) :
    a ∉ [c].intercalate fields := by
  induction fields with
  | nil => exact List.not_mem_nil
  | cons f rest ih =>
    have hfirst := h f List.mem_cons_self
    have hrest := ih fun g hg => h g (List.mem_cons_of_mem f hg)
    cases rest with
    | nil =>
      rw [List.intercalate_singleton]
      exact hfirst
    | cons g rest =>
      rw [List.intercalate_cons_cons, List.mem_append, List.mem_append, List.mem_singleton]
      rintro ((hmem | hmem) | hmem)
      · exact hfirst hmem
      · exact hne hmem
      · exact hrest hmem

theorem plain_iff_sum {fields : List (List α)} :
    Plain c fields ↔ (fields.map (List.count c)).sum = 0 := by
  rw [List.sum_eq_zero_iff_forall_eq_nat]
  constructor
  · intro h n hn
    obtain ⟨f, hf, rfl⟩ := List.mem_map.mp hn
    exact List.count_eq_zero.mpr (h f hf)
  · intro h f hf
    exact List.count_eq_zero.mp (h _ (List.mem_map_of_mem hf))

/-- A text of plain fields is of no other fields, plain or not. -/
theorem joined_inj {fields fields' : List (List α)} (hplain : Plain c fields)
    (hlength : fields.length = fields'.length)
    (h : [c].intercalate fields = [c].intercalate fields') : fields = fields' := by
  by_cases hnil : fields = []
  · subst hnil
    exact (List.length_eq_zero_iff.mp hlength.symm).symm
  · have hnil' : fields' ≠ [] := by
      rintro rfl
      exact hnil (List.length_eq_zero_iff.mp hlength)
    have hcount := count_joined (c := c) fields hnil
    have hcount' := count_joined (c := c) fields' hnil'
    rw [plain_iff_sum.mp hplain] at hcount
    rw [← h] at hcount'
    have hplain' : Plain c fields' := plain_iff_sum.mpr (by omega)
    have hsplit := List.splitOn_intercalate c hplain hnil
    rw [h, List.splitOn_intercalate c hplain' hnil'] at hsplit
    exact hsplit.symm

omit [DecidableEq α] in
/-- The letter between two fields is one like any other: what is cut off a field
at the letter may as well begin the next one. -/
theorem joined_split (before : List (List α)) (f g h : List α) (after : List (List α)) :
    [c].intercalate (before ++ (f ++ c :: g) :: h :: after) =
      [c].intercalate (before ++ f :: (g ++ c :: h) :: after) := by
  induction before with
  | nil =>
    show [c].intercalate ((f ++ c :: g) :: h :: after) = [c].intercalate (f :: (g ++ c :: h) :: after)
    cases after with
    | nil =>
      rw [List.intercalate_cons_cons, List.intercalate_cons_cons, List.intercalate_singleton,
        List.intercalate_singleton]
      simp only [List.append_assoc, List.cons_append, List.nil_append]
    | cons x after =>
      rw [List.intercalate_cons_cons, List.intercalate_cons_cons, List.intercalate_cons_cons,
        List.intercalate_cons_cons]
      simp only [List.append_assoc, List.cons_append, List.nil_append]
  | cons x before ih =>
    rw [List.cons_append, List.cons_append, List.intercalate_cons_of_ne_nil (by simp),
      List.intercalate_cons_of_ne_nil (by simp), ih]

end Joined
