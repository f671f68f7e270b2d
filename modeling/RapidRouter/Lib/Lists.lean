import Mathlib.Data.List.Basic
import Mathlib.Data.List.Forall2
import Mathlib.Data.List.Perm.Basic

/-!
# Lists

Facts about searching, selecting and removing that several modules use.
-/

namespace Lists

theorem findSome?_filterMap {α β δ : Type} (f : β → Option δ) (g : α → Option β) (l : List α) :
    (l.filterMap g).findSome? f = l.findSome? fun x => (g x).bind f := by
  induction l with
  | nil => rfl
  | cons x l ih =>
    rw [List.findSome?_cons]
    cases hg : g x with
    | none =>
      rw [List.filterMap_cons_none hg]
      exact ih
    | some y =>
      rw [List.filterMap_cons_some hg, List.findSome?_cons, ih]
      rfl

theorem findSome?_map {α β γ : Type} (f : α → Option β) (g : β → γ) (l : List α) :
    (l.findSome? fun a => (f a).map g) = (l.findSome? f).map g := by
  induction l with
  | nil => rfl
  | cons a l ih =>
    rw [List.findSome?_cons, List.findSome?_cons, ih]
    cases f a <;> rfl

theorem findSome?_congr {α δ : Type} {f g : α → Option δ} {l : List α}
    (h : ∀ x ∈ l, f x = g x) : l.findSome? f = l.findSome? g := by
  induction l with
  | nil => rfl
  | cons x l ih =>
    rw [List.findSome?_cons, List.findSome?_cons, h x List.mem_cons_self,
      ih fun y hy => h y (List.mem_cons_of_mem _ hy)]

/-- What holds between any two entries holds across every cut. -/
theorem pairwise_iff_cut {α : Type} {R : α → α → Prop} {l : List α} :
    l.Pairwise R ↔ ∀ xs ys, l = xs ++ ys → ∀ a ∈ xs, ∀ b ∈ ys, R a b := by
  constructor
  · rintro h xs ys rfl
    exact (List.pairwise_append.mp h).2.2
  · intro h
    induction l with
    | nil => exact List.Pairwise.nil
    | cons x l ih =>
      refine List.pairwise_cons.mpr ⟨fun b hb => h [x] l rfl x List.mem_cons_self b hb, ?_⟩
      refine ih fun xs ys hl a ha b hb => ?_
      exact h (x :: xs) ys (congrArg (x :: ·) hl) a (List.mem_cons_of_mem _ ha) b hb

/-- What is counted of a list and of the entry taken out of it. -/
theorem countP_eraseIdx {α : Type} (p : α → Bool) {l : List α} {k : Nat} {x : α}
    (h : l[k]? = some x) : (l.eraseIdx k).countP p + (if p x then 1 else 0) = l.countP p := by
  obtain ⟨hk, hx⟩ := List.getElem?_eq_some_iff.mp h
  rw [← (List.getElem_cons_eraseIdx_perm hk).countP_eq p, List.countP_cons, hx]

section
variable {α β : Type} {f g : α → Option β}

theorem filterMap_length_le {as : List α} (h : ∀ a ∈ as, f a ≠ none → g a ≠ none) :
    (as.filterMap f).length ≤ (as.filterMap g).length := by
  induction as with
  | nil => exact Nat.le_refl _
  | cons a as ih =>
    have hle := ih fun c hc => h c (List.mem_cons_of_mem _ hc)
    have ha := h a List.mem_cons_self
    rw [List.filterMap_cons, List.filterMap_cons]
    cases hf : f a with
    | none => cases g a <;> simp only [List.length_cons] <;> omega
    | some x =>
      rw [hf] at ha
      cases hg : g a with
      | none => exact absurd hg (ha (by simp))
      | some y =>
        simp only [List.length_cons]
        omega

/-- What comes of the parts is the same only if it is the same part for part,
when one of the two never says more. -/
theorem eq_of_filterMap_eq {as : List α} (h : ∀ a ∈ as, f a ≠ none → g a ≠ none)
    (heq : as.filterMap f = as.filterMap g) : ∀ a ∈ as, f a = g a := by
  induction as with
  | nil => exact fun a ha => by cases ha
  | cons a as ih =>
    have hrest : ∀ c ∈ as, f c ≠ none → g c ≠ none := fun c hc => h c (List.mem_cons_of_mem _ hc)
    have hle := filterMap_length_le hrest
    have ha := h a List.mem_cons_self
    rw [List.filterMap_cons, List.filterMap_cons] at heq
    rw [List.forall_mem_cons]
    cases hf : f a with
    | none =>
      rw [hf] at heq
      cases hg : g a with
      | none =>
        rw [hg] at heq
        exact ⟨rfl, ih hrest heq⟩
      | some y =>
        rw [hg] at heq
        have hlength := congrArg List.length heq
        simp only [List.length_cons] at hlength
        omega
    | some x =>
      rw [hf] at heq ha
      cases hg : g a with
      | none => exact absurd hg (ha (by simp))
      | some y =>
        rw [hg] at heq
        simp only [List.cons.injEq] at heq
        exact ⟨by rw [heq.1], ih hrest heq.2⟩

end

section
variable {α β : Type} {P Q R : α → β → Prop} {as : List α} {bs : List β}

/-- Two relations that agree on related elements. -/
theorem forall₂_congr_of (h : List.Forall₂ Q as bs) (hiff : ∀ a b, Q a b → (P a b ↔ R a b)) :
    List.Forall₂ P as bs ↔ List.Forall₂ R as bs := by
  induction h with
  | nil => exact iff_of_true .nil .nil
  | cons hab _ ih => rw [List.forall₂_cons, List.forall₂_cons, hiff _ _ hab, ih]

theorem map_eq_of_forall₂ {γ : Type} {f : α → γ} {g : β → γ}
    (h : List.Forall₂ (fun a b => f a = g b) as bs) : as.map f = bs.map g := by
  induction h with
  | nil => rfl
  | cons hab _ ih => rw [List.map_cons, List.map_cons, hab, ih]

/-- What a relation says of the first element alone. -/
theorem forall₂_iff_forall {C : α → Prop} (h : List.Forall₂ Q as bs)
    (hiff : ∀ a b, Q a b → (P a b ↔ C a)) : List.Forall₂ P as bs ↔ ∀ a ∈ as, C a := by
  induction h with
  | nil => exact iff_of_true .nil fun a ha => by cases ha
  | cons hab _ ih => rw [List.forall₂_cons, List.forall_mem_cons, hiff _ _ hab, ih]

end

end Lists
