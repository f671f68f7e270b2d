import RapidRouter.Lib.Interleave

/-!
# Parts in force, and parts owed

Operations bring a shared state up to date part by part. A part is in force, or
it is *owed*: some operation under way has still to bring it in. A step may put
a part out of force when the operation goes on owing it, or when another one
owes it; and an operation may end without the part it owed when it is in force,
or owed by another one (`Fate`). Then every part is in force or owed at any time
(`covered_next`), and in force when no operation is under way (`Covered.idle`).
-/

namespace Interleave

universe u

variable {ι : Type u} {σ π κ χ ρ β : Type}

structure Debts (σ π β : Type) where
  inForce : σ → β → Prop
  owes : π → β → Prop

namespace Debts

variable (D : Debts σ π β)

/-- Another operation owes the part. -/
def Elsewhere (s : State ι σ π) (i : ι) (part : β) : Prop := ∃ j, j ≠ i ∧ ∃ q ∈ s.pc j, D.owes q part

/-- Every part is in force, or owed by some operation. -/
def Covered (s : State ι σ π) : Prop :=
  ∀ part, D.inForce s.shared part ∨ ∃ i, ∃ p ∈ s.pc i, D.owes p part

/-- What becomes of a part at a step. -/
inductive Fate (s : State ι σ π) (i : ι) (p : π) (shared : σ) (out : Outcome π ρ) (part : β) : Prop where
  | owed {q : π} : out = .goes q → D.owes q part → Fate s i p shared out part
  | inForce : D.inForce shared part → Fate s i p shared out part
  | elsewhere : D.Elsewhere s i part → Fate s i p shared out part
  | same : (D.inForce s.shared part → D.inForce shared part) → ¬D.owes p part →
      Fate s i p shared out part

variable {D} [DecidableEq ι] {m : Machine σ π κ χ ρ}

theorem covered_initial {shared : σ} (h : ∀ part, D.inForce shared part) :
    D.Covered (Machine.initial shared : State ι σ π) := fun part => .inl (h part)

theorem covered_next {s s' : State ι σ π} {a : Label ι κ χ} (h : D.Covered s)
    (hfate : ∀ i choice p shared out, a = .step i choice → s.pc i = some p →
      m.step s.shared p choice = some (shared, out) → ∀ part, D.Fate s i p shared out part)
    (hnext : m.next s a = some s') : D.Covered s' := by
  intro part
  rcases m.next_cases hnext with ⟨i, call, _, hidle, rfl⟩ | ⟨i, choice, p, shared, out, ha, hp, hstep, rfl⟩
  · rcases h part with hin | ⟨j, q, hq, howes⟩
    · exact .inl hin
    · -- An operation that begins has owed nothing.
      have hji : j ≠ i := by
        rintro rfl
        rw [hidle] at hq
        cases hq
      refine .inr ⟨j, q, ?_, howes⟩
      dsimp only
      rw [Function.update_of_ne hji]
      exact hq
  · -- What another operation owes, it still owes.
    have hother : D.Elsewhere s i part →
        ∃ j, ∃ q ∈ Function.update s.pc i out.position j, D.owes q part := by
      rintro ⟨j, hji, q, hq, howes⟩
      refine ⟨j, q, ?_, howes⟩
      rw [Function.update_of_ne hji]
      exact hq
    cases hfate i choice p shared out ha hp hstep part with
    | owed hgoes howes =>
      refine .inr ⟨i, _, ?_, howes⟩
      dsimp only
      rw [Function.update_self, hgoes]
      rfl
    | inForce hin => exact .inl hin
    | elsewhere helse => exact .inr (hother helse)
    | same hkeep howes =>
      rcases h part with hin | ⟨j, q, hq, hqowes⟩
      · exact .inl (hkeep hin)
      · refine .inr (hother ⟨j, ?_, q, hq, hqowes⟩)
        rintro rfl
        rw [hp] at hq
        obtain rfl := Option.some.inj hq
        exact howes hqowes

omit [DecidableEq ι] in
/-- When nothing is under way, everything is in force. -/
theorem Covered.idle {s : State ι σ π} (h : D.Covered s) (hidle : ∀ i, s.pc i = none) (part : β) :
    D.inForce s.shared part := by
  rcases h part with hin | ⟨i, p, hp, _⟩
  · exact hin
  · rw [hidle i] at hp
    cases hp

end Debts

end Interleave
