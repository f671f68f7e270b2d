import Mathlib.Algebra.BigOperators.Fin
import Mathlib.Data.Fintype.BigOperators
import RapidRouter.Lib.Lts

/-!
# Threads on one shared object

Any number of threads call the operations of one shared object, and every
atomic step of an operation is a step of the system, so that a run is any
interleaving of them. A `Machine` gives the position an operation starts at
and what one atomic step from a position does: to the shared state, and to
the thread, which goes on to another position or returns. A step may have
several outcomes (a weak exchange that fails for no reason, a request the
other side refuses); `χ` is what decides between them. A step that is not
enabled is `none`.

Invariants are proved thread by thread. `I` speaks of the shared state alone
and `P` of the shared state and one thread's position: a step must keep `I`,
give `P` to the thread that takes it, and not take `P` from any other
position (`reach_inv`). What the threads hold together is a sum over them
(`held`), and a step changes it by what the moving thread gained or lost
(`held_step`).
-/

namespace Interleave

open Lts

universe u

variable {ι : Type u} {σ π κ χ ρ : Type}

/-- What a thread does next. -/
inductive Outcome (π ρ : Type) where
  | goes (p : π)
  | returns (r : ρ)
  deriving DecidableEq

structure Machine (σ π κ χ ρ : Type) where
  start : κ → π
  step : σ → π → χ → Option (σ × Outcome π ρ)

/-- The shared state and every thread's position; an idle thread has none. -/
structure State (ι : Type u) (σ π : Type) where
  shared : σ
  pc : ι → Option π

inductive Label (ι : Type u) (κ χ : Type) where
  | invoke (i : ι) (call : κ)
  | step (i : ι) (choice : χ)

def Outcome.position : Outcome π ρ → Option π
  | .goes p => some p
  | .returns _ => none

namespace Machine

variable (m : Machine σ π κ χ ρ)

section
variable [DecidableEq ι]

def next (s : State ι σ π) : Label ι κ χ → Option (State ι σ π)
  | .invoke i call =>
    match s.pc i with
    | none => some { s with pc := Function.update s.pc i (some (m.start call)) }
    | some _ => none
  | .step i choice =>
    match s.pc i with
    | none => none
    | some p =>
      match m.step s.shared p choice with
      | none => none
      | some (shared, out) => some ⟨shared, Function.update s.pc i out.position⟩

/-- Every thread idle. -/
def initial (shared : σ) : State ι σ π := ⟨shared, fun _ => none⟩

/-- The runs from one of the shared states `init`. -/
def system (init : σ → Prop) : System (State ι σ π) (Label ι κ χ) :=
  ofNext (fun s => ∃ shared, init shared ∧ s = initial shared) m.next

/-- A step invokes an operation, or takes one atomic step of one. -/
theorem next_cases {s s' : State ι σ π} {a : Label ι κ χ} (h : m.next s a = some s') :
    (∃ i call, a = .invoke i call ∧ s.pc i = none ∧
      s' = { s with pc := Function.update s.pc i (some (m.start call)) }) ∨
    (∃ i choice p shared out, a = .step i choice ∧ s.pc i = some p ∧
      m.step s.shared p choice = some (shared, out) ∧
      s' = ⟨shared, Function.update s.pc i out.position⟩) := by
  cases a with
  | invoke i call =>
    cases hp : s.pc i with
    | none =>
      simp only [next, hp, Option.some.injEq] at h
      exact Or.inl ⟨i, call, rfl, hp, h.symm⟩
    | some p => simp [next, hp] at h
  | step i choice =>
    cases hp : s.pc i with
    | none => simp [next, hp] at h
    | some p =>
      cases hm : m.step s.shared p choice with
      | none => simp [next, hp, hm] at h
      | some result =>
        simp only [next, hp, hm, Option.some.injEq] at h
        exact Or.inr ⟨i, choice, p, result.1, result.2, rfl, hp, hm, h.symm⟩

/-- The result thread `i` returns with from a state, when its next step is
its last. -/
def result (s : State ι σ π) (i : ι) (choice : χ) : Option ρ :=
  match s.pc i with
  | none => none
  | some p =>
    match m.step s.shared p choice with
    | some (_, .returns r) => some r
    | _ => none

omit [DecidableEq ι] in
theorem result_eq_some {m : Machine σ π κ χ ρ} {s : State ι σ π} {i : ι} {choice : χ} {r : ρ} :
    m.result s i choice = some r ↔
      ∃ p shared, s.pc i = some p ∧ m.step s.shared p choice = some (shared, .returns r) := by
  unfold result
  constructor
  · intro h
    split at h
    · cases h
    · next p hp =>
      split at h
      · next shared r' hm =>
        cases h
        exact ⟨p, shared, hp, hm⟩
      · cases h
  · rintro ⟨p, shared, hp, hm⟩
    rw [hp]
    dsimp only
    rw [hm]

/-! ## A call on its own -/

/-- The rest of a call that no other thread comes between, of at most so many
steps, all decided alike. -/
def finish (choice : χ) : Nat → σ → π → Option (σ × ρ)
  | 0, _, _ => none
  | fuel + 1, s, p =>
    match m.step s p choice with
    | none => none
    | some (s', .goes q) => finish choice fuel s' q
    | some (s', .returns r) => some (s', r)

omit [DecidableEq ι] in
theorem finish_goes {m : Machine σ π κ χ ρ} {choice : χ} {fuel : Nat} {s s' : σ} {p q : π}
    (h : m.step s p choice = some (s', .goes q)) :
    m.finish choice (fuel + 1) s p = m.finish choice fuel s' q := by
  rw [finish, h]

omit [DecidableEq ι] in
theorem finish_returns {m : Machine σ π κ χ ρ} {choice : χ} {fuel : Nat} {s s' : σ} {p : π} {r : ρ}
    (h : m.step s p choice = some (s', .returns r)) :
    m.finish choice (fuel + 1) s p = some (s', r) := by
  rw [finish, h]

/-! ## Invariants, thread by thread -/

/-- `I` of the shared state, and `P` of every position. -/
structure Inv (I : σ → Prop) (P : σ → π → Prop) (s : State ι σ π) : Prop where
  shared : I s.shared
  thread : ∀ i p, s.pc i = some p → P s.shared p

variable {m} {I : σ → Prop} {P : σ → π → Prop} {ok : State ι σ π → Label ι κ χ → Prop}

theorem inv_step {s s' : State ι σ π} {a : Label ι κ χ} (h : Inv I P s)
    (hstart : ∀ i call, a = .invoke i call → I s.shared → P s.shared (m.start call))
    (hstep : ∀ i choice p shared out, a = .step i choice → s.pc i = some p →
      I s.shared → P s.shared p → m.step s.shared p choice = some (shared, out) →
      I shared ∧ (∀ q, out = .goes q → P shared q) ∧
        ∀ j q, j ≠ i → s.pc j = some q → P s.shared q → P shared q)
    (hnext : m.next s a = some s') : Inv I P s' := by
  rcases m.next_cases hnext with ⟨i, call, ha, _, rfl⟩ | ⟨i, choice, p, shared, out, ha, hp, hm, rfl⟩
  · refine ⟨h.shared, fun j q hq => ?_⟩
    dsimp only at hq
    by_cases hij : j = i
    · subst hij
      rw [Function.update_self, Option.some.injEq] at hq
      exact hq ▸ hstart j call ha h.shared
    · rw [Function.update_of_ne hij] at hq
      exact h.thread j q hq
  · obtain ⟨hI, hout, hstable⟩ := hstep i choice p shared out ha hp h.shared (h.thread i p hp) hm
    refine ⟨hI, fun j q hq => ?_⟩
    dsimp only at hq
    by_cases hij : j = i
    · subst hij
      rw [Function.update_self] at hq
      cases out with
      | goes r =>
        cases hq
        exact hout _ rfl
      | returns r => cases hq
    · rw [Function.update_of_ne hij] at hq
      exact hstable j q hij hq (h.thread j q hq)

/-- The rule for a machine whose steps keep the invariant whatever the guard. -/
theorem reach_inv {init : σ → Prop} (hinit : ∀ shared, init shared → I shared)
    (hstart : ∀ shared call, I shared → P shared (m.start call))
    (hstep : ∀ shared p choice shared' out, I shared → P shared p →
      m.step shared p choice = some (shared', out) →
      I shared' ∧ (∀ q, out = .goes q → P shared' q) ∧ ∀ q, P shared q → P shared' q)
    {s : State ι σ π} (h : Reach (m.system init) ok s) : Inv I P s := by
  refine h.invariant ?_ ?_
  · rintro s ⟨shared, hshared, rfl⟩
    exact ⟨hinit shared hshared, fun i p hp => by cases hp⟩
  · intro s a s' hinv _ hnext
    refine inv_step hinv (fun i call _ => hstart s.shared call)
      (fun i choice p shared' out _ _ hI hP hm => ?_) hnext
    obtain ⟨hI', hout, hstable⟩ := hstep s.shared p choice shared' out hI hP hm
    exact ⟨hI', hout, fun _ q _ _ => hstable q⟩

end

/-! ## What the threads hold together -/

section
variable [Fintype ι] [DecidableEq ι] (w : π → Nat)

def weight : Option π → Nat
  | none => 0
  | some p => w p

/-- The sum over the threads of what each holds. -/
def held (s : State ι σ π) : Nat := ∑ i, weight w (s.pc i)

omit [DecidableEq ι] in
theorem held_initial (shared : σ) : held w (initial shared : State ι σ π) = 0 :=
  Finset.sum_eq_zero fun _ _ => rfl

theorem held_update (s : State ι σ π) (shared : σ) (i : ι) (q : Option π) :
    held w ⟨shared, Function.update s.pc i q⟩ + weight w (s.pc i) = held w s + weight w q := by
  unfold held
  dsimp only
  have hrest : ∀ f : ι → Nat, ∑ j, f j = f i + ∑ j ∈ Finset.univ.erase i, f j := by
    intro f
    exact (Finset.add_sum_erase Finset.univ f (Finset.mem_univ i)).symm
  rw [hrest, hrest fun j => weight w (s.pc j), Function.update_self]
  have hsame : ∑ j ∈ Finset.univ.erase i, weight w (Function.update s.pc i q j) =
      ∑ j ∈ Finset.univ.erase i, weight w (s.pc j) := by
    refine Finset.sum_congr rfl fun j hj => ?_
    rw [Function.update_of_ne (Finset.ne_of_mem_erase hj)]
  rw [hsame]
  omega

end

end Machine

end Interleave
