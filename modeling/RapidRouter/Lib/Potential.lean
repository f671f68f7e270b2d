import Mathlib.Algebra.BigOperators.Group.Finset.Basic
import Mathlib.Algebra.GroupWithZero.Nat
import Mathlib.Algebra.Order.BigOperators.Group.Finset
import Mathlib.Logic.Function.Basic
import RapidRouter.Lib.Lts

/-!
# Paying for a run out of a potential

A quantity that every step uses up is bounded over a whole run by a
potential: what a step spends, and the potential it leaves, come to no more
than the potential it found and what the step is granted. `Lts.paid` carries
this from the steps to the runs, next to an invariant the steps rest on.

Where the state is a family of components and a step moves one of them, the
potential is a sum and `sum_update` says what the step does to it.
-/

namespace Lts

universe u v

variable {σ : Type u} {α : Type v} {next : σ → α → Option σ}

/-- What `f` comes to over the steps of a trace, as far as it is enabled. -/
def runTotal (f : σ → α → Nat) (next : σ → α → Option σ) : σ → List α → Nat
  | _, [] => 0
  | s, a :: as =>
    f s a +
      match next s a with
      | none => 0
      | some s' => runTotal f next s' as

theorem runTotal_cons_some (f : σ → α → Nat) {s s' : σ} {a : α} (as : List α)
    (h : next s a = some s') : runTotal f next s (a :: as) = f s a + runTotal f next s' as := by
  show f s a + (match next s a with
    | none => 0
    | some t => runTotal f next t as) = _
  rw [h]

theorem run_cons {s s' : σ} {a : α} {as : List α} (h : run next s (a :: as) = some s') :
    ∃ t, next s a = some t ∧ run next t as = some s' := by
  unfold run at h
  split at h
  · cases h
  · next t ht => exact ⟨t, ht, h⟩

/-- The rule of a potential: one step, every run. -/
theorem paid {ok : σ → α → Prop} {I : σ → Prop} {potential : σ → Nat}
    {spent granted : σ → α → Nat}
    (hstep : ∀ s a s', I s → ok s a → next s a = some s' →
      I s' ∧ potential s' + spent s a ≤ potential s + granted s a) :
    ∀ (as : List α) {s s' : σ}, I s → Admitted ok next s as → run next s as = some s' →
      I s' ∧ potential s' + runTotal spent next s as ≤ potential s + runTotal granted next s as := by
  intro as
  induction as with
  | nil =>
    intro s s' hs _ hrun
    cases hrun
    exact ⟨hs, le_rfl⟩
  | cons a as ih =>
    intro s s' hs hadmitted hrun
    obtain ⟨t, ht, hrest⟩ := run_cons hrun
    obtain ⟨hok, hadmitted⟩ := hadmitted
    rw [ht] at hadmitted
    obtain ⟨hinv, hpays⟩ := hstep s a t hs hok ht
    obtain ⟨hinv', hpays'⟩ := ih hinv hadmitted hrest
    rw [runTotal_cons_some spent as ht, runTotal_cons_some granted as ht]
    exact ⟨hinv', by omega⟩

theorem runTotal_add (f g : σ → α → Nat) : ∀ (as : List α) (s : σ),
    runTotal (fun s a => f s a + g s a) next s as = runTotal f next s as + runTotal g next s as := by
  intro as
  induction as with
  | nil => exact fun _ => rfl
  | cons a as ih =>
    intro s
    unfold runTotal
    cases next s a with
    | none =>
      dsimp only
      omega
    | some t =>
      have := ih t
      dsimp only
      omega

theorem runTotal_mul (c : Nat) (f : σ → α → Nat) : ∀ (as : List α) (s : σ),
    runTotal (fun s a => c * f s a) next s as = c * runTotal f next s as := by
  intro as
  induction as with
  | nil => exact fun _ => rfl
  | cons a as ih =>
    intro s
    unfold runTotal
    rw [Nat.mul_add]
    cases next s a with
    | none => rfl
    | some t => exact congrArg _ (ih t)

/-- What does not depend on the states is a sum over the trace. -/
theorem runTotal_of_run (f : α → Nat) : ∀ (as : List α) {s s' : σ}, run next s as = some s' →
    runTotal (fun _ => f) next s as = (as.map f).sum := by
  intro as
  induction as with
  | nil => exact fun _ => rfl
  | cons a as ih =>
    intro s s' hrun
    obtain ⟨t, ht, hrest⟩ := run_cons hrun
    rw [runTotal_cons_some _ as ht, ih hrest, List.map_cons, List.sum_cons]

/-! ## Families of components -/

variable {ι : Type} [Fintype ι] [DecidableEq ι] {β : Type u}

theorem sum_update (f : β → Nat) (s : ι → β) (i : ι) (x : β) :
    ∑ j, f (Function.update s i x j) + f (s i) = ∑ j, f (s j) + f x := by
  rw [← Finset.add_sum_erase Finset.univ (fun j => f (Function.update s i x j)) (Finset.mem_univ i),
    ← Finset.add_sum_erase Finset.univ (fun j => f (s j)) (Finset.mem_univ i),
    Function.update_self]
  have hsame : ∑ j ∈ Finset.univ.erase i, f (Function.update s i x j) =
      ∑ j ∈ Finset.univ.erase i, f (s j) := by
    refine Finset.sum_congr rfl fun j hj => ?_
    rw [Function.update_of_ne (Finset.ne_of_mem_erase hj)]
  rw [hsame]
  omega

end Lts
