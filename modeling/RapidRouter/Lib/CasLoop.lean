import Mathlib.Logic.Function.Basic
import RapidRouter.Lib.Lts

/-!
# Compare-and-swap loops on one word

The commonest lock-free pattern: any number of threads share one atomic word,
and each performs one update by loading the word, computing the word it wants
from what it read, and publishing it with a *weak* compare-exchange, going
round again with the value the failed exchange returned.

`next` is one atomic step of one thread. The exchange succeeds only on the
word the thread computed from; it may also fail, for no reason (the weak
exchange) or because another thread wrote meanwhile, and both failures are the
`retry` label. The `commits` field is a ghost: the threads whose exchange
succeeded, in the order they did.

`word_eq_fold` is the linearisation: in every reachable state, whatever the
interleaving, the word is the fold of the updates over `commits`, so a claim
about interleavings becomes a claim about the orders in which the updates can
take effect. `commits_nodup` and `mem_commits_iff` say no update is lost or
made twice.
-/

namespace CasLoop

open Lts

universe u v

variable {ι : Type u} {W : Type v}

/-- Where a thread is in its loop. -/
inductive Pc (W : Type v) where
  | ready
  | loaded (w : W)
  | done
  deriving DecidableEq

/-- The shared word, every thread's position, and the order of the commits. -/
structure State (ι : Type u) (W : Type v) where
  word : W
  pc : ι → Pc W
  commits : List ι

/-- One atomic step of one thread. -/
inductive Act (ι : Type u) where
  | load (i : ι)
  | exchange (i : ι)
  | retry (i : ι)

section
variable [DecidableEq ι] [DecidableEq W]

/-- The step function: `upd i w` is the word thread `i` computes from `w`. -/
def next (upd : ι → W → W) (s : State ι W) : Act ι → Option (State ι W)
  | .load i =>
    match s.pc i with
    | .ready => some { s with pc := Function.update s.pc i (.loaded s.word) }
    | _ => none
  | .exchange i =>
    match s.pc i with
    | .loaded w =>
      if s.word = w then
        some ⟨upd i w, Function.update s.pc i .done, s.commits ++ [i]⟩
      else none
    | _ => none
  | .retry i =>
    match s.pc i with
    | .loaded _ => some { s with pc := Function.update s.pc i (.loaded s.word) }
    | _ => none

/-- All threads ready, nothing committed, the word at `w₀`. -/
def start (w₀ : W) : State ι W := ⟨w₀, fun _ => .ready, []⟩

/-- The transition system of the loop. -/
def system (upd : ι → W → W) (w₀ : W) : System (State ι W) (Act ι) :=
  ofNext (· = start w₀) (next upd)

/-- What one step can do: leave word and commits alone and keep every finished
thread finished, or commit one unfinished thread on the current word. -/
theorem next_cases {upd : ι → W → W} {s s' : State ι W} {a : Act ι}
    (h : next upd s a = some s') :
    (∃ i w, a ≠ .exchange i ∧ s.pc i ≠ .done ∧
      s' = { s with pc := Function.update s.pc i (.loaded w) }) ∨
    (∃ i, a = .exchange i ∧ s.pc i = .loaded s.word ∧
      s' = ⟨upd i s.word, Function.update s.pc i .done, s.commits ++ [i]⟩) := by
  cases a with
  | load i =>
    cases hp : s.pc i with
    | ready =>
      simp only [next, hp, Option.some.injEq] at h
      exact .inl ⟨i, s.word, by simp, by simp [hp], h.symm⟩
    | loaded w => simp [next, hp] at h
    | done => simp [next, hp] at h
  | exchange i =>
    cases hp : s.pc i with
    | ready => simp [next, hp] at h
    | loaded w =>
      by_cases hw : s.word = w
      · subst hw
        simp only [next, hp, if_true, Option.some.injEq] at h
        exact .inr ⟨i, rfl, hp, h.symm⟩
      · simp [next, hp, hw] at h
    | done => simp [next, hp] at h
  | retry i =>
    cases hp : s.pc i with
    | ready => simp [next, hp] at h
    | loaded w =>
      simp only [next, hp, Option.some.injEq] at h
      exact .inl ⟨i, s.word, by simp, by simp [hp], h.symm⟩
    | done => simp [next, hp] at h

variable {upd : ι → W → W} {w₀ : W} {ok : State ι W → Act ι → Prop}

/-- **Linearisation.** The word is the fold of the committed updates. -/
theorem word_eq_fold {s : State ι W} (h : Reach (system upd w₀) ok s) :
    s.word = s.commits.foldl (fun w i => upd i w) w₀ := by
  refine h.invariant (I := fun s => s.word = s.commits.foldl (fun w i => upd i w) w₀) ?_ ?_
  · intro s hs
    rw [show s = start w₀ from hs]
    rfl
  · intro s a s' hI _ hstep
    rcases next_cases hstep with ⟨i, w, _, _, rfl⟩ | ⟨i, _, _, rfl⟩
    · exact hI
    · rw [List.foldl_append, ← hI]
      rfl

/-- A thread has committed exactly when it is done. -/
theorem mem_commits_iff {s : State ι W} (h : Reach (system upd w₀) ok s) (j : ι) :
    j ∈ s.commits ↔ s.pc j = .done := by
  refine h.invariant (I := fun s => j ∈ s.commits ↔ s.pc j = .done) ?_ ?_
  · intro s hs
    rw [show s = start w₀ from hs]
    simp [start]
  · intro s a s' hI _ hstep
    rcases next_cases hstep with ⟨i, w, _, hne, rfl⟩ | ⟨i, _, _, rfl⟩
    · by_cases hij : j = i
      · subst hij
        simp [hI, hne]
      · simp [Function.update_of_ne hij, hI]
    · by_cases hij : j = i
      · subst hij
        simp
      · simp [hI, hij]

/-- No update is made twice. -/
theorem commits_nodup {s : State ι W} (h : Reach (system upd w₀) ok s) :
    s.commits.Nodup := by
  refine h.invariant_with (I := fun s => s.commits.Nodup)
    (J := fun s => ∀ j, j ∈ s.commits ↔ s.pc j = .done)
    (fun s hr j => mem_commits_iff hr j) ?_ ?_
  · intro s hs
    rw [show s = start w₀ from hs]
    exact List.nodup_nil
  · intro s a s' hJ hI _ hstep
    rcases next_cases hstep with ⟨i, w, _, _, rfl⟩ | ⟨i, _, hpc, rfl⟩
    · exact hI
    · have hfresh : i ∉ s.commits := by
        rw [hJ i, hpc]
        simp
      exact List.nodup_append.mpr ⟨hI, by simp, fun a ha b hb hab => by
        rw [List.mem_singleton] at hb
        subst hb
        exact hfresh (hab ▸ ha)⟩

end

end CasLoop
