import Mathlib.Data.List.Basic

/-!
# Steps that emit

A step that takes a state and an item to a new state and what it emits, run
over a list. `emitAll_forall` carries an invariant of the states through a
run together with what it says of everything emitted.
-/

namespace Emit

universe u v w

variable {σ : Type u} {α : Type v} {ε : Type w}

/-- The last state, and everything emitted on the way. -/
def emitAll (f : σ → α → σ × List ε) (s : σ) : List α → σ × List ε
  | [] => (s, [])
  | a :: rest =>
    let next := f s a
    let last := emitAll f next.1 rest
    (last.1, next.2 ++ last.2)

/-- One step after another. -/
def andThen (a : σ × List ε) (f : σ → σ × List ε) : σ × List ε := ((f a.1).1, a.2 ++ (f a.1).2)

variable {f : σ → α → σ × List ε}

theorem emitAll_append (s : σ) (xs ys : List α) :
    emitAll f s (xs ++ ys) =
      ((emitAll f (emitAll f s xs).1 ys).1, (emitAll f s xs).2 ++ (emitAll f (emitAll f s xs).1 ys).2) := by
  induction xs generalizing s with
  | nil => rfl
  | cons x xs ih =>
    show (let next := f s x
      let last := emitAll f next.1 (xs ++ ys)
      (last.1, next.2 ++ last.2)) = _
    dsimp only
    rw [ih, ← List.append_assoc]
    rfl

/-- What every step keeps and says of its emissions holds of the run. -/
theorem emitAll_forall {I : σ → Prop} {Q : ε → Prop} {xs : List α}
    (hstep : ∀ s x, x ∈ xs → I s → I (f s x).1 ∧ ∀ e ∈ (f s x).2, Q e) {s : σ} (hs : I s) :
    I (emitAll f s xs).1 ∧ ∀ e ∈ (emitAll f s xs).2, Q e := by
  induction xs generalizing s with
  | nil => exact ⟨hs, fun e he => by cases he⟩
  | cons x xs ih =>
    obtain ⟨hnext, hout⟩ := hstep s x List.mem_cons_self hs
    obtain ⟨hlast, hrest⟩ := ih (fun s y hy => hstep s y (List.mem_cons_of_mem _ hy)) hnext
    refine ⟨hlast, fun e he => ?_⟩
    rcases List.mem_append.mp he with he | he
    · exact hout e he
    · exact hrest e he

/-- A step on wrapped states that wraps a step. -/
theorem emitAll_wrap {τ : Type u} {g : τ → α → τ × List ε} {wrap : τ → σ}
    (h : ∀ t a, f (wrap t) a = (wrap (g t a).1, (g t a).2)) (t : τ) (xs : List α) :
    emitAll f (wrap t) xs = (wrap (emitAll g t xs).1, (emitAll g t xs).2) := by
  induction xs generalizing t with
  | nil => rfl
  | cons x xs ih =>
    show ((emitAll f (f (wrap t) x).1 xs).1, (f (wrap t) x).2 ++ (emitAll f (f (wrap t) x).1 xs).2) = _
    rw [h, ih]
    rfl

/-- A step that does what several steps of another do, seen through `v`, and
emits what they emit, as `Q` relates the two. -/
theorem emitAll_flatMap {τ : Type u} {β : Type v} {δ : Type w} {g : τ → β → τ × List δ}
    {h : α → List β} {v : σ → τ} {I : σ → Prop} {Q : List ε → List δ → Prop} (hnil : Q [] [])
    (happend : ∀ {a a' : List ε} {b b' : List δ}, Q a b → Q a' b' → Q (a ++ a') (b ++ b'))
    (hstep : ∀ s x, I s → I (f s x).1 ∧ v (f s x).1 = (emitAll g (v s) (h x)).1 ∧
      Q (f s x).2 (emitAll g (v s) (h x)).2) {s : σ} (hs : I s) (xs : List α) :
    v (emitAll f s xs).1 = (emitAll g (v s) (xs.flatMap h)).1 ∧
      Q (emitAll f s xs).2 (emitAll g (v s) (xs.flatMap h)).2 := by
  induction xs generalizing s with
  | nil => exact ⟨rfl, hnil⟩
  | cons x xs ih =>
    obtain ⟨hnext, hview, hout⟩ := hstep s x hs
    obtain ⟨hlast, hrest⟩ := ih hnext
    rw [hview] at hlast hrest
    rw [List.flatMap_cons, emitAll_append]
    exact ⟨hlast, happend hout hrest⟩

/-- What is kept between a step's state, a fold over all that was emitted, and the
items so far, holds after a run. -/
theorem emitAll_fold {τ : Type u} {g : τ → ε → τ} {R : σ → τ → List α → Prop}
    (hstep : ∀ s t done x, R s t done → R (f s x).1 ((f s x).2.foldl g t) (done ++ [x])) {s : σ}
    {t : τ} {done : List α} (h : R s t done) (xs : List α) :
    R (emitAll f s xs).1 ((emitAll f s xs).2.foldl g t) (done ++ xs) := by
  induction xs generalizing s t done with
  | nil =>
    rw [List.append_nil]
    exact h
  | cons x xs ih =>
    have hrest := ih (hstep s t done x h)
    rw [List.append_assoc] at hrest
    show R _ (((f s x).2 ++ (emitAll f (f s x).1 xs).2).foldl g t) _
    rw [List.foldl_append]
    exact hrest

/-- A step that reads its items, and does nothing with one that it cannot read. -/
theorem emitAll_filterMap {β : Type v} {g : σ → β → σ × List ε} {r : α → Option β}
    (hnone : ∀ s a, r a = none → f s a = (s, []))
    (hsome : ∀ s a b, r a = some b → f s a = g s b) (s : σ) (xs : List α) :
    emitAll f s xs = emitAll g s (xs.filterMap r) := by
  induction xs generalizing s with
  | nil => rfl
  | cons x xs ih =>
    show ((emitAll f (f s x).1 xs).1, (f s x).2 ++ (emitAll f (f s x).1 xs).2) = _
    rw [List.filterMap_cons]
    cases hr : r x with
    | none =>
      rw [hnone s x hr, ih]
      rfl
    | some b =>
      rw [hsome s x b hr, ih]
      rfl

end Emit
