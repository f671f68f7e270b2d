/-!
# Following a partial function to its end

`Ends next x z` says that `x`, `next x`, `next (next x)`, … comes to an end at
`z`, where `next` is not defined. A chain that runs in a circle has no end.
What an end depends on is the part of `next` the chain passes through.

`Follows next seen x r` is the recursion that finds the end: it remembers the
points it has passed and gives up at one that comes up again. Where `next` is
defined at finitely many points it always comes to a result
(`exists_follows`), since every step passes one more of them.
-/

namespace Chain

variable {α : Type} (next next' : α → Option α)

inductive Ends : α → α → Prop where
  | last {x : α} : next x = none → Ends x x
  | step {x y z : α} : next x = some y → Ends y z → Ends x z

variable {next next'}

/-- A chain has one end. -/
theorem Ends.unique {x y z : α} (hy : Ends next x y) (hz : Ends next x z) : y = z := by
  induction hy with
  | last hx =>
    cases hz with
    | last => rfl
    | step hstep _ => rw [hx] at hstep; cases hstep
  | step hstep _ ih =>
    cases hz with
    | last hx => rw [hx] at hstep; cases hstep
    | step hstep' hz =>
      rw [hstep, Option.some.injEq] at hstep'
      exact ih (hstep' ▸ hz)

/-- A chain is the same under a function that differs at one point only, when
nothing leads to that point. -/
theorem Ends.congr {n : α} (hsame : ∀ x, x ≠ n → next' x = next x) (hn : ∀ x, next x ≠ some n)
    {x z : α} (hx : x ≠ n) (h : Ends next x z) : Ends next' x z := by
  induction h with
  | last hlast => exact .last ((hsame _ hx).trans hlast)
  | step hstep _ ih =>
    refine .step ((hsame _ hx).trans hstep) (ih ?_)
    rintro rfl
    exact hn _ hstep

/-! ## Finding the end -/

section Follow

variable (next : α → Option α)

/-- Follow `next` from a point where it is defined: `.ok` is the end,
`.error` the first point that came up again. -/
inductive Follows : List α → α → Except α α → Prop where
  | circle {seen : List α} {x : α} : x ∈ seen → Follows seen x (.error x)
  | last {seen : List α} {x y : α} : x ∉ seen → next x = some y → next y = none →
      Follows seen x (.ok y)
  | step {seen : List α} {x y : α} {r : Except α α} : x ∉ seen → next x = some y →
      (next y).isSome → Follows (x :: seen) y r → Follows seen x r

variable {next}

theorem Follows.unique {seen : List α} {x : α} {r r' : Except α α} (h : Follows next seen x r)
    (h' : Follows next seen x r') : r = r' := by
  induction h with
  | circle hx =>
    cases h' with
    | circle => rfl
    | last hnew => exact absurd hx hnew
    | step hnew => exact absurd hx hnew
  | last hnew hstep hlast =>
    cases h' with
    | circle hx => exact absurd hx hnew
    | last _ hstep' =>
      rw [hstep, Option.some.injEq] at hstep'
      rw [hstep']
    | step _ hstep' hmore =>
      rw [hstep, Option.some.injEq] at hstep'
      rw [← hstep', hlast] at hmore
      cases hmore
  | step hnew hstep hmore _ ih =>
    cases h' with
    | circle hx => exact absurd hx hnew
    | last _ hstep' hlast =>
      rw [hstep, Option.some.injEq] at hstep'
      rw [hstep', hlast] at hmore
      cases hmore
    | step _ hstep' _ hrest =>
      rw [hstep, Option.some.injEq] at hstep'
      exact ih (hstep' ▸ hrest)

variable [DecidableEq α]

/-- How many of the points of `dom` were not passed yet. -/
def unseen (dom seen : List α) : Nat := dom.countP (· ∉ seen)

theorem unseen_le (dom seen : List α) : unseen dom seen ≤ dom.length := List.countP_le_length

theorem unseen_cons_le (dom seen : List α) (x : α) : unseen dom (x :: seen) ≤ unseen dom seen := by
  unfold unseen
  refine List.countP_mono_left fun y _ hy => ?_
  rw [decide_eq_true_eq] at hy ⊢
  exact fun hmem => hy (List.mem_cons_of_mem _ hmem)

theorem unseen_cons_lt {dom seen : List α} {x : α} (hx : x ∈ dom) (hnew : x ∉ seen) :
    unseen dom (x :: seen) < unseen dom seen := by
  induction dom with
  | nil => cases hx
  | cons y dom ih =>
    have hle := unseen_cons_le dom seen x
    unfold unseen at ih hle ⊢
    rw [List.countP_cons, List.countP_cons]
    by_cases hy : x = y
    · subst hy
      have hpassed : decide (x ∉ x :: seen) = false := by simp
      have hopen : decide (x ∉ seen) = true := decide_eq_true hnew
      rw [hpassed, hopen, if_neg Bool.false_ne_true, if_pos rfl]
      omega
    · have hrest := ih ((List.mem_cons.mp hx).resolve_left hy)
      have hsame : (y ∉ x :: seen) = (y ∉ seen) := by
        rw [List.mem_cons, not_or]
        exact propext (and_iff_right fun h => hy h.symm)
      simp only [hsame]
      omega

/-- Following comes to a result, whatever was passed before: each step uses
up one of the finitely many points where `next` is defined. -/
theorem exists_follows {dom : List α} (hdom : ∀ x, (next x).isSome → x ∈ dom) {seen : List α}
    {x : α} (hx : (next x).isSome) : ∃ r, Follows next seen x r := by
  by_cases hseen : x ∈ seen
  · exact ⟨_, .circle hseen⟩
  · obtain ⟨y, hy⟩ := Option.isSome_iff_exists.mp hx
    cases hmore : next y with
    | none => exact ⟨_, .last hseen hy hmore⟩
    | some z =>
      have hdefined : (next y).isSome := by rw [hmore]; rfl
      have hless := unseen_cons_lt (hdom x hx) hseen
      obtain ⟨r, hr⟩ : ∃ r, Follows next (x :: seen) y r := exists_follows hdom hdefined
      exact ⟨r, .step hseen hy hdefined hr⟩
termination_by unseen dom seen

end Follow

end Chain
