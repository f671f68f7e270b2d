import Mathlib.Algebra.GroupWithZero.Nat

/-!
# Runs of a labelled transition system

A `System` says which states a component may start in and what each labelled
step does to them. `Reach S ok` is the set of states reached by steps whose
label the *guard* `ok` admits in the state it is taken from: the unrestricted
runs are the guard `free`, and a property that only holds while the
environment behaves is stated over a narrower guard.

The two rules every development over a `System` needs are here once:
`Reach.invariant` (start, one step, every reachable state) and
`Reach.of_run`, which turns an executable trace of a deterministic step
function into a reachability proof, so that a concrete trace is evaluated and
never derived by hand.
-/

namespace Lts

universe u v w

variable {σ : Type u} {α : Type v}

/-- A labelled transition system. -/
structure System (σ : Type u) (α : Type v) where
  init : σ → Prop
  step : σ → α → σ → Prop

/-- The guard of an unrestricted run. -/
def free : σ → α → Prop := fun _ _ => True

/-- States reached from an initial one by steps that `ok` admits. -/
inductive Reach (S : System σ α) (ok : σ → α → Prop) : σ → Prop where
  | start {s : σ} : S.init s → Reach S ok s
  | step {s s' : σ} {a : α} : Reach S ok s → ok s a → S.step s a s' → Reach S ok s'

/-- The same steps from one state on. -/
def System.after (S : System σ α) (s₀ : σ) : System σ α := { S with init := (· = s₀) }

variable {S : System σ α} {ok ok' : σ → α → Prop}

/-- An invariant of the initial states that every admitted step keeps holds in
every reached state. -/
theorem Reach.invariant {I : σ → Prop} (hinit : ∀ s, S.init s → I s)
    (hstep : ∀ s a s', I s → ok s a → S.step s a s' → I s') {s : σ}
    (h : Reach S ok s) : I s := by
  induction h with
  | start h0 => exact hinit _ h0
  | step _ hok hs ih => exact hstep _ _ _ ih hok hs

/-- An invariant may be proved with another one already in hand. -/
theorem Reach.invariant_with {I J : σ → Prop} (hJ : ∀ s, Reach S ok s → J s)
    (hinit : ∀ s, S.init s → I s)
    (hstep : ∀ s a s', J s → I s → ok s a → S.step s a s' → I s') {s : σ}
    (h : Reach S ok s) : I s := by
  induction h with
  | start h0 => exact hinit _ h0
  | step hr hok hs ih => exact hstep _ _ _ (hJ _ hr) ih hok hs

/-- A wider guard reaches at least as much. -/
theorem Reach.mono (h : ∀ s a, ok s a → ok' s a) {s : σ} (hr : Reach S ok s) :
    Reach S ok' s := by
  induction hr with
  | start h0 => exact .start h0
  | step _ hok hs ih => exact .step ih (h _ _ hok) hs

/-- The system of a deterministic step function: a label is enabled when the
function returns a state. -/
def ofNext (init : σ → Prop) (next : σ → α → Option σ) : System σ α where
  init := init
  step s a s' := next s a = some s'

/-- Execute a trace, label by label. -/
def run (next : σ → α → Option σ) : σ → List α → Option σ
  | s, [] => some s
  | s, a :: as =>
    match next s a with
    | none => none
    | some s' => run next s' as

/-- Every label of the trace is admitted in the state it is taken from. -/
def Admitted (ok : σ → α → Prop) (next : σ → α → Option σ) : σ → List α → Prop
  | _, [] => True
  | s, a :: as =>
    ok s a ∧
      match next s a with
      | none => True
      | some s' => Admitted ok next s' as

/-- Whether a trace is admitted is decidable when the guard is. -/
instance Admitted.decidable (ok : σ → α → Prop) (next : σ → α → Option σ)
    [∀ s a, Decidable (ok s a)] : ∀ (s : σ) (as : List α), Decidable (Admitted ok next s as)
  | _, [] => isTrue trivial
  | s, a :: as =>
    let rest : Decidable (match next s a with
        | none => True
        | some s' => Admitted ok next s' as) :=
      match next s a with
      | none => isTrue trivial
      | some s' => Admitted.decidable ok next s' as
    match (inferInstance : Decidable (ok s a)), rest with
    | isTrue h, isTrue h' => isTrue ⟨h, h'⟩
    | isFalse h, _ => isFalse fun hc => h hc.1
    | _, isFalse h' => isFalse fun hc => h' hc.2

instance (s : σ) (a : α) : Decidable (free s a) := isTrue trivial

/-- Every trace is admitted where nothing is asked. -/
theorem admitted_free (next : σ → α → Option σ) : ∀ (as : List α) (s : σ),
    Admitted free next s as := by
  intro as
  induction as with
  | nil => exact fun _ => trivial
  | cons a as ih =>
    intro s
    refine ⟨trivial, ?_⟩
    cases next s a with
    | none => trivial
    | some t => exact ih t

/-- A trace two guards admit. -/
theorem Admitted.and {next : σ → α → Option σ} : ∀ (as : List α) (s : σ),
    Admitted ok next s as → Admitted ok' next s as →
      Admitted (fun s a => ok s a ∧ ok' s a) next s as := by
  intro as
  induction as with
  | nil => exact fun _ _ _ => trivial
  | cons a as ih =>
    intro s h h'
    refine ⟨⟨h.1, h'.1⟩, ?_⟩
    have hrest := h.2
    have hrest' := h'.2
    cases ha : next s a with
    | none => trivial
    | some t =>
      rw [ha] at hrest hrest'
      exact ih t hrest hrest'

/-- The end of an executed trace is reachable. -/
theorem Reach.of_run {init : σ → Prop} {next : σ → α → Option σ} :
    ∀ (as : List α) {s s' : σ}, Reach (ofNext init next) ok s →
      Admitted ok next s as → run next s as = some s' → Reach (ofNext init next) ok s' := by
  intro as
  induction as with
  | nil =>
    intro s s' hr _ hrun
    have he : s = s' := by simpa [run] using hrun
    exact he ▸ hr
  | cons a as ih =>
    intro s s' hr hadm hrun
    cases hn : next s a with
    | none => simp [run, hn] at hrun
    | some t =>
      have hrest : run next t as = some s' := by simpa [run, hn] using hrun
      have hadm' : Admitted ok next t as := by simpa [Admitted, hn] using hadm.2
      exact ih (.step hr hadm.1 hn) hadm' hrest

/-- A trace that executes to its end reaches the state it ends in. -/
theorem Reach.of_trace (ok : σ → α → Prop) {init : σ → Prop} (next : σ → α → Option σ)
    {s : σ} (hs : init s) (as : List α) (hadm : Admitted ok next s as) (hrun : (run next s as).isSome) :
    Reach (ofNext init next) ok ((run next s as).get hrun) :=
  Reach.of_run as (.start hs) hadm (Option.some_get hrun).symm

/-! ## Runs that keep what happened -/

/-- The steps of `next`, with what each of them did, the latest first. -/
def logged {ε : Type w} (next : σ → α → Option σ) (event : σ → α → Option ε) (s : σ × List ε)
    (a : α) : Option (σ × List ε) :=
  match next s.1 a with
  | none => none
  | some s' => some (s', (event s.1 a).toList ++ s.2)

theorem logged_cases {ε : Type w} {next : σ → α → Option σ} {event : σ → α → Option ε}
    {s s' : σ × List ε} {a : α} (h : logged next event s a = some s') :
    next s.1 a = some s'.1 ∧ s'.2 = (event s.1 a).toList ++ s.2 := by
  unfold logged at h
  split at h
  · cases h
  · next t hn =>
    cases h
    exact ⟨hn, rfl⟩

/-- Three threads show every race that is written out as a trace. -/
instance threeThreads : NeZero 3 := ⟨Nat.succ_ne_zero 2⟩

end Lts
