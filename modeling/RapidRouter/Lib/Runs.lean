import Mathlib.Data.List.Chain
import Mathlib.Data.List.Forall2

/-!
# Runs of one key

A list of pieces, each some items under a key, where a piece is put at the end of
the last run when that has its key and opens a run of its own otherwise. The items
keep their order and their key, and neighbouring runs have different keys. A run of
blank pieces is blank; leaving it out may bring two runs of one key together, and
`alternating_filter_merge` says when it does not.
-/

namespace RapidRouter.Runs

variable {κ β : Type}

section
variable [DecidableEq κ]

/-- At the end of the last run, or after it. -/
def push : List (κ × List β) → κ × List β → List (κ × List β)
  | [], p => [p]
  | [last], p => if last.1 = p.1 then [(last.1, last.2 ++ p.2)] else [last, p]
  | run :: next :: rest, p => run :: push (next :: rest) p

def merge (ps : List (κ × List β)) : List (κ × List β) := ps.foldl push []

/-- Before the first run, or at its beginning: `merge` from the other end. -/
def put (p : κ × List β) : List (κ × List β) → List (κ × List β)
  | [] => [p]
  | run :: rest => if p.1 = run.1 then (p.1, p.2 ++ run.2) :: rest else p :: run :: rest

end

/-- The items of a list of runs, each with its key. -/
def tagged (ps : List (κ × List β)) : List (κ × β) := ps.flatMap fun p => p.2.map (p.1, ·)

/-- No two pieces of one key, neighbours but for blank ones, have a blank one of
another key between them. -/
def Unbroken (ps : List (κ × List β)) : Prop :=
  ∀ before first between last after, ps = before ++ first :: (between ++ last :: after) →
    first.2 ≠ [] → last.2 ≠ [] → (∀ p ∈ between, p.2 = []) → first.1 = last.1 →
      ∀ p ∈ between, p.1 = first.1

/-- Neighbours of different keys. -/
def Alternating (ps : List (κ × List β)) : Prop := (ps.map Prod.fst).IsChain (· ≠ ·)

def filled (p : κ × List β) : Bool := !p.2.isEmpty

theorem filled_iff {p : κ × List β} : filled p = true ↔ p.2 ≠ [] := by simp [filled]

theorem blank_of_filled {p : κ × List β} (h : ¬ filled p = true) : p.2 = [] := by
  rw [filled_iff, not_not] at h
  exact h

theorem tagged_cons (p : κ × List β) (ps : List (κ × List β)) :
    tagged (p :: ps) = p.2.map (p.1, ·) ++ tagged ps := List.flatMap_cons

/-- A blank piece has no items. -/
theorem tagged_filter (ps : List (κ × List β)) : tagged (ps.filter filled) = tagged ps := by
  induction ps with
  | nil => rfl
  | cons p ps ih =>
    by_cases h : filled p = true
    · rw [List.filter_cons_of_pos h, tagged_cons, ih, tagged_cons]
    · rw [List.filter_cons_of_neg h, ih, tagged_cons, blank_of_filled h]
      rfl

theorem alternating_cons {p : κ × List β} {runs : List (κ × List β)} :
    Alternating (p :: runs) ↔ Alternating runs ∧ runs.head?.map Prod.fst ≠ some p.1 := by
  unfold Alternating
  cases runs with
  | nil => simp
  | cons run rest =>
    have hkey : p.1 ≠ run.1 ↔ some run.1 ≠ some p.1 := by
      rw [Ne, Ne, Option.some.injEq, eq_comm]
    rw [List.map_cons, List.map_cons, List.isChain_cons_cons, and_comm, hkey]
    rfl

/-! ## Blank runs -/

/-- After a piece of a key, the next with items is not of that key, unless the pieces
between are. -/
def Follows (key : κ) (ps : List (κ × List β)) : Prop :=
  ∀ between last after, ps = between ++ last :: after → last.2 ≠ [] →
    (∀ p ∈ between, p.2 = []) → key = last.1 → ∀ p ∈ between, p.1 = key

theorem follows_nil (key : κ) : Follows key ([] : List (κ × List β)) := by
  intro between last after hps
  exact absurd hps.symm (List.append_ne_nil_of_right_ne_nil _ (List.cons_ne_nil _ _))

theorem unbroken_nil : Unbroken ([] : List (κ × List β)) := by
  intro before first between last after hps
  exact absurd hps.symm (List.append_ne_nil_of_right_ne_nil _ (List.cons_ne_nil _ _))

theorem unbroken_cons {p : κ × List β} {ps : List (κ × List β)} :
    Unbroken (p :: ps) ↔ Unbroken ps ∧ (p.2 ≠ [] → Follows p.1 ps) := by
  constructor
  · intro h
    refine ⟨?_, ?_⟩
    · intro before first between last after hps
      exact h (p :: before) first between last after (by rw [hps]; rfl)
    · intro hp between last after hps hlast hbetween hkey
      exact h [] p between last after (by rw [hps]; rfl) hp hlast hbetween hkey
  · rintro ⟨hrest, hp⟩ before first between last after hps hfirst hlast hbetween hkey
    cases before with
    | nil =>
      obtain ⟨rfl, rfl⟩ := List.cons.inj hps
      exact hp hfirst between last after rfl hlast hbetween hkey
    | cons q before =>
      obtain ⟨rfl, rfl⟩ := List.cons.inj hps
      exact hrest before first between last after rfl hfirst hlast hbetween hkey

theorem follows_filled (key : κ) {p : κ × List β} (hp : p.2 ≠ []) (ps : List (κ × List β)) :
    Follows key (p :: ps) := by
  intro between last after hps _ hbetween _ q hq
  cases between with
  | nil => cases hq
  | cons r between =>
    obtain ⟨rfl, -⟩ := List.cons.inj hps
    exact absurd (hbetween p List.mem_cons_self) hp

theorem follows_blank {p : κ × List β} (hp : p.2 = []) {ps : List (κ × List β)} :
    Follows p.1 (p :: ps) ↔ Follows p.1 ps := by
  constructor
  · intro h between last after hps hlast hbetween hkey q hq
    refine h (p :: between) last after (by rw [hps]; rfl) hlast ?_ hkey q
      (List.mem_cons_of_mem _ hq)
    intro r hr
    rcases List.mem_cons.mp hr with rfl | hr
    · exact hp
    · exact hbetween r hr
  · intro h between last after hps hlast hbetween hkey q hq
    cases between with
    | nil => cases hq
    | cons r between =>
      obtain ⟨rfl, rfl⟩ := List.cons.inj hps
      rcases List.mem_cons.mp hq with rfl | hq
      · rfl
      · exact h between last after rfl hlast
          (fun s hs => hbetween s (List.mem_cons_of_mem _ hs)) hkey q hq

/-- After a blank piece of another key, nothing of the key may come next. -/
theorem follows_other {key : κ} {p : κ × List β} (hp : p.2 = []) (hkey : p.1 ≠ key)
    {ps : List (κ × List β)} :
    Follows key (p :: ps) ↔ (ps.filter filled).head?.map Prod.fst ≠ some key := by
  constructor
  · intro h hhead
    obtain ⟨last, hlast, hname⟩ := Option.map_eq_some_iff.mp hhead
    rw [List.head?_filter, List.find?_eq_some_iff_append] at hlast
    obtain ⟨hfilled, between, after, rfl, hbetween⟩ := hlast
    refine hkey (h (p :: between) last after rfl (filled_iff.mp hfilled) ?_ hname.symm p
      List.mem_cons_self)
    intro r hr
    rcases List.mem_cons.mp hr with rfl | hr
    · exact hp
    · exact blank_of_filled (by simpa using hbetween r hr)
  · intro h between last after hps hlast hbetween hname
    exfalso
    cases between with
    | nil =>
      obtain ⟨rfl, -⟩ := List.cons.inj hps
      exact hlast hp
    | cons r between =>
      obtain ⟨rfl, rfl⟩ := List.cons.inj hps
      apply h
      have hnone : between.filter filled = [] := by
        rw [List.filter_eq_nil_iff]
        intro q hq hfilled
        exact filled_iff.mp hfilled (hbetween q (List.mem_cons_of_mem _ hq))
      show ((between ++ last :: after).filter filled).head?.map Prod.fst = some key
      rw [List.filter_append, hnone, List.filter_cons_of_pos (filled_iff.mpr hlast), hname]
      rfl

/-- Pieces of one key and as many items, of whatever kind. -/
def Alike {γ : Type} (p : κ × List β) (q : κ × List γ) : Prop :=
  p.1 = q.1 ∧ p.2.length = q.2.length

theorem Alike.nil_iff {γ : Type} {p : κ × List β} {q : κ × List γ} (h : Alike p q) :
    p.2 = [] ↔ q.2 = [] := by
  rw [← List.length_eq_zero_iff, ← List.length_eq_zero_iff, h.2]

theorem head_filter_alike {γ : Type} {ps : List (κ × List β)} {qs : List (κ × List γ)}
    (h : List.Forall₂ Alike ps qs) :
    (ps.filter filled).head?.map Prod.fst = (qs.filter filled).head?.map Prod.fst := by
  induction h with
  | nil => rfl
  | @cons p q ps qs hpq _ ih =>
    by_cases hp : filled p = true
    · have hq : filled q = true := filled_iff.mpr (fun hq => filled_iff.mp hp (hpq.nil_iff.mpr hq))
      rw [List.filter_cons_of_pos hp, List.filter_cons_of_pos hq]
      exact congrArg some hpq.1
    · have hq : ¬ filled q = true := fun hq =>
        filled_iff.mp hq (hpq.nil_iff.mp (blank_of_filled hp))
      rw [List.filter_cons_of_neg hp, List.filter_cons_of_neg hq, ih]

theorem follows_alike {γ : Type} {ps : List (κ × List β)} {qs : List (κ × List γ)}
    (h : List.Forall₂ Alike ps qs) (key : κ) : Follows key ps ↔ Follows key qs := by
  induction h with
  | nil => exact iff_of_true (follows_nil key) (follows_nil key)
  | @cons p q ps qs hpq hrest ih =>
    by_cases hp : p.2 = []
    · have hq := hpq.nil_iff.mp hp
      by_cases hkey : p.1 = key
      · have hkey' : q.1 = key := hpq.1.symm.trans hkey
        rw [← hkey] at ih ⊢
        rw [follows_blank hp, ih, hpq.1, follows_blank hq]
      · rw [follows_other hp hkey, follows_other hq (hpq.1 ▸ hkey), head_filter_alike hrest]
    · exact iff_of_true (follows_filled key hp ps)
        (follows_filled key (fun hq => hp (hpq.nil_iff.mpr hq)) qs)

/-- It is the keys and the blanks that decide. -/
theorem unbroken_alike {γ : Type} {ps : List (κ × List β)} {qs : List (κ × List γ)}
    (h : List.Forall₂ Alike ps qs) : Unbroken ps ↔ Unbroken qs := by
  induction h with
  | nil => exact iff_of_true unbroken_nil unbroken_nil
  | cons hpq hrest ih =>
    rw [unbroken_cons, unbroken_cons, ih, follows_alike hrest, hpq.1, Ne, hpq.nil_iff]

section
variable [DecidableEq κ]

/-! ## From the other end -/

theorem put_of_eq {p run : κ × List β} (h : p.1 = run.1) (rest : List (κ × List β)) :
    put p (run :: rest) = (p.1, p.2 ++ run.2) :: rest := if_pos h

theorem put_of_ne {p run : κ × List β} (h : p.1 ≠ run.1) (rest : List (κ × List β)) :
    put p (run :: rest) = p :: run :: rest := if_neg h

theorem push_of_eq {last p : κ × List β} (h : last.1 = p.1) :
    push [last] p = [(last.1, last.2 ++ p.2)] := if_pos h

theorem push_of_ne {last p : κ × List β} (h : last.1 ≠ p.1) : push [last] p = [last, p] := if_neg h

theorem push_cons (run : κ × List β) {rest : List (κ × List β)} (h : rest ≠ [])
    (p : κ × List β) : push (run :: rest) p = run :: push rest p := by
  cases rest with
  | nil => exact absurd rfl h
  | cons next rest => rfl

/-- The two ends do not meet, unless there is one run only. -/
theorem push_put (p q : κ × List β) (runs : List (κ × List β)) :
    push (put p runs) q = put p (push runs q) := by
  cases runs with
  | nil => rfl
  | cons run rest =>
    by_cases hrest : rest = []
    · subst hrest
      by_cases hfirst : p.1 = run.1
      · rw [put_of_eq hfirst]
        by_cases hlast : run.1 = q.1
        · have hends : (p.1, p.2 ++ run.2).1 = q.1 := hfirst.trans hlast
          have hrun : p.1 = (run.1, run.2 ++ q.2).1 := hfirst
          rw [push_of_eq hlast, put_of_eq hrun, push_of_eq hends, List.append_assoc]
        · have hends : (p.1, p.2 ++ run.2).1 ≠ q.1 := fun h => hlast (hfirst.symm.trans h)
          rw [push_of_ne hlast, put_of_eq hfirst, push_of_ne hends]
      · rw [put_of_ne hfirst]
        show p :: push [run] q = put p (push [run] q)
        by_cases hlast : run.1 = q.1
        · have hrun : p.1 ≠ (run.1, run.2 ++ q.2).1 := hfirst
          rw [push_of_eq hlast, put_of_ne hrun]
        · rw [push_of_ne hlast, put_of_ne hfirst]
    · rw [push_cons run hrest]
      by_cases hfirst : p.1 = run.1
      · rw [put_of_eq hfirst, put_of_eq hfirst, push_cons _ hrest]
      · rw [put_of_ne hfirst, put_of_ne hfirst, push_cons p (List.cons_ne_nil _ _),
          push_cons run hrest]

theorem foldl_push_put (p : κ × List β) (ps : List (κ × List β)) (runs : List (κ × List β)) :
    ps.foldl push (put p runs) = put p (ps.foldl push runs) := by
  induction ps generalizing runs with
  | nil => rfl
  | cons q ps ih => rw [List.foldl_cons, push_put, ih, List.foldl_cons]

theorem merge_cons (p : κ × List β) (ps : List (κ × List β)) :
    merge (p :: ps) = put p (merge ps) :=
  foldl_push_put p ps []

/-! ## What is kept -/

theorem tagged_put (p : κ × List β) (runs : List (κ × List β)) :
    tagged (put p runs) = p.2.map (p.1, ·) ++ tagged runs := by
  cases runs with
  | nil => exact tagged_cons p []
  | cons run rest =>
    by_cases h : p.1 = run.1
    · rw [put_of_eq h, tagged_cons, tagged_cons, List.map_append, List.append_assoc, h]
    · rw [put_of_ne h, tagged_cons]

theorem tagged_merge (ps : List (κ × List β)) : tagged (merge ps) = tagged ps := by
  induction ps with
  | nil => rfl
  | cons p ps ih => rw [merge_cons, tagged_put, ih, tagged_cons]

theorem filled_put {p : κ × List β} (hp : filled p = true) {runs : List (κ × List β)}
    (h : ∀ run ∈ runs, filled run = true) : ∀ run ∈ put p runs, filled run = true := by
  intro run hrun
  cases runs with
  | nil =>
    rw [List.mem_singleton.mp hrun]
    exact hp
  | cons first rest =>
    by_cases hkey : p.1 = first.1
    · rw [put_of_eq hkey] at hrun
      rcases List.mem_cons.mp hrun with rfl | hrest
      · rw [filled_iff] at hp ⊢
        exact List.append_ne_nil_of_left_ne_nil hp _
      · exact h run (List.mem_cons_of_mem _ hrest)
    · rw [put_of_ne hkey] at hrun
      rcases List.mem_cons.mp hrun with rfl | hrest
      · exact hp
      · exact h run hrest

theorem filled_merge {ps : List (κ × List β)} (h : ∀ p ∈ ps, filled p = true) :
    ∀ run ∈ merge ps, filled run = true := by
  induction ps with
  | nil => exact fun run hrun => by cases hrun
  | cons p ps ih =>
    rw [merge_cons]
    exact filled_put (h p List.mem_cons_self) (ih fun q hq => h q (List.mem_cons_of_mem _ hq))

/-! ## Neighbours -/

theorem alternating_put (p : κ × List β) {runs : List (κ × List β)} (h : Alternating runs) :
    Alternating (put p runs) := by
  cases runs with
  | nil => exact List.isChain_singleton p.1
  | cons run rest =>
    by_cases hkey : p.1 = run.1
    · rw [put_of_eq hkey]
      show ((p.1 :: rest.map Prod.fst)).IsChain (· ≠ ·)
      rw [hkey]
      exact h
    · rw [put_of_ne hkey]
      exact List.isChain_cons_cons.mpr ⟨hkey, h⟩

theorem alternating_merge (ps : List (κ × List β)) : Alternating (merge ps) := by
  induction ps with
  | nil => exact List.isChain_nil
  | cons p ps ih =>
    rw [merge_cons]
    exact alternating_put p ih

/-- A blank piece leaves what remains of the runs as it is. -/
theorem filter_put_of_blank {p : κ × List β} (hp : ¬ filled p = true)
    (runs : List (κ × List β)) : (put p runs).filter filled = runs.filter filled := by
  cases runs with
  | nil => exact List.filter_cons_of_neg hp
  | cons run rest =>
    by_cases hkey : p.1 = run.1
    · rw [put_of_eq hkey, blank_of_filled hp, hkey]
      rfl
    · rw [put_of_ne hkey, List.filter_cons_of_neg hp]

theorem filter_put_of_eq {p run : κ × List β} (hp : filled p = true) (hkey : p.1 = run.1)
    (rest : List (κ × List β)) :
    (put p (run :: rest)).filter filled = (p.1, p.2 ++ run.2) :: rest.filter filled := by
  have hrun : filled (p.1, p.2 ++ run.2) = true :=
    filled_iff.mpr (List.append_ne_nil_of_left_ne_nil (filled_iff.mp hp) _)
  rw [put_of_eq hkey, List.filter_cons_of_pos hrun]

theorem filter_put_of_ne {p run : κ × List β} (hp : filled p = true) (hkey : p.1 ≠ run.1)
    (rest : List (κ × List β)) :
    (put p (run :: rest)).filter filled = p :: (run :: rest).filter filled := by
  rw [put_of_ne hkey, List.filter_cons_of_pos hp]

/-- The first run that is left has the key of the first piece with items. -/
theorem head_filter_merge (ps : List (κ × List β)) :
    ((merge ps).filter filled).head?.map Prod.fst = (ps.filter filled).head?.map Prod.fst := by
  induction ps with
  | nil => rfl
  | cons p ps ih =>
    rw [merge_cons]
    by_cases hp : filled p = true
    · rw [List.filter_cons_of_pos hp]
      cases merge ps with
      | nil =>
        show (([p] : List (κ × List β)).filter filled).head?.map Prod.fst = some p.1
        rw [List.filter_cons_of_pos hp]
        rfl
      | cons run rest =>
        by_cases hkey : p.1 = run.1
        · rw [filter_put_of_eq hp hkey]
          rfl
        · rw [filter_put_of_ne hp hkey]
          rfl
    · rw [List.filter_cons_of_neg hp, filter_put_of_blank hp, ih]

/-! ## Blank runs left out -/

/-- What comes after a piece of a key, of the runs of the rest: one of the key with
items, or one of another key next. -/
def Clear (key : κ) : List (κ × List β) → Prop
  | [] => True
  | run :: rest =>
    if run.1 = key then filled run = true ∨ (rest.filter filled).head?.map Prod.fst ≠ some key
    else ((run :: rest).filter filled).head?.map Prod.fst ≠ some key

theorem clear_of_eq {key : κ} {run : κ × List β} (h : run.1 = key) (rest : List (κ × List β)) :
    Clear key (run :: rest) ↔
      filled run = true ∨ (rest.filter filled).head?.map Prod.fst ≠ some key := by
  show (if run.1 = key then _ else _) ↔ _
  rw [if_pos h]

theorem clear_of_ne {key : κ} {run : κ × List β} (h : run.1 ≠ key) (rest : List (κ × List β)) :
    Clear key (run :: rest) ↔ ((run :: rest).filter filled).head?.map Prod.fst ≠ some key := by
  show (if run.1 = key then _ else _) ↔ _
  rw [if_neg h]

/-- A piece that is put opens the first run, with its key and its items. -/
theorem put_eq_cons (p : κ × List β) (runs : List (κ × List β)) :
    ∃ run rest, put p runs = run :: rest ∧ run.1 = p.1 ∧ (filled p = true → filled run = true) := by
  cases runs with
  | nil => exact ⟨p, [], rfl, rfl, id⟩
  | cons run rest =>
    by_cases hkey : p.1 = run.1
    · refine ⟨_, rest, put_of_eq hkey rest, rfl, ?_⟩
      intro hp
      exact filled_iff.mpr (List.append_ne_nil_of_left_ne_nil (filled_iff.mp hp) _)
    · exact ⟨p, run :: rest, put_of_ne hkey rest, rfl, id⟩

theorem clear_put_of_blank {p : κ × List β} (hp : ¬ filled p = true) (runs : List (κ × List β)) :
    Clear p.1 (put p runs) ↔ Clear p.1 runs := by
  cases runs with
  | nil =>
    show Clear p.1 [p] ↔ True
    rw [clear_of_eq rfl, iff_true]
    exact .inr (fun h => by cases h)
  | cons run rest =>
    by_cases hkey : p.1 = run.1
    · have hrun : (p.1, p.2 ++ run.2) = run := by
        rw [blank_of_filled hp, hkey]
        rfl
      rw [put_of_eq hkey, hrun]
    · rw [put_of_ne hkey, clear_of_eq rfl, clear_of_ne (Ne.symm hkey), or_iff_right hp]

/-- The pieces follow as their runs do. -/
theorem follows_iff_clear (key : κ) (ps : List (κ × List β)) :
    Follows key ps ↔ Clear key (merge ps) := by
  induction ps with
  | nil => exact iff_of_true (follows_nil key) trivial
  | cons p ps ih =>
    rw [merge_cons]
    obtain ⟨run, rest, hput, hname, hrun⟩ := put_eq_cons p (merge ps)
    by_cases hp : filled p = true
    · refine iff_of_true (follows_filled key (filled_iff.mp hp) ps) ?_
      rw [hput]
      by_cases hkey : p.1 = key
      · exact (clear_of_eq (hname.trans hkey) rest).mpr (.inl (hrun hp))
      · rw [clear_of_ne (hname ▸ hkey), List.filter_cons_of_pos (hrun hp)]
        intro h
        exact hkey (hname.symm.trans (Option.some.inj h))
    · by_cases hkey : p.1 = key
      · subst hkey
        rw [clear_put_of_blank hp, follows_blank (blank_of_filled hp), ih]
      · rw [follows_other (blank_of_filled hp) hkey, ← head_filter_merge, ← filter_put_of_blank hp,
          hput]
        exact (clear_of_ne (hname ▸ hkey) rest).symm

theorem alternating_filter_put {p : κ × List β} (hp : filled p = true)
    (runs : List (κ × List β)) :
    Alternating ((put p runs).filter filled) ↔
      Alternating (runs.filter filled) ∧ Clear p.1 runs := by
  cases runs with
  | nil =>
    refine iff_of_true ?_ ⟨List.isChain_nil, trivial⟩
    show Alternating (([p] : List (κ × List β)).filter filled)
    rw [List.filter_cons_of_pos hp]
    exact List.isChain_singleton p.1
  | cons run rest =>
    by_cases hkey : p.1 = run.1
    · rw [filter_put_of_eq hp hkey, alternating_cons, clear_of_eq hkey.symm]
      by_cases hrun : filled run = true
      · -- The run keeps its key, with more items before.
        rw [List.filter_cons_of_pos hrun, alternating_cons, hkey]
        exact ⟨fun h => ⟨h, .inl hrun⟩, And.left⟩
      · rw [List.filter_cons_of_neg hrun, or_iff_right hrun]
    · rw [filter_put_of_ne hp hkey, alternating_cons, clear_of_ne (Ne.symm hkey)]

/-- **Blank runs left out.** The runs that are left alternate as long as no two pieces
of one key have only blank ones between them, one of another key among these. -/
theorem alternating_filter_merge (ps : List (κ × List β)) :
    Alternating ((merge ps).filter filled) ↔ Unbroken ps := by
  induction ps with
  | nil => exact iff_of_true List.isChain_nil unbroken_nil
  | cons p ps ih =>
    rw [merge_cons, unbroken_cons, ← ih]
    by_cases hp : filled p = true
    · rw [alternating_filter_put hp, follows_iff_clear]
      exact and_congr_right fun _ => ⟨fun h _ => h, fun h => h (filled_iff.mp hp)⟩
    · rw [filter_put_of_blank hp]
      exact ⟨fun h => ⟨h, fun hne => absurd (filled_iff.mpr hne) hp⟩, And.left⟩

end

end RapidRouter.Runs
