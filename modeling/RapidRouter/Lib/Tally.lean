import Mathlib.Algebra.BigOperators.Group.List.Lemmas
import Mathlib.Algebra.BigOperators.Group.List.Basic
import Mathlib.Tactic.Abel
import RapidRouter.Lib.OrdMap

/-!
# Rows that are pure sums

A row is a key with an amount of a commutative monoid, and many rows may stand
under one key. Two lists of rows are the same tally (`Same`) when no selection
by key tells their sums apart. Folding rows onto their keys (`fold`) does not
change the tally, so neither does folding at any other moment, in any order of
reading, or after the keys were made coarser (`Same.mapKey`): this is what lets
sums be cached, merged and read from several places at once.

`group` partitions a list by a key, each part in its own order.
-/

namespace Tally

universe u v w

variable {κ : Type u} {μ : Type v}

/-- The rows a predicate on keys selects. -/
def select (p : κ → Bool) (rows : List (κ × μ)) : List (κ × μ) := rows.filter fun e => p e.1

theorem select_append (p : κ → Bool) (a b : List (κ × μ)) :
    select p (a ++ b) = select p a ++ select p b := List.filter_append ..

theorem select_select (p q : κ → Bool) (rows : List (κ × μ)) :
    select p (select q rows) = select (fun k => p k && q k) rows := List.filter_filter

variable [AddCommMonoid μ]

/-- The sum of some rows. -/
def total (rows : List (κ × μ)) : μ := (rows.map (·.2)).sum

@[simp] theorem total_nil : total ([] : List (κ × μ)) = 0 := rfl

theorem total_cons (e : κ × μ) (rows : List (κ × μ)) : total (e :: rows) = e.2 + total rows := by
  unfold total
  rw [List.map_cons, List.sum_cons]

theorem total_append (a b : List (κ × μ)) : total (a ++ b) = total a + total b := by
  unfold total
  rw [List.map_append, List.sum_append]

theorem total_select_cons (p : κ → Bool) (e : κ × μ) (rows : List (κ × μ)) :
    total (select p (e :: rows)) = (if p e.1 = true then e.2 else 0) + total (select p rows) := by
  unfold select
  rw [List.filter_cons]
  split
  · exact total_cons e _
  · rw [zero_add]

/-! ## The same tally -/

/-- No selection of keys tells the sums of the two apart. -/
def Same (a b : List (κ × μ)) : Prop := ∀ p : κ → Bool, total (select p a) = total (select p b)

theorem Same.refl (a : List (κ × μ)) : Same a a := fun _ => rfl

theorem Same.symm {a b : List (κ × μ)} (h : Same a b) : Same b a := fun p => (h p).symm

theorem Same.trans {a b c : List (κ × μ)} (h : Same a b) (h' : Same b c) : Same a c :=
  fun p => (h p).trans (h' p)

theorem Same.append {a a' b b' : List (κ × μ)} (h : Same a a') (h' : Same b b') :
    Same (a ++ b) (a' ++ b') := by
  intro p
  rw [select_append, select_append, total_append, total_append, h p, h' p]

theorem Same.select {a b : List (κ × μ)} (h : Same a b) (q : κ → Bool) :
    Same (select q a) (select q b) := by
  intro p
  rw [select_select, select_select]
  exact h _

theorem Same.total {a b : List (κ × μ)} (h : Same a b) : total a = total b := by
  have hall : ∀ rows : List (κ × μ), Tally.select (fun _ => true) rows = rows := by
    intro rows
    exact List.filter_true rows
  have htotal := h fun _ => true
  rw [hall, hall] at htotal
  exact htotal

theorem Same.of_perm {a b : List (κ × μ)} (h : a.Perm b) : Same a b := by
  intro p
  exact ((h.filter _).map _).sum_eq

/-- Two parts of a list by the records the rows are made from. -/
theorem Same.of_partition {α : Type w} (f : α → κ × μ) (p : α → Bool) (l : List α) :
    Same ((l.filter p).map f ++ (l.filter fun x => !p x).map f) (l.map f) := by
  rw [← List.map_append]
  exact Same.of_perm ((List.filter_append_perm p l).map f)

/-- Keys may be replaced by others, also by coarser ones. -/
theorem Same.mapKey {κ' : Type w} {a b : List (κ × μ)} (h : Same a b) (f : κ → κ') :
    Same (a.map fun e => (f e.1, e.2)) (b.map fun e => (f e.1, e.2)) := by
  have hpull : ∀ (p : κ' → Bool) (rows : List (κ × μ)),
      Tally.total (Tally.select p (rows.map fun e => (f e.1, e.2))) =
        Tally.total (Tally.select (fun k => p (f k)) rows) := by
    intro p rows
    unfold Tally.select Tally.total
    rw [List.filter_map, List.map_map]
    rfl
  intro p
  rw [hpull, hpull]
  exact h _

theorem Same.flatMap {ι : Type w} {is : List ι} {f g : ι → List (κ × μ)}
    (h : ∀ i ∈ is, Same (f i) (g i)) : Same (is.flatMap f) (is.flatMap g) := by
  induction is with
  | nil => exact Same.refl _
  | cons i is ih =>
    rw [List.flatMap_cons, List.flatMap_cons]
    exact (h i List.mem_cons_self).append (ih fun j hj => h j (List.mem_cons_of_mem _ hj))

/-- A selection of records in two parts. -/
theorem Same.of_split {α : Type w} (f : α → κ × μ) {p q r : α → Bool} {l : List α}
    (h : ∀ x ∈ l, p x = (q x || r x)) (hnot : ∀ x ∈ l, q x = true → r x = false) :
    Same ((l.filter q).map f ++ (l.filter r).map f) ((l.filter p).map f) := by
  have hq : (l.filter p).filter q = l.filter q := by
    rw [List.filter_filter]
    refine List.filter_congr fun x hx => ?_
    rw [h x hx]
    cases q x <;> simp
  have hr : ((l.filter p).filter fun x => !q x) = l.filter r := by
    rw [List.filter_filter]
    refine List.filter_congr fun x hx => ?_
    rw [h x hx]
    cases hqx : q x
    · simp
    · simp [hnot x hx hqx]
  have hparts := Same.of_partition f q (l.filter p)
  rw [hq, hr] at hparts
  exact hparts

/-- A list by key, when every key is there once. -/
theorem Same.of_groups {α ι : Type w} [DecidableEq ι] (f : α → κ × μ) (key : α → ι) {ks : List ι}
    (hks : ks.Nodup) {l : List α} (h : ∀ x ∈ l, key x ∈ ks) :
    Same (ks.flatMap fun k => (l.filter fun x => key x = k).map f) (l.map f) := by
  induction ks generalizing l with
  | nil =>
    have hnil : l = [] := List.eq_nil_iff_forall_not_mem.mpr fun x hx => List.not_mem_nil (h x hx)
    rw [hnil]
    exact Same.refl _
  | cons k ks ih =>
    obtain ⟨hk, hrest⟩ := List.nodup_cons.mp hks
    have hothers : ks.flatMap (fun k' => (l.filter fun x => key x = k').map f) =
        ks.flatMap fun k' => ((l.filter fun x => !decide (key x = k)).filter fun x => key x = k').map f := by
      refine List.flatMap_congr fun k' hk' => ?_
      have hne : k' ≠ k := fun heq => hk (heq ▸ hk')
      rw [List.filter_filter]
      congr 1
      refine List.filter_congr fun x _ => ?_
      by_cases hx : key x = k'
      · simp [hx, hne]
      · simp [hx]
    have hmem : ∀ x ∈ l.filter fun x => !decide (key x = k), key x ∈ ks := by
      intro x hx
      obtain ⟨hin, hxk⟩ := List.mem_filter.mp hx
      rcases List.mem_cons.mp (h x hin) with heq | hlater
      · simp [heq] at hxk
      · exact hlater
    rw [List.flatMap_cons, hothers]
    exact ((Same.refl _).append (ih hrest hmem)).trans
      (Same.of_partition f (fun x => decide (key x = k)) l)

/-! ## Folding onto keys -/

section
variable [LinearOrder κ]

/-- Add a row to those already folded. -/
def absorb (row : κ × μ) : List (κ × μ) → List (κ × μ)
  | [] => [row]
  | (k, x) :: rest =>
    if row.1 < k then row :: (k, x) :: rest
    else if row.1 = k then (k, x + row.2) :: rest
    else (k, x) :: absorb row rest

/-- Add rows one after the other. -/
def absorbAll (rows onto : List (κ × μ)) : List (κ × μ) := rows.foldl (fun acc row => absorb row acc) onto

/-- One row for each key, in key order. -/
def fold (rows : List (κ × μ)) : List (κ × μ) := absorbAll rows []

theorem same_absorb (row : κ × μ) (rows : List (κ × μ)) : Same (absorb row rows) (row :: rows) := by
  induction rows with
  | nil => exact Same.refl _
  | cons e rest ih =>
    obtain ⟨k, x⟩ := e
    unfold absorb
    split
    · exact Same.refl _
    · split
      · next heq =>
        -- One row under the key on the left, two on the right.
        intro p
        rw [total_select_cons, total_select_cons, total_select_cons, heq]
        dsimp only
        by_cases hp : p k = true
        · rw [if_pos hp, if_pos hp, if_pos hp]
          abel
        · rw [if_neg hp, if_neg hp, if_neg hp, zero_add, zero_add]
      · have hcons : Same ((k, x) :: absorb row rest) ((k, x) :: row :: rest) :=
          (Same.refl [(k, x)]).append ih
        exact hcons.trans (Same.of_perm (List.Perm.swap _ _ _))

theorem same_absorbAll (rows onto : List (κ × μ)) : Same (absorbAll rows onto) (onto ++ rows) := by
  induction rows generalizing onto with
  | nil =>
    rw [List.append_nil]
    exact Same.refl _
  | cons row rows ih =>
    have hrest := ih (absorb row onto)
    have hrow : Same (absorb row onto ++ rows) ((row :: onto) ++ rows) :=
      (same_absorb row onto).append (Same.refl rows)
    exact (hrest.trans hrow).trans (Same.of_perm List.perm_middle.symm)

/-- Folding does not change the tally. -/
theorem same_fold (rows : List (κ × μ)) : Same (fold rows) rows := same_absorbAll rows []

theorem mem_keys_absorb {row : κ × μ} {rows : List (κ × μ)} {k : κ} :
    k ∈ (absorb row rows).map Prod.fst ↔ k = row.1 ∨ k ∈ rows.map Prod.fst := by
  induction rows with
  | nil => simp [absorb]
  | cons e rest ih =>
    obtain ⟨j, x⟩ := e
    unfold absorb
    split
    · simp
    · split
      · next heq => simp [heq]
      · rw [List.map_cons, List.mem_cons, ih, List.map_cons, List.mem_cons]
        exact or_left_comm

/-- Every key is kept, and no other comes in. -/
theorem mem_keys_fold {rows : List (κ × μ)} {k : κ} :
    k ∈ (fold rows).map Prod.fst ↔ k ∈ rows.map Prod.fst := by
  have hall : ∀ onto : List (κ × μ), k ∈ (absorbAll rows onto).map Prod.fst ↔
      k ∈ rows.map Prod.fst ∨ k ∈ onto.map Prod.fst := by
    induction rows with
    | nil => intro onto; simp [absorbAll]
    | cons row rows ih =>
      intro onto
      refine (ih (absorb row onto)).trans ?_
      rw [mem_keys_absorb, List.map_cons, List.mem_cons]
      tauto
  have hnil := hall []
  simp only [List.map_nil, List.not_mem_nil, or_false] at hnil
  exact hnil

end

/-! ## The map of sums -/

section
variable [LinearOrder κ]

/-- Add a row to what the map has under its key. -/
def addTo (m : OrdMap κ μ) (row : κ × μ) : OrdMap κ μ :=
  m.insert row.1 (match m.get? row.1 with
    | none => row.2
    | some x => x + row.2)

/-- The sum of the rows under each key. -/
def gather (rows : List (κ × μ)) : OrdMap κ μ := rows.foldl addTo .empty

theorem get?_addTo (m : OrdMap κ μ) (row : κ × μ) (k : κ) :
    (addTo m row).get? k =
      if k = row.1 then some ((m.get? k).elim row.2 (· + row.2)) else m.get? k := by
  unfold addTo
  rw [OrdMap.get?_insert]
  split
  · next hk =>
    subst hk
    cases m.get? row.1 <;> rfl
  · rfl

/-- An entry that starts at zero and is added to. -/
theorem insert_getD (m : OrdMap κ μ) (k : κ) (x : μ) :
    m.insert k ((m.get? k).getD 0 + x) = addTo m (k, x) := by
  unfold addTo
  dsimp only
  cases m.get? k with
  | none => rw [Option.getD_none, zero_add]
  | some y => rfl

theorem get?_gather (rows : List (κ × μ)) (k : κ) :
    (gather rows).get? k =
      if k ∈ rows.map Prod.fst then some (total (select (fun j => decide (j = k)) rows)) else none := by
  unfold gather
  induction rows using List.reverseRecOn with
  | nil => rfl
  | append_singleton rows row ih =>
    rw [List.foldl_append, List.foldl_cons, List.foldl_nil, get?_addTo, ih, select_append,
      total_append, List.map_append]
    by_cases hk : k = row.1
    · subst hk
      have hrow : select (fun j => decide (j = row.1)) [row] = [row] := by
        simp [select]
      have hone : total [row] = row.2 := by
        rw [total_cons, total_nil, add_zero]
      have hin : row.1 ∈ rows.map Prod.fst ++ [row].map Prod.fst :=
        List.mem_append_right _ List.mem_cons_self
      rw [if_pos rfl, hrow, hone, if_pos hin]
      by_cases hmem : row.1 ∈ rows.map Prod.fst
      · rw [if_pos hmem]
        rfl
      · have hnil : select (fun j => decide (j = row.1)) rows = [] := by
          unfold select
          rw [List.filter_eq_nil_iff]
          intro e he heq
          exact hmem (List.mem_map.mpr ⟨e, he, of_decide_eq_true heq⟩)
        rw [if_neg hmem, hnil, total_nil, zero_add]
        rfl
    · have hrow : select (fun j => decide (j = k)) [row] = [] := by
        simp [select, Ne.symm hk]
      rw [if_neg hk, hrow, total_nil, add_zero]
      by_cases hmem : k ∈ rows.map Prod.fst
      · rw [if_pos hmem, if_pos (List.mem_append_left _ hmem)]
      · rw [if_neg hmem, if_neg (by simpa [hk] using hmem)]

/-- The map of sums is the same for rows of the same keys and the same tally. -/
theorem gather_congr {a b : List (κ × μ)} (hkeys : ∀ k, k ∈ a.map Prod.fst ↔ k ∈ b.map Prod.fst)
    (h : Same a b) : gather a = gather b := by
  refine OrdMap.ext_get? fun k => ?_
  rw [get?_gather, get?_gather, h]
  by_cases hk : k ∈ a.map Prod.fst
  · rw [if_pos hk, if_pos ((hkeys k).mp hk)]
  · rw [if_neg hk, if_neg fun hb => hk ((hkeys k).mpr hb)]

theorem gather_perm {a b : List (κ × μ)} (h : a.Perm b) : gather a = gather b :=
  gather_congr (fun _ => (h.map Prod.fst).mem_iff) (Same.of_perm h)

/-- `addTo`, on the entries. -/
theorem entries_addTo (m : OrdMap κ μ) (row : κ × μ) : (addTo m row).entries = absorb row m.entries := by
  have hentries : ∀ l : List (κ × μ), Entries.Sorted l →
      Entries.insert row.1 (match Entries.find? row.1 l with
        | none => row.2
        | some x => x + row.2) l = absorb row l := by
    intro l hl
    induction l with
    | nil => rfl
    | cons e rest ih =>
      obtain ⟨k, x⟩ := e
      obtain ⟨hhead, hrest⟩ := List.pairwise_cons.mp hl
      unfold absorb
      by_cases hlt : row.1 < k
      · -- The key is below all others, so it is not there.
        have hnone : Entries.find? row.1 ((k, x) :: rest) = none := by
          cases hfind : Entries.find? row.1 ((k, x) :: rest) with
          | none => rfl
          | some y =>
            rcases List.mem_cons.mp (Entries.mem_of_find? hfind) with heq | hmem
            · exact absurd hlt (by rw [(Prod.mk.inj heq).1]; exact lt_irrefl _)
            · exact absurd (lt_trans hlt (hhead _ hmem)) (lt_irrefl _)
        rw [hnone, if_pos hlt]
        simp only [Entries.insert, if_pos hlt]
      · rw [if_neg hlt]
        by_cases heq : row.1 = k
        · subst heq
          simp [Entries.insert, Entries.find?]
        · rw [if_neg heq, ← ih hrest]
          simp [Entries.insert, Entries.find?, hlt, heq]
  exact hentries m.entries m.sorted

theorem entries_gather (rows : List (κ × μ)) : (gather rows).entries = fold rows := by
  have hall : ∀ m : OrdMap κ μ, (rows.foldl addTo m).entries = absorbAll rows m.entries := by
    induction rows with
    | nil => intro m; rfl
    | cons row rows ih =>
      intro m
      refine (ih (addTo m row)).trans ?_
      rw [entries_addTo]
      rfl
  exact hall .empty

theorem fold_congr {a b : List (κ × μ)} (hkeys : ∀ k, k ∈ a.map Prod.fst ↔ k ∈ b.map Prod.fst)
    (h : Same a b) : fold a = fold b := by
  rw [← entries_gather, ← entries_gather, gather_congr hkeys h]

theorem fold_perm {a b : List (κ × μ)} (h : a.Perm b) : fold a = fold b := by
  rw [← entries_gather, ← entries_gather, gather_perm h]

theorem fold_fold (rows : List (κ × μ)) : fold (fold rows) = fold rows :=
  fold_congr (fun _ => mem_keys_fold) (same_fold rows)

theorem mem_keys_gather {rows : List (κ × μ)} {k : κ} :
    k ∈ (gather rows).entries.map Prod.fst ↔ k ∈ rows.map Prod.fst := by
  rw [entries_gather]
  exact mem_keys_fold

theorem same_gather (rows : List (κ × μ)) : Same (gather rows).entries rows := by
  rw [entries_gather]
  exact same_fold rows

/-- A map is the map of sums of its entries. -/
theorem gather_entries (m : OrdMap κ μ) : gather m.entries = m := by
  refine OrdMap.ext_get? fun k => ?_
  rw [get?_gather]
  cases hk : m.get? k with
  | none =>
    rw [if_neg]
    intro hmem
    obtain ⟨⟨j, x⟩, he, rfl⟩ := List.mem_map.mp hmem
    rw [OrdMap.mem_entries, hk] at he
    cases he
  | some x =>
    have hx : (k, x) ∈ m.entries := OrdMap.mem_entries.mpr hk
    have hone : select (fun j => decide (j = k)) m.entries = [(k, x)] := by
      have hperm : (select (fun j => decide (j = k)) m.entries).Perm [(k, x)] := by
        refine (List.perm_ext_iff_of_nodup ?_ (List.nodup_singleton _)).mpr fun e => ?_
        · exact (m.nodup_keys.of_map _).filter _
        · obtain ⟨j, y⟩ := e
          unfold select
          rw [List.mem_filter, List.mem_singleton, decide_eq_true_eq, OrdMap.mem_entries]
          constructor
          · intro h
            obtain ⟨hy, rfl⟩ := h
            rw [hk, Option.some.injEq] at hy
            rw [hy]
          · intro h
            obtain ⟨rfl, rfl⟩ := Prod.mk.inj h
            exact ⟨hk, rfl⟩
      exact List.perm_singleton.mp hperm
    rw [if_pos (List.mem_map.mpr ⟨_, hx, rfl⟩), hone, total_cons, total_nil, add_zero]

/-- Rows already summed may stand for the rows they are the sums of. -/
theorem gather_append_gather (a b : List (κ × μ)) :
    gather ((gather a).entries ++ b) = gather (a ++ b) := by
  refine gather_congr (fun k => ?_) ((same_gather a).append (Same.refl b))
  rw [List.map_append, List.map_append, List.mem_append, List.mem_append, mem_keys_gather]

theorem gather_flatMap_gather {ι : Type w} (is : List ι) (f : ι → List (κ × μ)) :
    gather (is.flatMap fun i => (gather (f i)).entries) = gather (is.flatMap f) := by
  refine gather_congr (fun k => ?_) (Same.flatMap fun i _ => same_gather (f i))
  rw [List.map_flatMap, List.map_flatMap, List.mem_flatMap, List.mem_flatMap]
  exact exists_congr fun i => and_congr_right fun _ => mem_keys_gather

/-- Keys may be made coarser before the sums or after. -/
theorem gather_mapKey_gather {κ' : Type w} [LinearOrder κ'] (f : κ → κ') (rows : List (κ × μ)) :
    gather ((gather rows).entries.map fun e => (f e.1, e.2)) = gather (rows.map fun e => (f e.1, e.2)) := by
  refine gather_congr (fun k => ?_) ((same_gather rows).mapKey f)
  have hmap : ∀ l : List (κ × μ),
      k ∈ (l.map fun e => (f e.1, e.2)).map Prod.fst ↔ ∃ j ∈ l.map Prod.fst, f j = k := by
    intro l
    simp [List.mem_map]
  rw [hmap, hmap]
  exact exists_congr fun j => and_congr_left fun _ => mem_keys_gather

/-- Selecting keys before summing or after. -/
theorem gather_select (p : κ → Bool) (rows : List (κ × μ)) :
    (gather (select p rows)).entries = select p (gather rows).entries := by
  have hmap : gather (select p rows) = (gather rows).retain fun k _ => p k := by
    refine OrdMap.ext_get? fun k => ?_
    rw [OrdMap.get?_retain, get?_gather, get?_gather]
    have hmem : k ∈ (select p rows).map Prod.fst ↔ k ∈ rows.map Prod.fst ∧ p k = true := by
      unfold select
      simp only [List.mem_map, List.mem_filter]
      constructor
      · intro h
        obtain ⟨e, ⟨he, hp⟩, rfl⟩ := h
        exact ⟨⟨e, he, rfl⟩, hp⟩
      · intro h
        obtain ⟨⟨e, he, rfl⟩, hp⟩ := h
        exact ⟨e, ⟨he, hp⟩, rfl⟩
    by_cases hp : p k = true
    · have hsame : select (fun j => decide (j = k)) (select p rows) =
          select (fun j => decide (j = k)) rows := by
        rw [select_select]
        unfold select
        refine List.filter_congr fun e _ => ?_
        show (decide (e.1 = k) && p e.1) = decide (e.1 = k)
        by_cases he : e.1 = k
        · rw [he, hp, Bool.and_true]
        · rw [decide_eq_false he, Bool.false_and]
      rw [hsame]
      by_cases hk : k ∈ rows.map Prod.fst
      · rw [if_pos (hmem.mpr ⟨hk, hp⟩), if_pos hk, Option.filter_some, if_pos hp]
      · rw [if_neg fun h => hk (hmem.mp h).1, if_neg hk]
        rfl
    · rw [if_neg fun h => hp (hmem.mp h).2]
      by_cases hk : k ∈ rows.map Prod.fst
      · rw [if_pos hk, Option.filter_some, if_neg hp]
      · rw [if_neg hk]
        rfl
  rw [hmap]
  rfl

/-- Reading the sums is the sums of what is read. -/
theorem gather_map {ν : Type v} [AddCommMonoid ν] (f : μ →+ ν) (rows : List (κ × μ)) :
    (gather (rows.map fun e => (e.1, f e.2))).entries = (gather rows).entries.map fun e => (e.1, f e.2) := by
  have hmap : gather (rows.map fun e => (e.1, f e.2)) = (gather rows).mapValues f := by
    refine OrdMap.ext_get? fun k => ?_
    have hkeys : (rows.map fun e => (e.1, f e.2)).map Prod.fst = rows.map Prod.fst := by
      rw [List.map_map]
      rfl
    have htotal : total (select (fun j => decide (j = k)) (rows.map fun e => (e.1, f e.2))) =
        f (total (select (fun j => decide (j = k)) rows)) := by
      unfold select total
      rw [List.filter_map, List.map_map, map_list_sum, List.map_map]
      rfl
    rw [OrdMap.get?_mapValues, get?_gather, get?_gather, hkeys, htotal]
    split <;> rfl
  rw [hmap]
  rfl

end

/-- A list cut up by a key, as far as the keys are given. -/
theorem perm_cut {α : Type w} [DecidableEq κ] (key : α → κ) {ks : List κ} (h : ks.Nodup) (l : List α) :
    (ks.map fun k => l.filter fun x => key x = k).flatten.Perm (l.filter fun x => key x ∈ ks) := by
  induction ks with
  | nil => simp
  | cons k ks ih =>
    obtain ⟨hk, hks⟩ := List.nodup_cons.mp h
    have hhead : (l.filter fun x => key x ∈ k :: ks).filter (fun x => key x = k) =
        l.filter fun x => key x = k := by
      rw [List.filter_filter]
      refine List.filter_congr fun x _ => ?_
      by_cases hx : key x = k <;> simp [hx]
    have hrest : (l.filter fun x => key x ∈ k :: ks).filter (fun x => !decide (key x = k)) =
        l.filter fun x => key x ∈ ks := by
      rw [List.filter_filter]
      refine List.filter_congr fun x _ => ?_
      by_cases hx : key x = k
      · simp [hx, hk]
      · simp [hx]
    have hsplit := List.filter_append_perm (fun x => decide (key x = k))
      (l.filter fun x => key x ∈ k :: ks)
    rw [hhead, hrest] at hsplit
    rw [List.map_cons, List.flatten_cons]
    exact ((ih hks).append_left _).trans hsplit

/-! ## Partitions -/

section
variable {α : Type w} [LinearOrder κ]

/-- A list by key, each part in the order of the list. -/
def group (f : α → κ) (l : List α) : OrdMap κ (List α) :=
  l.foldl (fun m x => m.insert (f x) ((m.get? (f x)).getD [] ++ [x])) .empty

theorem get?_group (f : α → κ) (l : List α) (k : κ) :
    (group f l).get? k =
      if (l.filter fun x => f x = k) = [] then none else some (l.filter fun x => f x = k) := by
  unfold group
  induction l using List.reverseRecOn with
  | nil => rfl
  | append_singleton l x ih =>
    rw [List.foldl_append, List.foldl_cons, List.foldl_nil, OrdMap.get?_insert, List.filter_append,
      List.filter_singleton]
    by_cases hk : k = f x
    · subst hk
      rw [if_pos rfl, ih]
      by_cases hnil : (l.filter fun y => f y = f x) = []
      · simp [hnil]
      · simp [hnil]
    · have hne : ¬f x = k := fun h => hk h.symm
      rw [if_neg hk, ih]
      simp [hne]

end

end Tally
