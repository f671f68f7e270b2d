import Mathlib.Data.List.Sort
import Mathlib.Data.Prod.Lex

/-!
# Paging by a position in the data

A listing is read page by page. Each page comes with a cursor, the position of
its last item, as long as there is more, and the next page is what the listing
has after the cursor. `Follows` says what a reader gets who follows the cursors
to the end; when what comes after a cursor is the rest of the listing, that is
the listing (`follows_listing`).

A listing in strictly descending order has this, whatever it is filtered by
(`filter_below`). Listings are often put together from stable sorts by a part of
the position only, and the last section says when such a sort is in strictly
descending order.
-/

namespace Keyset

universe u v w

variable {α : Type u} {χ : Type v} {κ : Type w}

/-- What a reader gets from a page on, following the cursors. -/
inductive Follows (page : Option χ → List α × Option χ) : Option χ → List α → Prop where
  | last {after : Option χ} {data : List α} : page after = (data, none) → Follows page after data
  | more {after : Option χ} {data rest : List α} {next : χ} :
      page after = (data, some next) → Follows page (some next) rest → Follows page after (data ++ rest)

theorem Follows.unique {page : Option χ → List α × Option χ} {after : Option χ} {out out' : List α}
    (h : Follows page after out) (h' : Follows page after out') : out = out' := by
  induction h generalizing out' with
  | last hpage =>
    cases h' with
    | last hpage' => exact (Prod.mk.inj (hpage.symm.trans hpage')).1
    | more hpage' _ => exact absurd (Prod.mk.inj (hpage.symm.trans hpage')).2 (by simp)
  | more hpage _ ih =>
    cases h' with
    | last hpage' => exact absurd (Prod.mk.inj (hpage.symm.trans hpage')).2 (by simp)
    | more hpage' hrest' =>
      obtain ⟨rfl, hnext⟩ := Prod.mk.inj (hpage.symm.trans hpage')
      obtain rfl := Option.some.inj hnext
      rw [ih hrest']

/-- Follow the cursors, for so many pages at most. -/
def collect (page : Option χ → List α × Option χ) : Nat → Option χ → Option (List α)
  | 0, _ => none
  | n + 1, after =>
    match page after with
    | (data, none) => some data
    | (data, some next) => (collect page n (some next)).map (data ++ ·)

/-- A loop that follows the cursors comes to the end. -/
theorem Follows.collect_eq {page : Option χ → List α × Option χ} {after : Option χ} {out : List α}
    (h : Follows page after out) : ∃ n, ∀ m ≥ n, collect page m after = some out := by
  induction h with
  | last hpage =>
    refine ⟨1, ?_⟩
    intro m hm
    obtain ⟨m, rfl⟩ : ∃ k, m = k + 1 := ⟨m - 1, by omega⟩
    unfold collect
    rw [hpage]
  | more hpage _ ih =>
    obtain ⟨n, hn⟩ := ih
    refine ⟨n + 1, ?_⟩
    intro m hm
    obtain ⟨m, rfl⟩ : ∃ k, m = k + 1 := ⟨m - 1, by omega⟩
    unfold collect
    rw [hpage]
    dsimp only
    rw [hn m (by omega)]
    rfl

/-- Pages that are the beginning of the listing, with the cursor of their last
item, give the listing. -/
theorem follows_listing {page : Option χ → List α × Option χ} {listing : Option χ → List α}
    {cursor : α → χ} {limit : Nat} (hlimit : 0 < limit)
    (hlast : ∀ after, (listing after).length ≤ limit → page after = (listing after, none))
    (hmore : ∀ after data x rest, listing after = data ++ x :: rest → data.length + 1 = limit →
      rest ≠ [] → page after = (data ++ [x], some (cursor x)))
    (hnext : ∀ after data x rest, listing after = data ++ x :: rest → listing (some (cursor x)) = rest)
    (after : Option χ) : Follows page after (listing after) := by
  generalize hn : (listing after).length = n
  induction n using Nat.strong_induction_on generalizing after with
  | h n ih =>
    by_cases hfits : (listing after).length ≤ limit
    · exact .last (hlast after hfits)
    · -- The page ends before the listing does.
      have hcut : listing after =
          (listing after).take (limit - 1) ++ (listing after).drop (limit - 1) :=
        (List.take_append_drop _ _).symm
      have hlong : limit - 1 < (listing after).length := by omega
      rw [List.drop_eq_getElem_cons hlong] at hcut
      have hrest := hnext after _ _ _ hcut
      have hpage := hmore after _ _ _ hcut (by rw [List.length_take]; omega) (by
        intro hnil
        have hzero := congrArg List.length hnil
        rw [List.length_drop, List.length_nil] at hzero
        omega)
      have hlater := ih ((listing after).length - limit) (by omega) (some (cursor (listing after)[limit - 1]))
        (by rw [hrest, List.length_drop]; omega)
      rw [hrest] at hlater
      have hall := Follows.more hpage hlater
      rw [List.append_assoc, List.singleton_append, ← hcut] at hall
      exact hall

variable [LinearOrder κ]

/-- What comes below an item of a list in strictly descending order is what
comes after it. -/
theorem filter_below {pos : α → κ} {before after : List α} {x : α}
    (h : (before ++ x :: after).Pairwise fun a b => pos b < pos a) :
    ((before ++ x :: after).filter fun a => decide (pos a < pos x)) = after := by
  obtain ⟨_, hx, hcross⟩ := List.pairwise_append.mp h
  obtain ⟨hbelow, _⟩ := List.pairwise_cons.mp hx
  have hbefore : (before.filter fun a => decide (pos a < pos x)) = [] := by
    rw [List.filter_eq_nil_iff]
    intro a ha hlt
    exact absurd (hcross a ha x List.mem_cons_self) (lt_asymm (of_decide_eq_true hlt))
  have hafter : (after.filter fun a => decide (pos a < pos x)) = after := by
    rw [List.filter_eq_self]
    intro a ha
    exact decide_eq_true (hbelow a ha)
  rw [List.filter_append, hbefore, List.filter_cons, if_neg (by simp), hafter, List.nil_append]

/-! ## Stable sorts -/

section
variable {r : α → α → Prop} [DecidableRel r] [Std.Total r] [IsTrans α r]

omit [Std.Total r] in
theorem filter_orderedInsert (p : α → Bool) (a : α) {l : List α} (h : l.Pairwise r) :
    (l.orderedInsert r a).filter p =
      if p a = true then (l.filter p).orderedInsert r a else l.filter p := by
  induction l with
  | nil =>
    rw [List.orderedInsert_nil, List.filter_cons]
    rfl
  | cons b l ih =>
    obtain ⟨hb, hl⟩ := List.pairwise_cons.mp h
    by_cases hab : r a b
    · rw [List.orderedInsert_cons_of_le r l hab, List.filter_cons]
      split
      · -- Everything kept comes after `a`.
        cases hkept : (b :: l).filter p with
        | nil => rfl
        | cons c rest =>
          have hc : c ∈ b :: l := List.mem_of_mem_filter (hkept ▸ List.mem_cons_self)
          have hac : r a c := by
            rcases List.mem_cons.mp hc with rfl | hc
            · exact hab
            · exact IsTrans.trans _ _ _ hab (hb c hc)
          rw [List.orderedInsert_cons_of_le r rest hac]
      · rfl
    · rw [List.orderedInsert_of_not_le r l hab, List.filter_cons, ih hl]
      by_cases hpb : p b = true
      · rw [if_pos hpb, List.filter_cons, if_pos hpb]
        split
        · rw [List.orderedInsert_of_not_le r _ hab]
        · rfl
      · rw [if_neg hpb, List.filter_cons, if_neg hpb]

/-- A stable sort may be filtered before or after. -/
theorem filter_insertionSort (p : α → Bool) (l : List α) :
    (l.insertionSort r).filter p = (l.filter p).insertionSort r := by
  induction l with
  | nil => rfl
  | cons a l ih =>
    rw [List.insertionSort_cons, filter_orderedInsert p a (List.pairwise_insertionSort r l), ih,
      List.filter_cons]
    split <;> rfl

end

/-- Sorting by a key puts a list in strictly descending order of the key and a
second one exactly when items of the same key were in strictly descending order
of the second one. -/
theorem pairwise_sort_iff {ν : Type*} [LinearOrder ν] (key : α → κ) (tie : α → ν) (l : List α) :
    (l.insertionSort fun a b => key b ≤ key a).Pairwise
        (fun a b => toLex (key b, tie b) < toLex (key a, tie a)) ↔
      l.Pairwise fun a b => key a = key b → tie b < tie a := by
  have htotal : Std.Total fun a b : α => key b ≤ key a := ⟨fun a b => le_total _ _⟩
  have htrans : IsTrans α fun a b : α => key b ≤ key a := ⟨fun _ _ _ hab hbc => le_trans hbc hab⟩
  constructor
  · intro h
    rw [List.pairwise_iff_forall_sublist]
    intro a b hab hkey
    have hsorted := List.pairwise_iff_forall_sublist.mp h
      (List.pair_sublist_insertionSort (r := fun a b => key b ≤ key a) (le_of_eq hkey.symm) hab)
    rcases Prod.Lex.toLex_lt_toLex.mp hsorted with hlt | ⟨_, hid⟩
    · exact absurd hlt (by rw [hkey]; exact lt_irrefl _)
    · exact hid
  · intro h
    rw [List.pairwise_iff_forall_sublist]
    intro a b hab
    have hle : key b ≤ key a := List.pairwise_iff_forall_sublist.mp
      (List.pairwise_insertionSort (fun a b => key b ≤ key a) l) hab
    rcases lt_or_eq_of_le hle with hlt | hkey
    · exact Prod.Lex.toLex_lt_toLex.mpr (.inl hlt)
    · -- Items of one key are in the order they had.
      have hsame : ((l.insertionSort fun a b => key b ≤ key a).filter fun x => decide (key x = key a)) =
          l.filter fun x => decide (key x = key a) := by
        rw [filter_insertionSort]
        refine List.Pairwise.insertionSort_eq ?_
        refine List.pairwise_iff_forall_sublist.mpr fun {x y} hxy => ?_
        have hx := List.of_mem_filter (hxy.subset List.mem_cons_self)
        have hy := List.of_mem_filter (hxy.subset (List.mem_cons_of_mem _ List.mem_cons_self))
        rw [of_decide_eq_true hx, of_decide_eq_true hy]
      have hpair := hab.filter fun x => decide (key x = key a)
      rw [hsame] at hpair
      have hkept : [a, b].filter (fun x => decide (key x = key a)) = [a, b] := by
        simp [hkey]
      rw [hkept] at hpair
      have hid := List.pairwise_iff_forall_sublist.mp h (hpair.trans List.filter_sublist) hkey.symm
      exact Prod.Lex.toLex_lt_toLex.mpr (.inr ⟨hkey, hid⟩)

end Keyset
