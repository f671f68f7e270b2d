import Mathlib.Analysis.SpecialFunctions.Log.Base
import Mathlib.Analysis.SpecialFunctions.Pow.Real
import RapidRouter.Lib.Binary64
import RapidRouter.Lib.Decimal
import RapidRouter.Lib.Json.Text
import RapidRouter.Lib.Ranks
import RapidRouter.Usage.Coarsen

/-!
# Percentiles of a histogram

`percentile` of `router-server/src/histogram.rs`, against the nearest-rank percentile of the
readings themselves. A histogram is that of its readings however they came into it, one by
one, by merging, or through a file (`Built`, `built_eq`), and the walk over its buckets ends
at the bucket of the reading that stands at the rank (`percentile_eq`). Logarithms and
powers are exact; the rank is computed in doubles, and may come out past the exact one.
-/

namespace RapidRouter.Usage.Percentile

open Binary64 Coarsen Json
open Rollup (bucketOf)

/-! ## Buckets -/

/-- The least number whose fourth power reaches `2 ^ b`. -/
def quarterPow (b : Nat) : Nat :=
  let root := Nat.sqrt (Nat.sqrt (2 ^ b))
  if root ^ 4 < 2 ^ b then root + 1 else root

/-- `upper_bound_ms`. The largest doubles are more than a word holds. -/
def upperBoundMs (bucket : Nat) : Nat :=
  if bucket = 0 then 0 else min (quarterPow bucket) (2 ^ 64 - 1)

/-- The fastest reading a bucket can hold. -/
def lowerBoundMs (bucket : Nat) : Nat := if bucket = 0 then 0 else quarterPow (bucket - 1)

def widthMs (bucket : Nat) : Nat := upperBoundMs bucket - lowerBoundMs bucket

/-- `bucket_of`, of a number. -/
def bucket (ms : Nat) : Nat := if ms = 0 then 0 else min (Nat.log2 (ms ^ 4) + 1) 96

/-! ## The walk -/

/-- The rank of `percentile`. It is computed in doubles, of which none is infinite here. -/
def rankOf (p total : UInt64) : UInt64 :=
  let share := nearest (nearest p.toNat / 100)
  let product := nearest (share * nearest total.toNat)
  (min (max ⌈product⌉ 1).toNat (2 ^ 64 - 1)).toUInt64

/-- The loop of `percentile`. -/
def walk (rank : UInt64) : UInt64 → List (Nat × UInt64) → Option Nat
  | _, [] => none
  | seen, (bucket, count) :: rest =>
    if rank ≤ seen + count then some bucket else walk rank (seen + count) rest

/-- `percentile`. -/
def percentile (h : LatencyHistogram) (p : UInt64) : Nat :=
  let total := h.count
  if total = 0 then 0
  else
    let entries := h.buckets.entries
    match walk (rankOf p total) 0 entries with
    | some bucket => upperBoundMs bucket
    | none => ((entries.getLast?.map (·.1)).map upperBoundMs).getD 0

/-! ## On disk -/

/-- A bucket as the key of a JSON object. -/
def keyOf (bucket : Nat) : String := String.ofList (Nat.toDigits 10 bucket)

/-- A histogram as `serde_json` writes it. -/
def encode (h : LatencyHistogram) : Bytes :=
  (Value.object (h.buckets.entries.map fun e =>
    (keyOf e.1, .number (.posInt e.2.toNat e.2.toNat_lt)))).print

/-- An unsigned number of so many bits. -/
def unsignedOf (bits : Nat) : Raw → Option Nat
  | .number lit =>
    match lit.toNumber with
    | some (.posInt n _) => if n < 2 ^ bits then some n else none
    | _ => none
  | _ => none

/-- The key of a map with numbers for keys: one number, with nothing around it. -/
def bucketKey (content : Bytes) : Option Nat :=
  if content.any isWs then none else (parse content).bind (unsignedOf 16)

/-- One member of the object that is read. -/
def decodeMember (member : Bytes × Raw) : Option (Nat × UInt64) :=
  (bucketKey member.1).bind fun bucket =>
    (unsignedOf 64 member.2).map fun count => (bucket, count.toUInt64)

/-- A histogram as `serde_json` reads it. -/
def decode (text : Bytes) : Option LatencyHistogram :=
  match parse text with
  | some (.object members) => (members.mapM decodeMember).map fun entries => ⟨.ofList entries⟩
  | _ => none

/-! ## How readings come into a histogram -/

/-- The ways to a histogram of readings: recorded, merged, and written and read back. What
cannot be read back is lost. -/
inductive Built : Multiset Nat → LatencyHistogram → Prop
  | empty : Built 0 .empty
  | record {s : Multiset Nat} {h : LatencyHistogram} (hs : Built s h) (ms : Nat) :
    Built (ms ::ₘ s) (h.record ms.toUInt64)
  | merge {s t : Multiset Nat} {a b : LatencyHistogram} (ha : Built s a) (hb : Built t b) :
    Built (s + t) (a.merge b)
  | reload {s : Multiset Nat} {h : LatencyHistogram} (hs : Built s h) :
    Built s ((decode (encode h)).getD .empty)

/-! ## What it should report -/

/-- The rank of a percentile. -/
def nearestRank (p n : Nat) : Nat := max 1 ((p * n + 99) / 100)

/-- The reading that stands at a rank, the last for a rank that is past it. -/
def readingAt (s : Multiset Nat) (rank : Nat) : Nat := (s.sort)[min rank s.card - 1]?.getD 0

/-- A report that is not too fast, and too slow by a bucket's width at most. -/
structure Within (exact reported : Nat) : Prop where
  slow : exact ≤ reported
  near : ∃ b, upperBoundMs b = reported ∧ reported ≤ exact + widthMs b

/-! ## Bounds of buckets -/

theorem quarterPow_le_iff {b m : Nat} : quarterPow b ≤ m ↔ 2 ^ b ≤ m ^ 4 := by
  unfold quarterPow
  generalize 2 ^ b = n
  dsimp only
  have hlow : Nat.sqrt (Nat.sqrt n) ^ 4 ≤ n := by
    have hinner := Nat.sqrt_le' (Nat.sqrt n)
    calc Nat.sqrt (Nat.sqrt n) ^ 4 = (Nat.sqrt (Nat.sqrt n) ^ 2) ^ 2 := by ring
      _ ≤ Nat.sqrt n ^ 2 := Nat.pow_le_pow_left hinner 2
      _ ≤ n := Nat.sqrt_le' n
  have hhigh : n < (Nat.sqrt (Nat.sqrt n) + 1) ^ 4 := by
    have hinner : Nat.sqrt n + 1 ≤ (Nat.sqrt (Nat.sqrt n) + 1) ^ 2 := Nat.lt_succ_sqrt' _
    calc n < (Nat.sqrt n + 1) ^ 2 := Nat.lt_succ_sqrt' n
      _ ≤ ((Nat.sqrt (Nat.sqrt n) + 1) ^ 2) ^ 2 := Nat.pow_le_pow_left hinner 2
      _ = (Nat.sqrt (Nat.sqrt n) + 1) ^ 4 := by ring
  generalize Nat.sqrt (Nat.sqrt n) = root at *
  by_cases hless : root ^ 4 < n
  · rw [if_pos hless]
    constructor
    · exact fun h => hhigh.le.trans (Nat.pow_le_pow_left h 4)
    · intro h
      by_contra hle
      exact absurd (h.trans (Nat.pow_le_pow_left (show m ≤ root by omega) 4)) (by omega)
  · rw [if_neg hless]
    have hroot : root ^ 4 = n := by omega
    constructor
    · exact fun h => hroot ▸ Nat.pow_le_pow_left h 4
    · intro h
      by_contra hle
      have hbelow : m ^ 4 < root ^ 4 := Nat.pow_lt_pow_left (by omega) (by decide)
      omega

theorem quarterPow_pos (b : Nat) : 0 < quarterPow b := by
  by_contra hzero
  have hpow := quarterPow_le_iff.mp (show quarterPow b ≤ 0 by omega)
  have hpos : 0 < 2 ^ b := Nat.pow_pos (by decide)
  omega

theorem quarterPow_mono {a b : Nat} (h : a ≤ b) : quarterPow a ≤ quarterPow b := by
  rw [quarterPow_le_iff]
  exact (Nat.pow_le_pow_right (by decide) h).trans (quarterPow_le_iff.mp le_rfl)

/-- The upper bounds are those of the source, with the power taken exactly. -/
theorem quarterPow_eq_ceil (b : Nat) : quarterPow b = ⌈(2 : ℝ) ^ ((b : ℝ) / 4)⌉₊ := by
  have hle (m : Nat) : quarterPow b ≤ m ↔ ⌈(2 : ℝ) ^ ((b : ℝ) / 4)⌉₊ ≤ m := by
    have hpow : ((2 : ℝ) ^ ((b : ℝ) / 4)) ^ 4 = 2 ^ b := by
      rw [← Real.rpow_natCast, ← Real.rpow_mul (by norm_num), ← Real.rpow_natCast]
      norm_num
    have hreal : (2 : ℝ) ^ ((b : ℝ) / 4) ≤ m ↔ (2 : ℝ) ^ b ≤ (m : ℝ) ^ 4 := by
      rw [← hpow]
      exact (pow_le_pow_iff_left₀ (by positivity) (Nat.cast_nonneg m) (by decide)).symm
    rw [quarterPow_le_iff, Nat.ceil_le, hreal]
    exact_mod_cast Iff.rfl
  exact le_antisymm ((hle _).mpr le_rfl) ((hle _).mp le_rfl)

/-- A bucket's number is that of the source, with the logarithm taken exactly. -/
theorem bucket_eq_floor {ms : Nat} (h : 0 < ms) :
    (bucket ms : ℤ) = min (max (⌊4 * Real.logb 2 ms⌋ + 1) 1) 96 := by
  have hfloor : ⌊4 * Real.logb 2 ms⌋ = Nat.log2 (ms ^ 4) := by
    have hpow : 4 * Real.logb 2 (ms : ℝ) = Real.logb 2 ((ms ^ 4 : ℕ) : ℝ) := by
      rw [Nat.cast_pow, Real.logb_pow]
      norm_num
    have hcast : ((2 : ℕ) : ℝ) = 2 := rfl
    rw [hpow, ← hcast, Real.floor_logb_natCast (Nat.cast_nonneg _), Int.log_natCast,
      Nat.log2_eq_log_two]
  unfold bucket
  rw [if_neg h.ne', hfloor, max_eq_left (by omega)]
  exact_mod_cast rfl

/-! ## Readings in buckets -/

theorem bucketOf_eq {ms : Nat} (h : ms < 2 ^ 64) : bucketOf ms.toUInt64 = bucket ms := by
  have hms : ms.toUInt64.toNat = ms := UInt64.toNat_ofNat_of_lt' h
  unfold bucketOf bucket
  by_cases hzero : ms = 0
  · subst hzero
    rfl
  · rw [if_neg hzero, if_neg, hms]
    intro heq
    rw [heq] at hms
    exact hzero hms.symm

theorem bucket_mono : Monotone bucket := by
  intro a b h
  unfold bucket
  rw [Nat.log2_eq_log_two, Nat.log2_eq_log_two]
  have hlog : Nat.log 2 (a ^ 4) ≤ Nat.log 2 (b ^ 4) :=
    Nat.log_mono_right (Nat.pow_le_pow_left h 4)
  split <;> split <;> omega

theorem bucket_le (ms : Nat) : bucket ms ≤ 96 := by
  unfold bucket
  split <;> omega

/-- A reading is past a bucket from its upper bound on. -/
theorem lt_bucket_iff {ms b : Nat} (h : ms < 2 ^ 24) : b < bucket ms ↔ quarterPow b ≤ ms := by
  by_cases hzero : ms = 0
  · subst hzero
    have hpos := quarterPow_pos b
    exact iff_of_false (Nat.not_lt_zero b) (by omega)
  · have hpow : ms ^ 4 ≠ 0 := pow_ne_zero 4 hzero
    have hlog : Nat.log2 (ms ^ 4) < 96 := by
      rw [Nat.log2_lt hpow]
      calc ms ^ 4 < (2 ^ 24) ^ 4 := Nat.pow_lt_pow_left h (by decide)
        _ = 2 ^ 96 := by norm_num
    have hle : b ≤ Nat.log2 (ms ^ 4) ↔ 2 ^ b ≤ ms ^ 4 := Nat.le_log2 hpow
    rw [quarterPow_le_iff, ← hle]
    unfold bucket
    rw [if_neg hzero]
    omega

theorem upperBoundMs_eq {b : Nat} (hpos : b ≠ 0) (h : b ≤ 96) :
    upperBoundMs b = quarterPow b := by
  have hle : quarterPow b ≤ 2 ^ 24 := by
    rw [quarterPow_le_iff]
    exact (Nat.pow_le_pow_right (by decide) h).trans (by norm_num)
  unfold upperBoundMs
  rw [if_neg hpos]
  omega

/-- A bucket's readings are between its bounds. -/
theorem bounds_of_bucket {ms : Nat} (h : ms < 2 ^ 24) :
    lowerBoundMs (bucket ms) ≤ ms ∧ ms ≤ upperBoundMs (bucket ms) := by
  by_cases hzero : bucket ms = 0
  · have hms : ¬ quarterPow 0 ≤ ms := fun hle => by
      have hlt := (lt_bucket_iff h).mpr hle
      omega
    have hone : quarterPow 0 ≤ 1 := quarterPow_le_iff.mpr (by decide)
    rw [hzero]
    exact ⟨Nat.zero_le _, by omega⟩
  · have hlow := (lt_bucket_iff h).mp (show bucket ms - 1 < bucket ms by omega)
    have hhigh : ¬ quarterPow (bucket ms) ≤ ms := fun hle =>
      absurd ((lt_bucket_iff h).mpr hle) (lt_irrefl _)
    rw [upperBoundMs_eq hzero (bucket_le ms)]
    unfold lowerBoundMs
    rw [if_neg hzero]
    exact ⟨hlow, by omega⟩

/-- A bucket's bound is a right report for the readings of the bucket and for the bound
itself, and for no other reading. -/
theorem within_iff {x y : Nat} (hx : x < 2 ^ 24) (hy : y < 2 ^ 24) :
    Within x (upperBoundMs (bucket y)) ↔
      bucket x = bucket y ∨ x = upperBoundMs (bucket y) := by
  constructor
  · rintro ⟨hslow, b, hb, hnear⟩
    by_cases hedge : x = upperBoundMs (bucket y)
    · exact Or.inr hedge
    refine Or.inl ?_
    have hypos : bucket y ≠ 0 := fun hzero => by
      rw [hzero] at hslow hedge
      exact hedge (Nat.le_antisymm hslow (Nat.zero_le _))
    rw [upperBoundMs_eq hypos (bucket_le y)] at hslow hedge hb hnear
    -- The reading is before the bucket's end, so it is in no later bucket.
    have hupper : ¬ bucket y < bucket x := fun hlt => by
      have hle := (lt_bucket_iff hx).mp hlt
      omega
    have hylow := (lt_bucket_iff hy).mp (show bucket y - 1 < bucket y by omega)
    have hyhigh : ¬ quarterPow (bucket y) ≤ y := fun hle =>
      absurd ((lt_bucket_iff hy).mpr hle) (lt_irrefl _)
    have hbpos : b ≠ 0 := fun hzero => by
      have hpos := quarterPow_pos (bucket y)
      rw [hzero] at hb
      exact absurd hb.symm hpos.ne'
    -- A bucket of the same bound that has readings is not before it.
    have hbounds : lowerBoundMs b ≤ x := by
      unfold widthMs at hnear
      omega
    have hlower : lowerBoundMs b = quarterPow (b - 1) := if_neg hbpos
    rw [hlower] at hbounds
    have hbucket : bucket y ≤ b := by
      by_contra hless
      have hmono := quarterPow_mono (show b ≤ bucket y - 1 by omega)
      have hbq : upperBoundMs b ≤ quarterPow b := by
        unfold upperBoundMs
        rw [if_neg hbpos]
        exact Nat.min_le_left _ _
      omega
    have hin := (lt_bucket_iff hx).mpr ((quarterPow_mono (show bucket y - 1 ≤ b - 1 by
      omega)).trans hbounds)
    omega
  · rintro (hsame | hedge)
    · rw [← hsame]
      obtain ⟨hlow, hhigh⟩ := bounds_of_bucket hx
      refine ⟨hhigh, _, rfl, ?_⟩
      unfold widthMs
      omega
    · exact ⟨hedge.le, _, rfl, by omega⟩

/-! ## The histogram of some readings -/

theorem toNat_word {n : Nat} (h : n < 2 ^ 64) : n.toUInt64.toNat = n :=
  UInt64.toNat_ofNat_of_lt' h

/-- The histogram that has recorded the readings. -/
def ofSamples (s : Multiset Nat) : LatencyHistogram :=
  (s.map fun ms => LatencyHistogram.single ms.toUInt64).sum

theorem ofSamples_zero : ofSamples 0 = .empty := rfl

theorem ofSamples_add (s t : Multiset Nat) :
    ofSamples (s + t) = (ofSamples s).merge (ofSamples t) := by
  unfold ofSamples
  rw [Multiset.map_add, Multiset.sum_add]
  rfl

theorem ofSamples_cons (ms : Nat) (s : Multiset Nat) :
    ofSamples (ms ::ₘ s) = (ofSamples s).record ms.toUInt64 := by
  have hadd := add_comm (LatencyHistogram.single ms.toUInt64) (ofSamples s)
  rw [LatencyHistogram.record_eq]
  unfold ofSamples at hadd ⊢
  rw [Multiset.map_cons, Multiset.sum_cons]
  exact hadd

/-- A bucket has an entry when it has a reading, and the entry counts them. -/
theorem get?_ofSamples {s : Multiset Nat} (h : ∀ ms ∈ s, ms < 2 ^ 64) (b : Nat) :
    (ofSamples s).buckets.get? b =
      if b ∈ s.map bucket then some ((s.map bucket).count b).toUInt64 else none := by
  induction s using Multiset.induction generalizing b with
  | empty => rfl
  | cons ms s ih =>
    have hrest := ih fun ms hms => h ms (Multiset.mem_cons_of_mem hms)
    have hbucket := bucketOf_eq (h ms (Multiset.mem_cons_self ms s))
    rw [ofSamples_cons]
    unfold LatencyHistogram.record
    have hcount : ((ofSamples s).buckets.get? (bucket ms)).getD 0 =
        ((s.map bucket).count (bucket ms)).toUInt64 := by
      rw [hrest]
      split
      · rfl
      · next hnone => rw [Multiset.count_eq_zero_of_notMem hnone]; rfl
    rw [hbucket, OrdMap.get?_insert, hcount, hrest, Multiset.map_cons]
    by_cases heq : b = bucket ms
    · subst heq
      rw [if_pos rfl, if_pos (Multiset.mem_cons_self _ _), Multiset.count_cons_self]
      exact congrArg some (UInt64.ofNat_add _ _).symm
    · rw [if_neg heq, Multiset.count_cons_of_ne heq]
      by_cases hmem : b ∈ s.map bucket
      · rw [if_pos hmem, if_pos (Multiset.mem_cons_of_mem hmem)]
      · rw [if_neg hmem, if_neg fun h => hmem ((Multiset.mem_cons.mp h).resolve_left heq)]

theorem count_merge (a b : LatencyHistogram) : (a + b).count = a.count + b.count := by
  show Tally.total (a + b).buckets.entries = Tally.total a.buckets.entries +
    Tally.total b.buckets.entries
  rw [LatencyHistogram.add_buckets, (Tally.same_gather _).total, Tally.total_append]

theorem count_ofSamples (s : Multiset Nat) : (ofSamples s).count = s.card.toUInt64 := by
  induction s using Multiset.induction with
  | empty => rfl
  | cons ms s ih =>
    have hone : (LatencyHistogram.single ms.toUInt64).count = 1 := rfl
    have hcons : ofSamples (ms ::ₘ s) = LatencyHistogram.single ms.toUInt64 + ofSamples s := by
      unfold ofSamples
      rw [Multiset.map_cons, Multiset.sum_cons]
    rw [hcons, count_merge, hone, ih, Multiset.card_cons, add_comm]
    exact (UInt64.ofNat_add _ _).symm

/-- The entries as numbers. -/
def countsOf (h : LatencyHistogram) : List (Nat × Nat) :=
  h.buckets.entries.map fun e => (e.1, e.2.toNat)

theorem sorted_countsOf (h : LatencyHistogram) : Entries.Sorted (countsOf h) :=
  List.pairwise_map.mpr h.buckets.sorted

theorem find?_countsOf (h : LatencyHistogram) (b : Nat) :
    Entries.find? b (countsOf h) = (h.buckets.get? b).map UInt64.toNat :=
  Entries.find?_mapValues UInt64.toNat b h.buckets.entries

theorem toNat_count {s : Multiset Nat} (hcard : s.card < 2 ^ 64) (b : Nat) :
    ((s.map bucket).count b).toUInt64.toNat = (s.map bucket).count b := by
  have hle := Multiset.count_le_card b (s.map bucket)
  rw [Multiset.card_map] at hle
  exact toNat_word (by omega)

/-- Each bucket written as often as it is counted, the buckets of the readings are sorted. -/
theorem expand_countsOf {s : Multiset Nat} (hcard : s.card < 2 ^ 64)
    (h : ∀ ms ∈ s, ms < 2 ^ 64) :
    Ranks.expand (countsOf (ofSamples s)) = s.sort.map bucket := by
  rw [← Ranks.sort_map bucket_mono]
  refine Ranks.eq_sort (Ranks.pairwise_expand (sorted_countsOf _)) fun b => ?_
  rw [Ranks.count_expand (sorted_countsOf _), find?_countsOf, get?_ofSamples h]
  split
  · exact toNat_count hcard b
  · next hnone => exact (Multiset.count_eq_zero_of_notMem hnone).symm

theorem countsOf_pos {s : Multiset Nat} (hcard : s.card < 2 ^ 64) (h : ∀ ms ∈ s, ms < 2 ^ 64) :
    ∀ e ∈ countsOf (ofSamples s), 0 < e.2 := by
  intro e he
  have hfind := (Entries.mem_iff_find? (sorted_countsOf _)).mp he
  rw [find?_countsOf, get?_ofSamples h] at hfind
  split at hfind
  · next hmem =>
    rw [Option.map_some, Option.some.injEq, toNat_count hcard] at hfind
    rw [← hfind]
    exact Multiset.count_pos.mpr hmem
  · cases hfind

/-! ## Where the walk ends -/

/-- While the counts fit a word, the walk adds numbers. -/
theorem walk_eq (rank : UInt64) {seen : UInt64} {entries : List (Nat × UInt64)}
    (h : seen.toNat + (entries.map (·.2.toNat)).sum < 2 ^ 64) :
    walk rank seen entries =
      Ranks.crossing rank.toNat seen.toNat (entries.map fun e => (e.1, e.2.toNat)) := by
  induction entries generalizing seen with
  | nil => rfl
  | cons e rest ih =>
    obtain ⟨b, n⟩ := e
    rw [List.map_cons, List.sum_cons] at h
    dsimp only at h
    have hadd : (seen + n).toNat = seen.toNat + n.toNat := by
      rw [UInt64.toNat_add]
      exact Nat.mod_eq_of_lt (by omega)
    rw [List.map_cons]
    unfold walk Ranks.crossing
    dsimp only
    by_cases hreach : rank ≤ seen + n
    · rw [if_pos hreach, if_pos (hadd ▸ UInt64.le_iff_toNat_le.mp hreach)]
    · rw [if_neg hreach, if_neg fun h => hreach (UInt64.le_iff_toNat_le.mpr (hadd ▸ h)),
        ih (by rw [hadd]; omega), hadd]

theorem length_expand (entries : List (Nat × UInt64)) :
    (Ranks.expand (entries.map fun e => (e.1, e.2.toNat))).length =
      (entries.map (·.2.toNat)).sum := by
  unfold Ranks.expand
  rw [List.length_flatMap, List.map_map]
  simp only [Function.comp_def, List.length_replicate]

theorem rankOf_pos (p total : UInt64) : 0 < (rankOf p total).toNat := by
  unfold rankOf
  generalize nearest (nearest (nearest p.toNat / 100) * nearest total.toNat) = product
  dsimp only
  rw [toNat_word (by omega)]
  omega

/-- The bucket that is reported is that of the reading at the computed rank. -/
theorem percentile_ofSamples {s : Multiset Nat} (hcard : s.card < 2 ^ 64)
    (h : ∀ ms ∈ s, ms < 2 ^ 64) (p : UInt64) :
    percentile (ofSamples s) p =
      upperBoundMs (bucket (readingAt s (rankOf p s.card.toUInt64).toNat)) := by
  have hexpand := expand_countsOf hcard h
  have hlength : (Ranks.expand (countsOf (ofSamples s))).length = s.card := by
    rw [hexpand, List.length_map, Multiset.length_sort]
  unfold percentile
  rw [count_ofSamples]
  dsimp only
  by_cases hzero : s.card = 0
  · have hnone : readingAt s (rankOf p s.card.toUInt64).toNat = 0 := by
      unfold readingAt
      rw [Multiset.card_eq_zero.mp hzero, Multiset.sort_zero]
      rfl
    rw [hnone, hzero]
    rfl
  · have hwalk : walk (rankOf p s.card.toUInt64) 0 (ofSamples s).buckets.entries =
        Ranks.crossing (rankOf p s.card.toUInt64).toNat 0 (countsOf (ofSamples s)) :=
      walk_eq _ (by
        rw [← length_expand]
        show 0 + (Ranks.expand (countsOf (ofSamples s))).length < 2 ^ 64
        omega)
    have hlast : (ofSamples s).buckets.entries.getLast?.map (·.1) =
        (countsOf (ofSamples s)).getLast?.map (·.1) := by
      unfold countsOf
      rw [List.getLast?_map, Option.map_map]
      rfl
    have hend := Ranks.crossing_or_last (rankOf_pos p s.card.toUInt64) (countsOf_pos hcard h)
    rw [hlength, hexpand, List.getElem?_map, ← hwalk, ← hlast] at hend
    have hin : min (rankOf p s.card.toUInt64).toNat s.card - 1 < s.sort.length := by
      rw [Multiset.length_sort]
      omega
    unfold readingAt
    rw [List.getElem?_eq_getElem hin] at hend ⊢
    rw [if_neg (fun heq => hzero (by
      have hword := congrArg UInt64.toNat heq
      rwa [toNat_word hcard] at hword))]
    cases hfound : walk (rankOf p s.card.toUInt64) 0 (ofSamples s).buckets.entries with
    | some b =>
      rw [hfound] at hend
      exact congrArg upperBoundMs (Option.some.inj hend)
    | none =>
      rw [hfound, Option.none_or] at hend
      dsimp only
      rw [hend]
      rfl

/-! ## Written and read back -/

/-- A digit is written as its byte. -/
theorem escape_digit {c : Char} (h : c.isDigit = true) :
    (String.utf8EncodeChar c).flatMap escapeByte = [c.toUInt8] ∧ isWs c.toUInt8 = false := by
  obtain ⟨hvalue, hlow⟩ := Decimal.digitValue_le h
  have hhigh : c.toNat ≤ 57 := by
    have hdigit : Decimal.digitValue c = c.toNat - 48 := rfl
    omega
  rw [← Char.ofNat_toNat c]
  generalize c.toNat = n at hlow hhigh
  interval_cases n <;> exact ⟨by decide, by decide⟩

theorem escape_digits {cs : List Char} (h : Decimal.AllDigits cs) :
    (cs.flatMap String.utf8EncodeChar).flatMap escapeByte = cs.map Char.toUInt8 ∧
      (cs.map Char.toUInt8).any isWs = false := by
  induction cs with
  | nil => exact ⟨rfl, rfl⟩
  | cons c cs ih =>
    obtain ⟨hescape, hblank⟩ := escape_digit (h c List.mem_cons_self)
    obtain ⟨hescapes, hblanks⟩ := ih h.tail
    rw [List.flatMap_cons, List.flatMap_append, hescape, hescapes, List.map_cons, List.any_cons,
      hblank, hblanks]
    exact ⟨rfl, rfl⟩

theorem escape_keyOf (b : Nat) :
    escape (keyOf b) = printNat b ∧ (printNat b).any isWs = false := by
  unfold escape keyOf printNat
  rw [utf8_ofList]
  exact escape_digits (Decimal.allDigits_toDigits b)

theorem unsignedOf_posInt {bits n : Nat} (hfits : n < 2 ^ 64) (h : n < 2 ^ bits) :
    unsignedOf bits (Value.number (.posInt n hfits)).toRaw = some n := by
  simp only [Value.toRaw, unsignedOf, toNumber_toLit]
  exact if_pos h

theorem bucketKey_keyOf {b : Nat} (h : b < 2 ^ 16) : bucketKey (escape (keyOf b)) = some b := by
  have hfits : b < 2 ^ 64 := by omega
  have hparse : parse (printNat b) = some (Value.number (.posInt b hfits)).toRaw :=
    parse_print (.number (.posInt b hfits))
  obtain ⟨hescape, hblank⟩ := escape_keyOf b
  unfold bucketKey
  rw [hescape, hblank, hparse]
  exact unsignedOf_posInt hfits h

theorem decodeMember_entry {e : Nat × UInt64} (h : e.1 < 2 ^ 16) :
    decodeMember (escape (keyOf e.1),
      (Value.number (.posInt e.2.toNat e.2.toNat_lt)).toRaw) = some e := by
  unfold decodeMember
  rw [bucketKey_keyOf h, Option.bind_some, unsignedOf_posInt _ e.2.toNat_lt]
  show some (e.1, e.2.toNat.toUInt64) = some e
  rw [Nat.toUInt64, UInt64.ofNat_toNat]

/-- A histogram is read as it was written. -/
theorem decode_encode {h : LatencyHistogram} (hkeys : ∀ e ∈ h.buckets.entries, e.1 < 2 ^ 16) :
    decode (encode h) = some h := by
  have hmembers (l : List (Nat × UInt64)) (hl : ∀ e ∈ l, e.1 < 2 ^ 16) :
      (Value.membersToRaw (l.map fun e =>
        (keyOf e.1, .number (.posInt e.2.toNat e.2.toNat_lt)))).mapM decodeMember = some l := by
    induction l with
    | nil => rfl
    | cons e l ih =>
      rw [List.map_cons, Value.membersToRaw, List.mapM_cons,
        decodeMember_entry (hl e List.mem_cons_self),
        ih fun e he => hl e (List.mem_cons_of_mem _ he)]
      rfl
  unfold decode encode
  rw [parse_print, Value.toRaw]
  dsimp only
  rw [hmembers _ hkeys]
  exact congrArg some (LatencyHistogram.ext (OrdMap.ofList_entries _))

/-! ## However the readings came into it -/

theorem key_le_of_mem {s : Multiset Nat} (h : ∀ ms ∈ s, ms < 2 ^ 64) {e : Nat × UInt64}
    (he : e ∈ (ofSamples s).buckets.entries) : e.1 ≤ 96 := by
  have hget := OrdMap.mem_entries.mp (show (e.1, e.2) ∈ (ofSamples s).buckets.entries from he)
  rw [get?_ofSamples h] at hget
  split at hget
  · next hmem =>
    obtain ⟨ms, _, hms⟩ := Multiset.mem_map.mp hmem
    rw [← hms]
    exact bucket_le ms
  · cases hget

/-- Merging, writing and reading leave the histogram of the readings. -/
theorem built_eq {s : Multiset Nat} {h : LatencyHistogram} (hbuilt : Built s h)
    (hword : ∀ ms ∈ s, ms < 2 ^ 64) : h = ofSamples s := by
  induction hbuilt with
  | empty => rfl
  | record _ ms ih =>
    rw [ofSamples_cons, ih fun ms' hms' => hword ms' (Multiset.mem_cons_of_mem hms')]
  | merge _ _ iha ihb =>
    rw [ofSamples_add, iha fun ms hms => hword ms (Multiset.mem_add.mpr (Or.inl hms)),
      ihb fun ms hms => hword ms (Multiset.mem_add.mpr (Or.inr hms))]
  | reload _ ih =>
    rw [ih hword, decode_encode fun e he => ?_, Option.getD_some]
    have hle := key_le_of_mem hword he
    omega

theorem percentile_eq {s : Multiset Nat} {h : LatencyHistogram} (hbuilt : Built s h)
    (hcard : s.card < 2 ^ 64) (hword : ∀ ms ∈ s, ms < 2 ^ 64) (p : UInt64) :
    percentile h p = upperBoundMs (bucket (readingAt s (rankOf p s.card.toUInt64).toNat)) := by
  rw [built_eq hbuilt hword]
  exact percentile_ofSamples hcard hword p

theorem readingAt_lt {s : Multiset Nat} {n : Nat} (hpos : 0 < n) (h : ∀ ms ∈ s, ms < n)
    (rank : Nat) : readingAt s rank < n := by
  unfold readingAt
  cases hfound : s.sort[min rank s.card - 1]? with
  | none => exact hpos
  | some ms => exact h ms ((Multiset.mem_sort _).mp (List.mem_of_getElem? hfound))

/-! ## The rank in doubles -/

theorem rankOf_toNat {p total : UInt64} (hp : p.toNat < 2 ^ 53) (htotal : total.toNat < 2 ^ 53)
    {c : Nat} (hc : c < 2 ^ 64)
    (h : ⌈nearest (nearest (p.toNat / 100) * total.toNat)⌉ = c) :
    (rankOf p total).toNat = max 1 c := by
  unfold rankOf
  rw [nearest_natCast hp, nearest_natCast htotal]
  dsimp only
  rw [h, toNat_word (by omega)]
  omega

/-- Where the double nearest to the share is not above it, the rank is the exact one. -/
theorem rankOf_eq {p total : UInt64} (hp : p.toNat ≤ 100) (htotal : total.toNat < 2 ^ 45)
    (hdown : nearest (p.toNat / 100) ≤ p.toNat / 100) :
    (rankOf p total).toNat = nearestRank p.toNat total.toNat := by
  refine rankOf_toNat (by omega) (by omega) (c := (p.toNat * total.toNat + 99) / 100) ?_ ?_
  · have hmul : p.toNat * total.toNat ≤ 100 * 2 ^ 45 := Nat.mul_le_mul hp htotal.le
    omega
  generalize p.toNat = m at *
  generalize total.toNat = n at *
  by_cases hzero : m * n = 0
  · have hproduct : nearest ((m : ℚ) / 100) * n = ((0 : Nat) : ℚ) := by
      rcases Nat.mul_eq_zero.mp hzero with rfl | rfl
      · have hnone : ((0 : Nat) : ℚ) / 100 = ((0 : Nat) : ℚ) := by norm_num
        rw [hnone, nearest_natCast (by norm_num)]
        norm_num
      · norm_num
    rw [hproduct, nearest_natCast (by norm_num), hzero]
    norm_num
  · have hm : 0 < m := Nat.pos_of_ne_zero fun h => hzero (by rw [h, Nat.zero_mul])
    have hn : 0 < n := Nat.pos_of_ne_zero fun h => hzero (by rw [h, Nat.mul_zero])
    have hmq : (1 : ℚ) ≤ m := by exact_mod_cast hm
    have hmle : (m : ℚ) ≤ 100 := by exact_mod_cast hp
    have hnq : (1 : ℚ) ≤ n := by exact_mod_cast hn
    have hnlt : (n : ℚ) < 2 ^ 45 := by exact_mod_cast htotal
    have hshare : (m : ℚ) / 100 - 2 ^ (-53 : ℤ) ≤ nearest (m / 100) := by
      have herror := abs_nearest_sub_le_of_lt (q := (m : ℚ) / 100) (k := 1) (by linarith)
        (by norm_num) (by norm_num; linarith)
      rw [abs_le] at herror
      linarith [herror.1]
    generalize nearest ((m : ℚ) / 100) = share at *
    -- The product is at most the exact one, and short of it by less than 2⁻⁸.
    have hpos : 0 < share := by
      norm_num at hshare
      linarith
    have hhigh : share * n ≤ m * n / 100 := by
      have hmul := mul_le_mul_of_nonneg_right hdown (show (0 : ℚ) ≤ n by linarith)
      linarith
    have hlow : (m * n / 100 : ℚ) - 2 ^ (-8 : ℤ) ≤ share * n := by
      have hmul := mul_le_mul_of_nonneg_right hshare (show (0 : ℚ) ≤ n by linarith)
      norm_num at hmul ⊢
      linarith
    have hproduct : share * n < 2 ^ (45 : ℤ) := by
      norm_num
      nlinarith
    have hrounded := abs_nearest_sub_le_of_lt (mul_pos hpos (by linarith)) (by norm_num) hproduct
    have hunit := unit_le (mul_pos hpos (by linarith)) (by norm_num) hproduct
    rw [abs_le] at hrounded
    have hceil : (m * n : ℕ) ≤ 100 * ((m * n + 99) / 100) ∧
        100 * ((m * n + 99) / 100) ≤ m * n + 99 := by omega
    generalize (m * n + 99) / 100 = c at hceil ⊢
    have hceil' : (m * n : ℚ) ≤ 100 * c ∧ (100 * c : ℚ) ≤ m * n + 99 := by exact_mod_cast hceil
    rw [Int.ceil_eq_iff]
    constructor
    · norm_num at hlow hrounded ⊢
      linarith [hrounded.1]
    · refine nearest_le_int (by omega) ?_
      push_cast
      linarith

/-! ## Against the exact rank -/

/-- Some fast readings and some slow ones. -/
def mixed (m fast k slow : Nat) : Multiset Nat :=
  ↑(List.replicate m fast ++ List.replicate k slow)

/-- The reading at the rank is reported in its bucket. -/
theorem within_of_rank {s : Multiset Nat} {h : LatencyHistogram} (hbuilt : Built s h)
    (hcard : s.card < 2 ^ 64) (hms : ∀ ms ∈ s, ms < 2 ^ 24) {p : UInt64} {rank : Nat}
    (hrank : min (rankOf p s.card.toUInt64).toNat s.card = min rank s.card) :
    Within (readingAt s rank) (percentile h p) := by
  have hreading : readingAt s (rankOf p s.card.toUInt64).toNat = readingAt s rank := by
    unfold readingAt
    rw [hrank]
  rw [percentile_eq hbuilt hcard (fun ms hmem => (hms ms hmem).trans (by norm_num)), hreading]
  exact (within_iff (readingAt_lt (by decide) hms _) (readingAt_lt (by decide) hms _)).mpr
    (Or.inl rfl)

/-- The median and the 95th percentile, which are all that the gateway asks for, are
reported right. -/
theorem within_median_p95 {p : UInt64} (hp : p = 50 ∨ p = 95) {s : Multiset Nat}
    {h : LatencyHistogram} (hbuilt : Built s h) (hcard : s.card < 2 ^ 45)
    (hms : ∀ ms ∈ s, ms < 2 ^ 24) :
    Within (readingAt s (nearestRank p.toNat s.card)) (percentile h p) := by
  have hword : s.card.toUInt64.toNat = s.card := toNat_word (by omega)
  have hrank : (rankOf p s.card.toUInt64).toNat = nearestRank p.toNat s.card := by
    rcases hp with rfl | rfl
    · exact (rankOf_eq (by decide) (by omega) (by decide +kernel)).trans (by rw [hword])
    · exact (rankOf_eq (by decide) (by omega) (by decide +kernel)).trans (by rw [hword])
  exact within_of_rank hbuilt (by omega) hms (by rw [hrank])

end RapidRouter.Usage.Percentile
