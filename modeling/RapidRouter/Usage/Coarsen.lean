import RapidRouter.Usage.Window

/-!
# Roll-ups of batches

`fold_rows`, `roll_up` and the absorbing of rows in `router-server/src/usage.rs`
on the sparse histograms of `histogram.rs`, and what becomes of a list of
records that is cut into batches: the batches are rolled up one by one, in any
order, their rows are folded together and made coarser, and the outcome is the
list rolled up at once at that resolution (`batches_coarsen`).

`Rollup` reads a histogram as a function, where a bucket nobody hit counts
zero. Here it is the map it is in the source, so that a bucket can be absent,
and `rollUp_counters` says that the two agree.
-/

namespace RapidRouter.Usage.Coarsen

open Civil Tally
open Rollup (UsageRecord RowKey bucketOf hourMs monthStartMs)

/-! ## Histograms -/

/-- `LatencyHistogram`: counts in log-spaced buckets, stored sparsely. -/
@[ext] structure LatencyHistogram where
  buckets : OrdMap Nat UInt64

namespace LatencyHistogram

def empty : LatencyHistogram := ⟨.empty⟩

def isEmpty (h : LatencyHistogram) : Bool := h.buckets.entries.isEmpty

def count (h : LatencyHistogram) : UInt64 := h.buckets.values.sum

def record (h : LatencyHistogram) (ms : UInt64) : LatencyHistogram :=
  ⟨h.buckets.insert (bucketOf ms) ((h.buckets.get? (bucketOf ms)).getD 0 + 1)⟩

def merge (h other : LatencyHistogram) : LatencyHistogram :=
  ⟨other.buckets.entries.foldl
    (fun buckets e => buckets.insert e.1 ((buckets.get? e.1).getD 0 + e.2)) h.buckets⟩

/-- Adding to an entry that starts at zero is adding to the entry. -/
theorem insert_getD (m : OrdMap Nat UInt64) (e : Nat × UInt64) :
    m.insert e.1 ((m.get? e.1).getD 0 + e.2) = addTo m e := by
  unfold addTo
  cases m.get? e.1 with
  | none => rw [Option.getD_none, zero_add]
  | some n => rfl

/-- What a merge leaves is the sums of the two. -/
theorem merge_buckets (h other : LatencyHistogram) :
    (h.merge other).buckets = gather (h.buckets.entries ++ other.buckets.entries) := by
  have hadd : (fun buckets e => OrdMap.insert buckets e.1 ((buckets.get? e.1).getD 0 + e.2)) =
      (addTo : OrdMap Nat UInt64 → Nat × UInt64 → OrdMap Nat UInt64) := by
    funext buckets e
    exact insert_getD buckets e
  unfold merge gather
  dsimp only
  rw [hadd, List.foldl_append]
  show _ = other.buckets.entries.foldl addTo (gather h.buckets.entries)
  rw [gather_entries]

/-- A reading is a histogram of its own. -/
def single (ms : UInt64) : LatencyHistogram := empty.record ms

theorem record_eq (h : LatencyHistogram) (ms : UInt64) : h.record ms = h.merge (single ms) := by
  have hone : (single ms).buckets.entries = [(bucketOf ms, 1)] := rfl
  refine LatencyHistogram.ext ?_
  unfold merge
  rw [hone]
  rfl

instance : Zero LatencyHistogram := ⟨empty⟩

instance : Add LatencyHistogram := ⟨merge⟩

theorem add_buckets (a b : LatencyHistogram) :
    (a + b).buckets = gather (a.buckets.entries ++ b.buckets.entries) := merge_buckets a b

/-- Merging is adding columns: in any order, in any grouping. -/
instance : AddCommMonoid LatencyHistogram where
  add_assoc a b c := by
    refine LatencyHistogram.ext ?_
    have hright : gather (a.buckets.entries ++ (gather (b.buckets.entries ++ c.buckets.entries)).entries) =
        gather (b.buckets.entries ++ c.buckets.entries ++ a.buckets.entries) := by
      rw [gather_perm List.perm_append_comm, gather_append_gather]
    rw [add_buckets, add_buckets, add_buckets, add_buckets, gather_append_gather, hright,
      List.append_assoc]
    exact gather_perm (List.perm_append_comm.trans (by rw [List.append_assoc]))
  zero_add a := LatencyHistogram.ext ((add_buckets 0 a).trans (gather_entries a.buckets))
  add_zero a := by
    refine LatencyHistogram.ext ((add_buckets a 0).trans ?_)
    rw [show (0 : LatencyHistogram).buckets.entries = [] from rfl, List.append_nil]
    exact gather_entries a.buckets
  add_comm a b := by
    refine LatencyHistogram.ext ?_
    rw [add_buckets, add_buckets]
    exact gather_perm List.perm_append_comm
  nsmul := nsmulRec

/-- How many readings a bucket has. -/
def read (h : LatencyHistogram) (bucket : Nat) : UInt64 := (h.buckets.get? bucket).getD 0

theorem read_eq_total (h : LatencyHistogram) (bucket : Nat) :
    h.read bucket = total (select (fun b => decide (b = bucket)) h.buckets.entries) := by
  unfold read
  conv => lhs; rw [← gather_entries h.buckets, get?_gather]
  split
  · rfl
  · next hmem =>
    have hnil : select (fun b => decide (b = bucket)) h.buckets.entries = [] := by
      unfold select
      rw [List.filter_eq_nil_iff]
      intro e he heq
      exact hmem (List.mem_map.mpr ⟨e, he, of_decide_eq_true heq⟩)
    rw [hnil]
    rfl

theorem read_add (a b : LatencyHistogram) : (a + b).read = a.read + b.read := by
  funext bucket
  show (a + b).read bucket = a.read bucket + b.read bucket
  rw [read_eq_total, read_eq_total, read_eq_total, add_buckets, same_gather, select_append, total_append]

end LatencyHistogram

/-! ## Rows -/

/-- What a `RollupRow` sums. -/
@[ext] structure Sums where
  requests : UInt64
  failed : UInt64
  inputTokens : UInt64
  outputTokens : UInt64
  cachedTokens : UInt64
  costMicroUsd : UInt64
  latencyMsSum : UInt64
  attempts : UInt64
  latency : LatencyHistogram

namespace Sums

/-- `RollupRow::empty`, its key apart. -/
def empty : Sums := ⟨0, 0, 0, 0, 0, 0, 0, 0, .empty⟩

/-- `RollupRow::absorb`. -/
def absorb (a b : Sums) : Sums :=
  { requests := a.requests + b.requests
    failed := a.failed + b.failed
    inputTokens := a.inputTokens + b.inputTokens
    outputTokens := a.outputTokens + b.outputTokens
    cachedTokens := a.cachedTokens + b.cachedTokens
    costMicroUsd := a.costMicroUsd + b.costMicroUsd
    latencyMsSum := a.latencyMsSum + b.latencyMsSum
    attempts := a.attempts + b.attempts
    latency := a.latency.merge b.latency }

/-- What `roll_up` adds to a row for one record. -/
def addRecord (row : Sums) (r : UsageRecord) : Sums :=
  { requests := row.requests + 1
    failed := if 400 ≤ r.status then row.failed + 1 else row.failed
    inputTokens := row.inputTokens + r.inputTokens
    outputTokens := row.outputTokens + r.outputTokens
    cachedTokens := row.cachedTokens + r.cachedTokens
    costMicroUsd := row.costMicroUsd + r.costMicroUsd
    latencyMsSum := row.latencyMsSum + r.latencyMs
    attempts := row.attempts + r.attempts.toUInt64
    latency := row.latency.record r.latencyMs }

instance : Zero Sums := ⟨empty⟩

instance : Add Sums := ⟨absorb⟩

theorem zero_def : (0 : Sums) = ⟨0, 0, 0, 0, 0, 0, 0, 0, 0⟩ := rfl

theorem add_def (a b : Sums) :
    a + b = ⟨a.requests + b.requests, a.failed + b.failed, a.inputTokens + b.inputTokens,
      a.outputTokens + b.outputTokens, a.cachedTokens + b.cachedTokens,
      a.costMicroUsd + b.costMicroUsd, a.latencyMsSum + b.latencyMsSum, a.attempts + b.attempts,
      a.latency + b.latency⟩ := rfl

instance : AddCommMonoid Sums where
  add_assoc a b c := by simp only [add_def, add_assoc]
  zero_add a := by simp only [add_def, zero_def, zero_add]
  add_zero a := by simp only [add_def, zero_def, add_zero]
  add_comm a b := by
    rw [add_def, add_def]
    simp only [mk.injEq]
    exact ⟨add_comm _ _, add_comm _ _, add_comm _ _, add_comm _ _, add_comm _ _, add_comm _ _,
      add_comm _ _, add_comm _ _, add_comm _ _⟩
  nsmul := nsmulRec

/-- The sums of one record. -/
def ofRecord (r : UsageRecord) : Sums := empty.addRecord r

theorem addRecord_eq (row : Sums) (r : UsageRecord) : row.addRecord r = row + ofRecord r := by
  have hfailed : (if 400 ≤ r.status then row.failed + 1 else row.failed) =
      row.failed + (ofRecord r).failed := by
    show _ = row.failed + if 400 ≤ r.status then 0 + 1 else 0
    split
    · rw [zero_add]
    · rw [add_zero]
  refine Sums.ext ?_ hfailed ?_ ?_ ?_ ?_ ?_ ?_ (LatencyHistogram.record_eq _ _)
  · show row.requests + 1 = row.requests + (0 + 1)
    rw [zero_add]
  · show row.inputTokens + r.inputTokens = row.inputTokens + (0 + r.inputTokens)
    rw [zero_add]
  · show row.outputTokens + r.outputTokens = row.outputTokens + (0 + r.outputTokens)
    rw [zero_add]
  · show row.cachedTokens + r.cachedTokens = row.cachedTokens + (0 + r.cachedTokens)
    rw [zero_add]
  · show row.costMicroUsd + r.costMicroUsd = row.costMicroUsd + (0 + r.costMicroUsd)
    rw [zero_add]
  · show row.latencyMsSum + r.latencyMs = row.latencyMsSum + (0 + r.latencyMs)
    rw [zero_add]
  · show row.attempts + r.attempts.toUInt64 = row.attempts + (0 + r.attempts.toUInt64)
    rw [zero_add]

end Sums

/-- A `RollupRow`, its key apart from what it sums. -/
abbrev RollupRow := RowKey × Sums

/-- `fold_rows`: an occupied entry absorbs the row, a vacant one takes it. -/
def foldRows (rows : List RollupRow) : List RollupRow :=
  (rows.foldl (fun merged row =>
    merged.insert row.1 (match merged.get? row.1 with
      | some slot => slot.absorb row.2
      | none => row.2)) (OrdMap.empty : OrdMap RowKey Sums)).entries

/-! ## Resolutions -/

/-- The start of an hour. -/
def hourStart (ms : Nat) : Nat := ms - ms % hourMs

/-- The start of a day. -/
def dayStart (ms : Nat) : Nat := ms - ms % 86400000

def keyAt (start : Nat → Nat) (r : UsageRecord) : RowKey := ⟨start r.ts, r.provider, r.model, r.vkey⟩

/-- The loop of `roll_up`, at the resolution of `start`. -/
def rollUpAt (start : Nat → Nat) (batch : List UsageRecord) : List RollupRow :=
  (batch.foldl (fun rows r =>
    rows.insert (keyAt start r) (((rows.get? (keyAt start r)).getD .empty).addRecord r))
    (OrdMap.empty : OrdMap RowKey Sums)).entries

/-- `roll_up`. -/
def rollUp (batch : List UsageRecord) : List RollupRow := rollUpAt hourStart batch

def RowKey.at (start : Nat → Nat) (k : RowKey) : RowKey := { k with hourMs := start k.hourMs }

/-- Rows folded at a coarser resolution. -/
def coarsen (start : Nat → Nat) (rows : List RollupRow) : List RollupRow :=
  foldRows (rows.map fun row => (RowKey.at start row.1, row.2))

/-- `to_daily`. -/
def toDaily (rows : List RollupRow) : List RollupRow := coarsen dayStart rows

/-- Rows of whole months, under their first midnight. -/
def toMonthly (rows : List RollupRow) : List RollupRow := coarsen monthStartMs rows

/-- The rows `refresh` makes of a month: its days' rows made daily, folded. -/
def monthOfDays (days : List Nat) (hourly : Nat → List RollupRow) : List RollupRow :=
  foldRows (days.flatMap fun day => toDaily (hourly day))

/-! ## Both are sums under keys -/

theorem foldRows_eq (rows : List RollupRow) : foldRows rows = (gather rows).entries := by
  have hadd : (fun (merged : OrdMap RowKey Sums) (row : RollupRow) =>
      merged.insert row.1 (match merged.get? row.1 with
        | some slot => slot.absorb row.2
        | none => row.2)) = addTo := by
    funext merged row
    unfold addTo
    cases merged.get? row.1 <;> rfl
  unfold foldRows gather
  rw [hadd]

theorem rollUpAt_eq (start : Nat → Nat) (batch : List UsageRecord) :
    rollUpAt start batch =
      (gather (batch.map fun r => (keyAt start r, Sums.ofRecord r))).entries := by
  have hadd : (fun (rows : OrdMap RowKey Sums) (r : UsageRecord) =>
      rows.insert (keyAt start r) (((rows.get? (keyAt start r)).getD .empty).addRecord r)) =
      fun rows r => addTo rows (keyAt start r, Sums.ofRecord r) := by
    funext rows r
    unfold addTo
    cases hget : rows.get? (keyAt start r) with
    | none => rfl
    | some row =>
      rw [Option.getD_some, Sums.addRecord_eq]
  unfold rollUpAt gather
  rw [hadd, List.foldl_map]

/-- Folding what is already folded, in parts, is folding at once. -/
theorem foldRows_flatMap {ι : Type} (parts : List ι) (rows : ι → List RollupRow) :
    foldRows (parts.flatMap fun part => foldRows (rows part)) = foldRows (parts.flatMap rows) := by
  have hfold : (fun part => foldRows (rows part)) = fun part => (gather (rows part)).entries := by
    funext part
    exact foldRows_eq (rows part)
  rw [foldRows_eq, foldRows_eq, hfold, gather_flatMap_gather]

/-- Rolling up at a resolution, of which the coarser one only asks the start. -/
theorem coarsen_rollUpAt {fine coarse : Nat → Nat} (h : ∀ ms, coarse (fine ms) = coarse ms)
    (records : List UsageRecord) :
    coarsen coarse (rollUpAt fine records) = rollUpAt coarse records := by
  unfold coarsen
  rw [foldRows_eq, rollUpAt_eq, rollUpAt_eq, gather_mapKey_gather, List.map_map]
  have hrow : ((fun e : RollupRow => (RowKey.at coarse e.1, e.2)) ∘
      fun r => (keyAt fine r, Sums.ofRecord r)) = fun r => (keyAt coarse r, Sums.ofRecord r) := by
    funext r
    show (RowKey.at coarse (keyAt fine r), Sums.ofRecord r) = _
    unfold RowKey.at keyAt
    rw [h]
  rw [hrow]

/-- Batches, whatever their order. -/
theorem foldRows_batches (start : Nat → Nat) {records : List UsageRecord}
    {batches : List (List UsageRecord)} (h : batches.flatten.Perm records) :
    foldRows (batches.flatMap (rollUpAt start)) = rollUpAt start records := by
  have hroll : rollUpAt start = fun batch =>
      (gather (batch.map fun r => (keyAt start r, Sums.ofRecord r))).entries := by
    funext batch
    exact rollUpAt_eq start batch
  rw [foldRows_eq, rollUpAt_eq, hroll, gather_flatMap_gather]
  have hperm : (batches.flatMap fun batch => batch.map fun r => (keyAt start r, Sums.ofRecord r)).Perm
      (records.map fun r => (keyAt start r, Sums.ofRecord r)) := by
    have hflat : (batches.flatMap fun batch => batch.map fun r => (keyAt start r, Sums.ofRecord r)) =
        batches.flatten.map fun r => (keyAt start r, Sums.ofRecord r) := by
      rw [List.flatMap_def, List.map_flatten]
    rw [hflat]
    exact h.map _
  rw [gather_perm hperm]

theorem dayStart_hourStart (ms : Nat) : dayStart (hourStart ms) = dayStart ms := by
  unfold dayStart hourStart hourMs
  omega

theorem dayOf_hourStart (ms : Nat) : dayOf (hourStart ms) = dayOf ms := by
  unfold dayOf hourStart hourMs dayMs
  omega

theorem monthStartMs_hourStart (ms : Nat) : monthStartMs (hourStart ms) = monthStartMs ms := by
  unfold monthStartMs
  rw [dayOf_hourStart]

/-- The rows of the hours a predicate selects. -/
theorem filter_rollUpAt (start : Nat → Nat) (q : Nat → Bool) (records : List UsageRecord) :
    (rollUpAt start records).filter (fun row => q row.1.hourMs) =
      rollUpAt start (records.filter fun r => q (start r.ts)) := by
  have hselect : (records.filter fun r => q (start r.ts)).map (fun r => (keyAt start r, Sums.ofRecord r)) =
      select (fun k => q k.hourMs) (records.map fun r => (keyAt start r, Sums.ofRecord r)) := by
    unfold select
    rw [List.filter_map]
    rfl
  rw [rollUpAt_eq, rollUpAt_eq, hselect, gather_select]
  rfl

/-- A list of records cut into batches in any way, the batches in any order:
their roll-ups folded together are the roll-up of the list, and made coarser,
day by day, month by month, or as a month is assembled from the rows of its
days, they are the list rolled up at once at that resolution. -/
theorem batches_coarsen {records : List UsageRecord} {batches : List (List UsageRecord)}
    (h : batches.flatten.Perm records) :
    let hourly := foldRows (batches.flatMap rollUp)
    hourly = rollUp records ∧
      toDaily hourly = rollUpAt dayStart records ∧
      toMonthly hourly = rollUpAt monthStartMs records ∧
      ∀ days : List Nat, days.Nodup →
        monthOfDays days (fun day => hourly.filter fun row => dayOf row.1.hourMs = day) =
          rollUpAt dayStart (records.filter fun r => dayOf r.ts ∈ days) := by
  have hhourly : foldRows (batches.flatMap rollUp) = rollUp records := foldRows_batches hourStart h
  dsimp only
  rw [hhourly]
  refine ⟨rfl, coarsen_rollUpAt dayStart_hourStart records,
    coarsen_rollUpAt monthStartMs_hourStart records, fun days hdays => ?_⟩
  -- The rows of a day are the roll-up of its records.
  have hday : ∀ day, toDaily ((rollUp records).filter fun row => dayOf row.1.hourMs = day) =
      rollUpAt dayStart (records.filter fun r => dayOf r.ts = day) := by
    intro day
    unfold rollUp
    rw [filter_rollUpAt hourStart (fun ms => decide (dayOf ms = day))]
    simp only [dayOf_hourStart]
    exact coarsen_rollUpAt dayStart_hourStart _
  have hdays' : (days.flatMap fun day => rollUpAt dayStart (records.filter fun r => dayOf r.ts = day)) =
      (days.map fun day => records.filter fun r => dayOf r.ts = day).flatMap (rollUpAt dayStart) := by
    rw [List.flatMap_map]
  unfold monthOfDays
  simp only [hday]
  rw [hdays']
  exact foldRows_batches dayStart (perm_cut (fun r : UsageRecord => dayOf r.ts) hdays records)

/-- Two records of one hour and a failed one of the next month, cut and swapped. -/
theorem batches_coarsen_swapped :
    let first : UsageRecord := ⟨1785542400000, "openai", "m", none, 200, 10, 20, 0, 100, 8, 1⟩
    let second : UsageRecord := ⟨1785542460000, "openai", "m", none, 200, 1, 2, 3, 40, 9, 2⟩
    let third : UsageRecord := ⟨1788220800000, "openai", "m", none, 500, 0, 0, 0, 0, 3, 1⟩
    foldRows ([[third, second], [first]].flatMap rollUp) = rollUp [first, second, third] := by
  intro first second third
  exact (@batches_coarsen [first, second, third] [[third, second], [first]] (by decide)).1

/-! ## The reading of `Rollup` -/

/-- The counters `Rollup` keeps. -/
def Sums.counters : Sums →+ Rollup.Counters where
  toFun row :=
    { requests := row.requests
      failed := row.failed
      inputTokens := row.inputTokens
      outputTokens := row.outputTokens
      cachedTokens := row.cachedTokens
      costMicroUsd := row.costMicroUsd
      latencyMsSum := row.latencyMsSum
      attempts := row.attempts
      latency := row.latency.read }
  map_zero' := rfl
  map_add' a b := by
    rw [Sums.add_def, Rollup.Counters.add_def]
    simp only [LatencyHistogram.read_add]

theorem counters_ofRecord (r : UsageRecord) :
    (keyAt hourStart r, (Sums.ofRecord r).counters) = Rollup.ofRecord r := by
  have hlatency : (Sums.ofRecord r).latency.read =
      fun bucket => if bucket = bucketOf r.latencyMs then 1 else 0 := by
    funext bucket
    show ((LatencyHistogram.single r.latencyMs).buckets.get? bucket).getD 0 = _
    unfold LatencyHistogram.single LatencyHistogram.record LatencyHistogram.empty
    rw [OrdMap.get?_insert]
    split <;> rfl
  refine Prod.ext rfl (Rollup.Counters.ext ?_ ?_ ?_ ?_ ?_ ?_ ?_ ?_ hlatency)
  · exact zero_add _
  · show (if 400 ≤ r.status then (0 : UInt64) + 1 else 0) = if 400 ≤ r.status then 1 else 0
    rw [zero_add]
  · exact zero_add _
  · exact zero_add _
  · exact zero_add _
  · exact zero_add _
  · exact zero_add _
  · exact zero_add _

/-- The roll-up with histograms as maps is, read by bucket, the one with
histograms as functions. -/
theorem rollUp_counters (batch : List UsageRecord) :
    (rollUp batch).map (fun row => (row.1, row.2.counters)) = Rollup.rollUp batch := by
  unfold rollUp Rollup.rollUp
  rw [rollUpAt_eq, ← gather_map, entries_gather, List.map_map]
  congr 1
  refine List.map_congr_left fun r _ => ?_
  exact counters_ofRecord r

end RapidRouter.Usage.Coarsen
