import Mathlib.Data.UInt
import Mathlib.Data.Prod.Lex
import Mathlib.Data.String.Basic
import Mathlib.Order.WithBot
import RapidRouter.Lib.Civil
import RapidRouter.Lib.Tally

/-!
# Rollups on disk

Hour rows of usage, as `router-server/src/usage.rs` rolls them up from records
and writes them, and the read caches `rollup_cache.rs` keeps beside them. A
row is the key it stands under with the counters it sums; sums wrap as `u64`
does.

Partitions are directories named by day. Here they stand under the day's
number, whose order is the order of the names up to the year 9999. A file's
rows are never changed once it is written, so what a cache is checked against
is the listing of a directory, its `Fingerprint`.
-/

namespace RapidRouter.Usage.Rollup

open Civil Tally

def hourMs : Nat := 3600000

/-! ## Rows -/

/-- The part of a `UsageRecord` rollups are made from. -/
structure UsageRecord where
  ts : Nat
  provider : String
  model : String
  vkey : Option String
  status : Nat
  inputTokens : UInt64
  outputTokens : UInt64
  cachedTokens : UInt64
  costMicroUsd : UInt64
  latencyMs : UInt64
  attempts : UInt32
  deriving DecidableEq

/-- Record-level constraints for a history read. Empty fields constrain nothing. -/
structure HistoryFilter where
  provider : Option String
  model : Option String
  vkey : Option String
  deriving DecidableEq

namespace HistoryFilter

/-- The same constraints applied to a rollup row's dimensions. -/
def matchesDims (filter : HistoryFilter) (provider model : String) (vkey : Option String) : Bool :=
  filter.provider.all (provider == ·) && filter.model.all (model == ·) &&
    filter.vkey.all (vkey == some ·)

def matchesRecord (filter : HistoryFilter) (rec : UsageRecord) : Bool :=
  filter.provider.all (rec.provider == ·) && filter.model.all (rec.model == ·) &&
    filter.vkey.all (rec.vkey == some ·)

end HistoryFilter

/-- What two rows must share to be folded into one. -/
@[ext] structure RowKey where
  hourMs : Nat
  provider : String
  model : String
  vkey : Option String
  deriving DecidableEq

/-- The tuple `RollupRow::key` returns. -/
def RowKey.tuple (k : RowKey) : Nat ×ₗ String ×ₗ String ×ₗ WithBot String :=
  toLex (k.hourMs, toLex (k.provider, toLex (k.model, k.vkey)))

theorem RowKey.tuple_injective : Function.Injective RowKey.tuple := by
  intro a b h
  have hhour : a.hourMs = b.hourMs := congrArg (fun t => (ofLex t).1) h
  have hprovider : a.provider = b.provider := congrArg (fun t => (ofLex (ofLex t).2).1) h
  have hmodel : a.model = b.model := congrArg (fun t => (ofLex (ofLex (ofLex t).2).2).1) h
  have hvkey : a.vkey = b.vkey := congrArg (fun t => (ofLex (ofLex (ofLex t).2).2).2) h
  exact RowKey.ext hhour hprovider hmodel hvkey

instance : LinearOrder RowKey := LinearOrder.lift' RowKey.tuple RowKey.tuple_injective

/-- `LatencyHistogram`: how many observations each bucket has. -/
abbrev LatencyHistogram := Nat → UInt64

/-- `bucket_of`: four buckets an octave, with the logarithm taken exactly. -/
def bucketOf (ms : UInt64) : Nat :=
  if ms = 0 then 0 else min (Nat.log2 (ms.toNat ^ 4) + 1) 96

/-- The counters of a `RollupRow`. -/
@[ext] structure Counters where
  requests : UInt64
  failed : UInt64
  inputTokens : UInt64
  outputTokens : UInt64
  cachedTokens : UInt64
  costMicroUsd : UInt64
  latencyMsSum : UInt64
  attempts : UInt64
  latency : LatencyHistogram

namespace Counters

instance : Zero Counters := ⟨⟨0, 0, 0, 0, 0, 0, 0, 0, 0⟩⟩

/-- `RollupRow::absorb`. -/
instance : Add Counters where
  add a b :=
    { requests := a.requests + b.requests
      failed := a.failed + b.failed
      inputTokens := a.inputTokens + b.inputTokens
      outputTokens := a.outputTokens + b.outputTokens
      cachedTokens := a.cachedTokens + b.cachedTokens
      costMicroUsd := a.costMicroUsd + b.costMicroUsd
      latencyMsSum := a.latencyMsSum + b.latencyMsSum
      attempts := a.attempts + b.attempts
      latency := a.latency + b.latency }

@[simp] theorem requests_zero : (0 : Counters).requests = 0 := rfl

@[simp] theorem requests_add (a b : Counters) : (a + b).requests = a.requests + b.requests := rfl

theorem add_def (a b : Counters) :
    a + b = ⟨a.requests + b.requests, a.failed + b.failed, a.inputTokens + b.inputTokens,
      a.outputTokens + b.outputTokens, a.cachedTokens + b.cachedTokens,
      a.costMicroUsd + b.costMicroUsd, a.latencyMsSum + b.latencyMsSum, a.attempts + b.attempts,
      a.latency + b.latency⟩ := rfl

theorem zero_def : (0 : Counters) = ⟨0, 0, 0, 0, 0, 0, 0, 0, 0⟩ := rfl

instance : AddCommMonoid Counters where
  add_assoc a b c := by simp only [add_def, add_assoc]
  zero_add a := by simp only [add_def, zero_def, zero_add]
  add_zero a := by simp only [add_def, zero_def, add_zero]
  add_comm a b := by
    rw [add_def, add_def]
    simp only [mk.injEq]
    exact ⟨add_comm _ _, add_comm _ _, add_comm _ _, add_comm _ _, add_comm _ _, add_comm _ _,
      add_comm _ _, add_comm _ _, add_comm _ _⟩
  nsmul := nsmulRec

end Counters

/-- A `RollupRow`, its key apart from what it sums. -/
abbrev RollupRow := RowKey × Counters

/-- The row of one record. -/
def ofRecord (r : UsageRecord) : RollupRow :=
  (⟨r.ts - r.ts % hourMs, r.provider, r.model, r.vkey⟩,
    { requests := 1
      failed := if 400 ≤ r.status then 1 else 0
      inputTokens := r.inputTokens
      outputTokens := r.outputTokens
      cachedTokens := r.cachedTokens
      costMicroUsd := r.costMicroUsd
      latencyMsSum := r.latencyMs
      attempts := r.attempts.toUInt64
      latency := fun bucket => if bucket = bucketOf r.latencyMs then 1 else 0 })

/-- `roll_up`: records added to the row of their key, an empty one at first. -/
def rollUp (batch : List UsageRecord) : List RollupRow := fold (batch.map ofRecord)

def RowKey.daily (k : RowKey) : RowKey := { k with hourMs := k.hourMs - k.hourMs % dayMs }

/-- `to_daily`. -/
def toDaily (rows : List RollupRow) : List RollupRow := fold (rows.map fun row => (row.1.daily, row.2))

/-! ## Partitions -/

/-- One file of a partition: the flusher's node and sequence number, from which
its name is made, and what its lines hold. -/
structure Batch (α : Type) where
  node : String
  seq : Nat
  lines : List α

/-- `{node}-{seq:08}.jsonl.zst` -/
def Batch.name {α : Type} (b : Batch α) : String :=
  let digits := toString b.seq
  b.node ++ "-" ++ "".pushn '0' (8 - digits.length) ++ digits ++ ".jsonl.zst"

/-- A directory of day partitions. -/
abbrev Partitions (α : Type) := OrdMap Nat (List (Batch α))

namespace Partitions

variable {α : Type}

/-- All lines of a partition. -/
def lines (dir : Partitions α) (day : Nat) : List α := ((dir.get? day).getD []).flatMap (·.lines)

/-- The names a directory has, in order. -/
def days (dir : Partitions α) : List Nat := dir.entries.map (·.1)

/-- Write the parts of one batch, each as a new file of its partition. -/
def writeParts (dir : Partitions α) (node : String) (seq : Nat) (parts : List (Nat × List α)) :
    Partitions α :=
  parts.foldl (fun dir part => dir.insert part.1 ((dir.get? part.1).getD [] ++ [⟨node, seq, part.2⟩])) dir

/-- The common shape of `write_batch` and `write_rollups`. -/
def write (dir : Partitions α) (node : String) (seq : Nat) (day : α → Nat) (items : List α) : Partitions α :=
  dir.writeParts node seq (group day items).entries

/-- `prune_partitions`. -/
def prune (dir : Partitions α) (retentionDays now : Nat) : Partitions α :=
  dir.retain fun day _ => dayOf (now - retentionDays * dayMs) ≤ day

end Partitions

/-- What a directory listing looks like: how many files, and a hash of their
names. -/
structure Fingerprint where
  count : Nat
  hash : UInt64
  deriving DecidableEq

def fingerprintHash (names : List String) : UInt64 :=
  names.foldl (fun hash name =>
    name.toUTF8.toList.foldl (fun hash byte => (hash ^^^ byte.toUInt64) * 0x1000000001b3) hash)
    0xcbf29ce484222325

/-- `fingerprint`. -/
def fingerprint {α : Type} (dir : Partitions α) (day : Nat) : Option Fingerprint :=
  (dir.get? day).map fun files =>
    let names := (files.map Batch.name).mergeSort fun a b => decide (a ≤ b)
    ⟨names.length, fingerprintHash names⟩

/-! ## Caches -/

/-- What a cache was built from. -/
inductive Stamp where
  | rollups (stamp : Fingerprint)
  | records (stamp : Fingerprint)
  | month (stamps : List Fingerprint)
  deriving DecidableEq

structure Cache where
  stamp : Stamp
  rows : List RollupRow

/-- `read_if_current`. -/
def readIfCurrent (cache : Option Cache) (want : Option Stamp) : Option (List RollupRow) :=
  match cache, want with
  | some cache, some want => if cache.stamp = want then some cache.rows else none
  | _, _ => none

/-- The data directory. -/
structure Disk where
  usage : Partitions UsageRecord
  rollup : Partitions RollupRow
  dayCache : OrdMap Nat Cache
  monthCache : OrdMap Nat Cache

def Disk.empty : Disk := ⟨.empty, .empty, .empty, .empty⟩

/-- `hourly_rows`. -/
def hourlyRows (disk : Disk) (day : Nat) : List RollupRow :=
  match fingerprint disk.rollup day with
  | some stamp =>
    match readIfCurrent (disk.dayCache.get? day) (some (.rollups stamp)) with
    | some rows => rows
    | none => disk.rollup.lines day
  | none =>
    -- A day with records and no rollups.
    let stamp := (fingerprint disk.usage day).map .records
    match readIfCurrent (disk.dayCache.get? day) stamp with
    | some rows => rows
    | none => if stamp.isNone then [] else fold (rollUp (disk.usage.lines day))

/-- The days of a month that have rollups. -/
def monthDays (disk : Disk) (m : Nat) : List Nat := disk.rollup.days.filter fun day => month day = m

/-- `month_fingerprint`. -/
def monthFingerprint (disk : Disk) (m : Nat) : Option (List Fingerprint) :=
  if monthDays disk m = [] then none else (monthDays disk m).mapM (fingerprint disk.rollup)

/-- `monthly_rows`. -/
def monthlyRows (disk : Disk) (m : Nat) : Option (List RollupRow) :=
  readIfCurrent (disk.monthCache.get? m) ((monthFingerprint disk m).map .month)

/-! ## Maintenance -/

def refreshDay (today : Nat) (disk : Disk) (day : Nat) : Disk :=
  if today ≤ day then disk
  else
    match fingerprint disk.rollup day with
    | none => disk
    | some stamp =>
      if (readIfCurrent (disk.dayCache.get? day) (some (.rollups stamp))).isSome then disk
      else { disk with dayCache := disk.dayCache.insert day ⟨.rollups stamp, fold (disk.rollup.lines day)⟩ }

/-- `backfill_missing_rollups`, of one day. -/
def backfillDay (today : Nat) (haveRollups : List Nat) (disk : Disk) (day : Nat) : Disk :=
  if today ≤ day ∨ day ∈ haveRollups then disk
  else
    match fingerprint disk.usage day with
    | none => disk
    | some stamp =>
      if (readIfCurrent (disk.dayCache.get? day) (some (.records stamp))).isSome then disk
      else { disk with dayCache := disk.dayCache.insert day ⟨.records stamp, rollUp (disk.usage.lines day)⟩ }

def refreshMonth (currentMonth : Nat) (disk : Disk) (m : Nat) : Disk :=
  if currentMonth ≤ m then disk
  else
    match monthFingerprint disk m with
    | none => disk
    | some stamp =>
      if (readIfCurrent (disk.monthCache.get? m) (some (.month stamp))).isSome then disk
      else
        let rows := (monthDays disk m).flatMap fun day => toDaily (hourlyRows disk day)
        { disk with monthCache := disk.monthCache.insert m ⟨.month stamp, fold rows⟩ }

/-- `refresh`: days first, then the months made of them. -/
def refresh (disk : Disk) (today currentMonth : Nat) : Disk :=
  let days := disk.rollup.days
  let disk := days.foldl (refreshDay today) disk
  let disk := disk.usage.days.foldl (backfillDay today days) disk
  (days.map month).dedup.foldl (refreshMonth currentMonth) disk

/-- `ROLLUP_RETENTION_FACTOR`, saturating as `u32`. -/
def rollupDays (retentionDays : Nat) : Nat := min (retentionDays * 4) (2 ^ 32 - 1)

/-- `prune`, bodies apart. -/
def prune (disk : Disk) (retentionDays now : Nat) : Disk :=
  let cutoffDay := dayOf (now - rollupDays retentionDays * dayMs)
  { usage := disk.usage.prune retentionDays now
    rollup := disk.rollup.prune (rollupDays retentionDays) now
    dayCache := disk.dayCache.retain fun day _ => cutoffDay ≤ day
    monthCache := disk.monthCache.retain fun m _ => month cutoffDay ≤ m }

/-! ## Flushing -/

/-- The files of one batch, `write_batch` and `write_rollups`. -/
def flush (disk : Disk) (node : String) (seq : Nat) (batch : List UsageRecord) : Disk :=
  { disk with
    usage := disk.usage.write node seq (fun r => dayOf r.ts) batch
    rollup := disk.rollup.write node seq (fun row => dayOf row.1.hourMs) (rollUp batch) }

/-! ## Partitions by day -/

namespace Partitions

variable {α : Type}

theorem mem_days {dir : Partitions α} {day : Nat} : day ∈ dir.days ↔ (dir.get? day).isSome := by
  unfold days
  rw [List.mem_map, Option.isSome_iff_exists]
  constructor
  · rintro ⟨⟨d, files⟩, hmem, rfl⟩
    exact ⟨files, OrdMap.mem_entries.mp hmem⟩
  · rintro ⟨files, hfiles⟩
    exact ⟨(day, files), OrdMap.mem_entries.mpr hfiles, rfl⟩

theorem nodup_days (dir : Partitions α) : dir.days.Nodup := dir.nodup_keys

theorem get?_writeParts (dir : Partitions α) (node : String) (seq : Nat) {parts : List (Nat × List α)}
    (h : (parts.map Prod.fst).Nodup) (day : Nat) :
    (dir.writeParts node seq parts).get? day =
      match Entries.find? day parts with
      | none => dir.get? day
      | some items => some ((dir.get? day).getD [] ++ [⟨node, seq, items⟩]) := by
  induction parts generalizing dir with
  | nil => rfl
  | cons part parts ih =>
    obtain ⟨d, items⟩ := part
    obtain ⟨hd, hparts⟩ := List.nodup_cons.mp h
    have hrest := ih (dir.insert d ((dir.get? d).getD [] ++ [⟨node, seq, items⟩])) hparts
    refine hrest.trans ?_
    by_cases hday : day = d
    · subst hday
      have hnone : Entries.find? day parts = none := by
        cases hfind : Entries.find? day parts with
        | none => rfl
        | some xs => exact absurd (List.mem_map.mpr ⟨_, Entries.mem_of_find? hfind, rfl⟩) hd
      rw [hnone, OrdMap.get?_insert_self]
      simp [Entries.find?]
    · rw [OrdMap.get?_insert, if_neg hday]
      simp [Entries.find?, hday]

/-- What a batch adds to a partition. -/
theorem get?_write (dir : Partitions α) (node : String) (seq : Nat) (day : α → Nat) (items : List α)
    (d : Nat) :
    (dir.write node seq day items).get? d =
      if (items.filter fun x => day x = d) = [] then dir.get? d
      else some ((dir.get? d).getD [] ++ [⟨node, seq, items.filter fun x => day x = d⟩]) := by
  have hfind : Entries.find? d (group day items).entries = _ := get?_group day items d
  unfold write
  rw [get?_writeParts dir node seq (OrdMap.nodup_keys _), hfind]
  split <;> split <;> simp_all

theorem lines_write (dir : Partitions α) (node : String) (seq : Nat) (day : α → Nat) (items : List α)
    (d : Nat) :
    (dir.write node seq day items).lines d = dir.lines d ++ items.filter fun x => day x = d := by
  unfold lines
  rw [get?_write]
  split
  · next hnil => rw [hnil, List.append_nil]
  · rw [Option.getD_some, List.flatMap_append, List.flatMap_singleton]

theorem isSome_write (dir : Partitions α) (node : String) (seq : Nat) (day : α → Nat) (items : List α)
    (d : Nat) :
    ((dir.write node seq day items).get? d).isSome ↔
      (dir.get? d).isSome ∨ ∃ x ∈ items, day x = d := by
  have hmem : (∃ x ∈ items, day x = d) ↔ (items.filter fun x => day x = d) ≠ [] := by
    rw [Ne, List.filter_eq_nil_iff]
    simp
  rw [get?_write, hmem]
  split
  · next hnil => simp [hnil]
  · next hne => simp [hne]

theorem get?_prune (dir : Partitions α) (retentionDays now day : Nat) :
    (dir.prune retentionDays now).get? day =
      if dayOf (now - retentionDays * dayMs) ≤ day then dir.get? day else none := by
  unfold prune
  rw [OrdMap.get?_retain]
  split
  · next hle =>
    simp only [hle, decide_true]
    cases dir.get? day <;> rfl
  · next hlt =>
    simp only [hlt, decide_false]
    cases dir.get? day <;> rfl

theorem days_prune (dir : Partitions α) (retentionDays now : Nat) :
    (dir.prune retentionDays now).days =
      dir.days.filter fun day => dayOf (now - retentionDays * dayMs) ≤ day := by
  unfold days prune OrdMap.retain
  dsimp only
  rw [List.filter_map]
  rfl

end Partitions

end RapidRouter.Usage.Rollup
