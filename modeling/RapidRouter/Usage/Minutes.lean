import RapidRouter.Usage.Rollup

/-!
# The in-memory aggregate

The `Aggregator` of `router-server/src/usage.rs`: a ring of minutes, each with
one cell of sums for every series (provider, model and key) seen in it. A slot
serves the minutes that are a day apart, and is emptied when a record of
another of its minutes comes in. A minute takes no new series once it has
`maxKeysPerMinute` of them.

What the cells stand for is said on the records alone: `counted` goes through
them in the order they came and leaves out those refused and those whose minute
lost its slot. As long as no record of a series its minute already has meets a
full minute (`NoneMissed`), the cells are the sums of these records and of no
others (`accrues`).

The cells of a slot are a hash map in the source. Sums do not depend on the
order it is walked in, and here it is ordered by key.
-/

namespace RapidRouter.Usage.Minutes

open Tally
open Rollup (UsageRecord HistoryFilter)

def minutes : Nat := 24 * 60

def maxKeysPerMinute : Nat := 512

/-! ## Cells -/

@[ext] structure AggKey where
  provider : String
  model : String
  vkey : Option String
  deriving DecidableEq

def AggKey.tuple (k : AggKey) : String ×ₗ String ×ₗ WithBot String :=
  toLex (k.provider, toLex (k.model, k.vkey))

theorem AggKey.tuple_injective : Function.Injective AggKey.tuple := by
  intro a b h
  have hprovider : a.provider = b.provider := congrArg (fun t => (ofLex t).1) h
  have hmodel : a.model = b.model := congrArg (fun t => (ofLex (ofLex t).2).1) h
  have hvkey : a.vkey = b.vkey := congrArg (fun t => (ofLex (ofLex t).2).2) h
  exact AggKey.ext hprovider hmodel hvkey

instance : LinearOrder AggKey := LinearOrder.lift' AggKey.tuple AggKey.tuple_injective

@[ext] structure AggCell where
  requests : UInt64
  errors : UInt64
  inputTokens : UInt64
  outputTokens : UInt64
  costMicroUsd : UInt64
  latencyMsSum : UInt64
  deriving DecidableEq

namespace AggCell

instance : Zero AggCell := ⟨⟨0, 0, 0, 0, 0, 0⟩⟩

/-- `+=` on each counter. -/
instance : Add AggCell where
  add a b :=
    { requests := a.requests + b.requests
      errors := a.errors + b.errors
      inputTokens := a.inputTokens + b.inputTokens
      outputTokens := a.outputTokens + b.outputTokens
      costMicroUsd := a.costMicroUsd + b.costMicroUsd
      latencyMsSum := a.latencyMsSum + b.latencyMsSum }

theorem add_def (a b : AggCell) :
    a + b = ⟨a.requests + b.requests, a.errors + b.errors, a.inputTokens + b.inputTokens,
      a.outputTokens + b.outputTokens, a.costMicroUsd + b.costMicroUsd,
      a.latencyMsSum + b.latencyMsSum⟩ := rfl

theorem zero_def : (0 : AggCell) = ⟨0, 0, 0, 0, 0, 0⟩ := rfl

instance : AddCommMonoid AggCell where
  add_assoc a b c := by simp only [add_def, add_assoc]
  zero_add a := by simp only [add_def, zero_def, zero_add]
  add_zero a := by simp only [add_def, zero_def, add_zero]
  add_comm a b := by
    rw [add_def, add_def]
    simp only [mk.injEq]
    exact ⟨add_comm _ _, add_comm _ _, add_comm _ _, add_comm _ _, add_comm _ _, add_comm _ _⟩
  nsmul := nsmulRec

end AggCell

/-- The series a record belongs to. -/
def keyOf (rec : UsageRecord) : AggKey := ⟨rec.provider, rec.model, rec.vkey⟩

/-- What a record adds to its cell. -/
def cellOf (rec : UsageRecord) : AggCell :=
  { requests := 1
    errors := if 400 ≤ rec.status then 1 else 0
    inputTokens := rec.inputTokens
    outputTokens := rec.outputTokens
    costMicroUsd := rec.costMicroUsd
    latencyMsSum := rec.latencyMs }

def minuteOf (rec : UsageRecord) : Nat := rec.ts / 60000

/-- The requests, errors, tokens, cost and latency of some records. -/
def sumOf (recs : List UsageRecord) : AggCell := (recs.map cellOf).sum

/-! ## The ring -/

@[ext] structure MinuteSlot where
  /-- Which epoch-minute this slot currently holds; slots recycle lazily. -/
  minute : Nat
  cells : OrdMap AggKey AggCell

structure Aggregator where
  slots : Fin minutes → MinuteSlot
  /-- The earliest minute this aggregator can speak for. -/
  sinceMinute : Nat

/-- The slot a minute is kept in. -/
def slotOf (minute : Nat) : Fin minutes := ⟨minute % minutes, Nat.mod_lt _ (by decide)⟩

/-- An aggregator built at a minute. -/
def new (builtMinute : Nat) : Aggregator := ⟨fun _ => ⟨0, .empty⟩, builtMinute⟩

namespace Aggregator

def floorMinute (agg : Aggregator) (nowMs : Nat) : Nat :=
  max agg.sinceMinute (nowMs / 60000 - (minutes - 1))

def record (agg : Aggregator) (rec : UsageRecord) : Aggregator :=
  let minute := minuteOf rec
  let held := agg.slots (slotOf minute)
  let slot := if held.minute ≠ minute then { minute := minute, cells := .empty } else held
  -- The cap is tested before the series is looked up.
  let slot :=
    if maxKeysPerMinute ≤ slot.cells.entries.length then slot
    else { slot with
      cells := slot.cells.insert (keyOf rec) ((slot.cells.get? (keyOf rec)).getD 0 + cellOf rec) }
  { slots := Function.update agg.slots (slotOf minute) slot
    sinceMinute := min agg.sinceMinute minute }

/-- The cells of a minute, as far as its slot still holds it. -/
def cellsAt (agg : Aggregator) (minute : Nat) : OrdMap AggKey AggCell :=
  if (agg.slots (slotOf minute)).minute = minute then (agg.slots (slotOf minute)).cells else .empty

end Aggregator

/-- The aggregator after some records. -/
def run (builtMinute : Nat) (recs : List UsageRecord) : Aggregator :=
  recs.foldl Aggregator.record (new builtMinute)

/-! ## Queries -/

/-- One group of the reply. -/
structure Group where
  totals : AggCell
  series : OrdMap Nat AggCell

instance : Inhabited Group := ⟨⟨0, .empty⟩⟩

/-- One cell into a group. -/
def Group.add (g : Group) (minute : Nat) (cell : AggCell) : Group :=
  { totals := g.totals + cell
    series := g.series.insert minute ((g.series.get? minute).getD 0 + cell) }

/-- What a dimension says of a key; a dimension with another name says nothing. -/
def dimension (key : AggKey) (dim : String) : Option String :=
  if dim = "provider" then some key.provider
  else if dim = "model" then some (key.provider ++ "/" ++ key.model)
  else if dim = "key" then some (key.vkey.getD "-")
  else none

/-- The group a key falls in. -/
def groupName (dims : List String) (key : AggKey) : String :=
  "·".intercalate (dims.filterMap (dimension key))

/-- Whether a cell passes the `vkey` argument. -/
def wanted (vkey : Option String) (key : AggKey) : Bool :=
  match vkey with
  | some want => key.vkey == some want
  | none => true

def windowMinutes (windowSecs : Nat) : Nat := max 1 (min (windowSecs / 60) minutes)

def endMinute (nowMs : Nat) : Nat := nowMs / 60000

def startMinute (nowMs windowSecs : Nat) : Nat := endMinute nowMs - (windowMinutes windowSecs - 1)

/-- The minutes from one to another, both included. -/
def minuteRange (start stop : Nat) : List Nat := List.range' start (stop + 1 - start)

/-- The cells of a range of minutes, each with its minute. -/
def Aggregator.walk (agg : Aggregator) (start stop : Nat) : List (Nat × AggKey × AggCell) :=
  (minuteRange start stop).flatMap fun minute =>
    (agg.cellsAt minute).entries.map fun e => (minute, e)

/-- A group as the reply has it. Its cells are those before `cell_json` puts
the cost in dollars and the latency as an average. -/
structure GroupReply where
  group : String
  totals : AggCell
  /-- Under `minute_ts`, the start of the minute in milliseconds. -/
  series : List (Nat × AggCell)

structure Reply where
  windowSecs : Nat
  groups : List GroupReply

/-- The groups of a query. -/
def groupsOf (dims : List String) (cells : List (Nat × AggKey × AggCell)) : OrdMap String Group :=
  cells.foldl (fun groups e =>
    groups.insert (groupName dims e.2.1)
      (((groups.get? (groupName dims e.2.1)).getD default).add e.1 e.2.2)) .empty

def Aggregator.query (agg : Aggregator) (nowMs windowSecs : Nat) (dims : List String)
    (vkey : Option String) : Reply :=
  let cells := (agg.walk (startMinute nowMs windowSecs) (endMinute nowMs)).filter fun e =>
    wanted vkey e.2.1
  { windowSecs := windowSecs
    groups := (groupsOf dims cells).entries.map fun (name, g) =>
      { group := if name.isEmpty then "all" else name
        totals := g.totals
        series := g.series.entries.map fun (minute, cell) => (minute * 60000, cell) } }

/-- The totals of all groups together. -/
def Reply.grandTotals (reply : Reply) : AggCell := (reply.groups.map (·.totals)).sum

/-! ## The series of a chart -/

/-- What to call a dimension the request never reached. -/
def modelName (model : String) : String := if model.isEmpty then "(none)" else model

/-- The start of a minute's bucket, in seconds. -/
def bucketOf (bucketSecs minute : Nat) : Nat := minute * 60 / bucketSecs * bucketSecs

/-- The buckets of the chart, and the requests and latency of each model in each bucket. -/
structure Series where
  out : OrdMap Nat AggCell
  grid : OrdMap (String ×ₗ Nat) (UInt64 × UInt64)

/-- The body of the loop in `series`. -/
def Series.add (bucketSecs : Nat) (s : Series) (e : Nat × AggKey × AggCell) : Series :=
  let bucket := bucketOf bucketSecs e.1
  let slot := toLex (modelName e.2.1.model, bucket)
  { out := s.out.insert bucket ((s.out.get? bucket).getD 0 + e.2.2)
    grid := s.grid.insert slot ((s.grid.get? slot).getD 0 + (e.2.2.requests, e.2.2.latencyMsSum)) }

def Aggregator.series (agg : Aggregator) (sinceMs untilMs bucketSecs : Nat) (filter : HistoryFilter) :
    Series :=
  ((agg.walk (sinceMs / 60000) (untilMs / 60000)).filter fun e => filter.matchesDims e.2.1.provider e.2.1.model e.2.1.vkey).foldl
    (Series.add (max bucketSecs 60)) { out := .empty, grid := .empty }

/-! ## What the records come to -/

/-- A record takes the slot of another one's minute. -/
def takesOver (rec earlier : UsageRecord) : Bool :=
  slotOf (minuteOf earlier) = slotOf (minuteOf rec) ∧ minuteOf earlier ≠ minuteOf rec

/-- The series some records have in a minute. -/
def seriesOf (recs : List UsageRecord) (minute : Nat) : List AggKey :=
  ((recs.filter fun r => minuteOf r = minute).map keyOf).dedup

/-- A record of a new series, for which its minute has no room. -/
def Refused (held : List UsageRecord) (rec : UsageRecord) : Prop :=
  maxKeysPerMinute ≤ (seriesOf held (minuteOf rec)).length ∧ keyOf rec ∉ seriesOf held (minuteOf rec)

/-- A record of a series its minute has, while the minute takes no new series. -/
def Missed (held : List UsageRecord) (rec : UsageRecord) : Prop :=
  maxKeysPerMinute ≤ (seriesOf held (minuteOf rec)).length ∧ keyOf rec ∈ seriesOf held (minuteOf rec)

instance (held : List UsageRecord) (rec : UsageRecord) : Decidable (Refused held rec) :=
  inferInstanceAs (Decidable (_ ∧ _))

/-- One more record. -/
def arrive (held : List UsageRecord) (rec : UsageRecord) : List UsageRecord :=
  if Refused held rec then held.filter fun k => !takesOver rec k
  else (held.filter fun k => !takesOver rec k) ++ [rec]

/-- The records that count in the end: those not refused, in a minute that kept its slot. -/
def counted (recs : List UsageRecord) : List UsageRecord := recs.foldl arrive []

/-- The records that were not refused, after those that count already. -/
def acceptedFrom (held : List UsageRecord) : List UsageRecord → List UsageRecord
  | [] => []
  | rec :: rest =>
    if Refused held rec then acceptedFrom (arrive held rec) rest
    else rec :: acceptedFrom (arrive held rec) rest

/-- The records of a run that were not refused. -/
def accepted (recs : List UsageRecord) : List UsageRecord := acceptedFrom [] recs

/-- No record of a series its minute has comes when the minute is full. -/
def NoneMissed (recs : List UsageRecord) : Prop :=
  ∀ before rec after, recs = before ++ rec :: after → ¬Missed (counted before) rec

/-- No record is a day or more behind one that came before it. -/
def Prompt (recs : List UsageRecord) : Prop :=
  recs.Pairwise fun earlier rec => minuteOf earlier < minuteOf rec + minutes

/-- The records a query is about. -/
def asked (nowMs windowSecs : Nat) (vkey : Option String) (rec : UsageRecord) : Bool :=
  decide (startMinute nowMs windowSecs ≤ minuteOf rec ∧ minuteOf rec ≤ endMinute nowMs) &&
    wanted vkey (keyOf rec)

/-! ## What a record does to the cells -/

/-- The slot a record finds, after it was recycled where it held another minute. -/
theorem recycled (agg : Aggregator) (minute : Nat) :
    (if (agg.slots (slotOf minute)).minute ≠ minute then { minute := minute, cells := .empty }
      else agg.slots (slotOf minute)) = MinuteSlot.mk minute (agg.cellsAt minute) := by
  unfold Aggregator.cellsAt
  by_cases hheld : (agg.slots (slotOf minute)).minute = minute
  · rw [if_neg (not_not.mpr hheld), if_pos hheld]
    exact MinuteSlot.ext hheld rfl
  · rw [if_pos hheld, if_neg hheld]

/-- The slot of a record's minute once the record is in. -/
theorem record_slot (agg : Aggregator) (rec : UsageRecord) :
    (agg.record rec).slots (slotOf (minuteOf rec)) =
      { minute := minuteOf rec
        cells :=
          if maxKeysPerMinute ≤ (agg.cellsAt (minuteOf rec)).entries.length then
            agg.cellsAt (minuteOf rec)
          else addTo (agg.cellsAt (minuteOf rec)) (keyOf rec, cellOf rec) } := by
  unfold Aggregator.record
  dsimp only
  rw [recycled, Function.update_self]
  dsimp only
  rw [insert_getD]
  split <;> rfl

theorem record_other (agg : Aggregator) (rec : UsageRecord) {slot : Fin minutes}
    (h : slot ≠ slotOf (minuteOf rec)) : (agg.record rec).slots slot = agg.slots slot := by
  unfold Aggregator.record
  exact Function.update_of_ne h _ _

/-- A record adds to the cells of its own minute, and empties those of the minutes it takes the slot from. -/
theorem cellsAt_record (agg : Aggregator) (rec : UsageRecord) (minute : Nat) :
    (agg.record rec).cellsAt minute =
      if minute = minuteOf rec then
        if maxKeysPerMinute ≤ (agg.cellsAt minute).entries.length then agg.cellsAt minute
        else addTo (agg.cellsAt minute) (keyOf rec, cellOf rec)
      else if slotOf minute = slotOf (minuteOf rec) then .empty
      else agg.cellsAt minute := by
  by_cases hminute : minute = minuteOf rec
  · subst hminute
    rw [if_pos rfl]
    conv => lhs; unfold Aggregator.cellsAt; rw [record_slot]
    rw [if_pos rfl]
  · rw [if_neg hminute]
    by_cases hslot : slotOf minute = slotOf (minuteOf rec)
    · rw [if_pos hslot]
      conv => lhs; unfold Aggregator.cellsAt; rw [hslot, record_slot]
      rw [if_neg (Ne.symm hminute)]
    · rw [if_neg hslot]
      unfold Aggregator.cellsAt
      rw [record_other agg rec hslot]

/-! ## The cells are sums of records -/

def rowOf (rec : UsageRecord) : AggKey × AggCell := (keyOf rec, cellOf rec)

/-- The records of one minute. -/
def inMinute (recs : List UsageRecord) (minute : Nat) : List UsageRecord :=
  recs.filter fun r => minuteOf r = minute

/-- The cells some records come to. -/
def cellsOf (recs : List UsageRecord) (minute : Nat) : OrdMap AggKey AggCell :=
  gather ((inMinute recs minute).map rowOf)

theorem mem_seriesOf {recs : List UsageRecord} {minute : Nat} {key : AggKey} :
    key ∈ seriesOf recs minute ↔ ∃ r ∈ recs, minuteOf r = minute ∧ keyOf r = key := by
  unfold seriesOf
  simp only [List.mem_dedup, List.mem_map, List.mem_filter, decide_eq_true_eq, and_assoc]

/-- A minute has one cell for each of its series. -/
theorem length_cellsOf (recs : List UsageRecord) (minute : Nat) :
    (cellsOf recs minute).entries.length = (seriesOf recs minute).length := by
  have hperm : ((cellsOf recs minute).entries.map Prod.fst).Perm (seriesOf recs minute) := by
    refine (List.perm_ext_iff_of_nodup (OrdMap.nodup_keys _) (List.nodup_dedup _)).mpr fun key => ?_
    unfold cellsOf
    rw [mem_keys_gather, List.map_map, List.mem_dedup]
    rfl
  rw [← hperm.length_eq, List.length_map]

/-- `cellsOf` of a minute whose records were left out. -/
theorem inMinute_takesOver {held : List UsageRecord} {rec : UsageRecord} {minute : Nat} :
    inMinute (held.filter fun k => !takesOver rec k) minute =
      if minute ≠ minuteOf rec ∧ slotOf minute = slotOf (minuteOf rec) then [] else inMinute held minute := by
  unfold inMinute
  rw [List.filter_filter]
  split
  · next h =>
    rw [List.filter_eq_nil_iff]
    intro k _ hk
    simp only [takesOver, Bool.and_eq_true, Bool.not_eq_true', decide_eq_true_eq,
      decide_eq_false_iff_not] at hk
    obtain ⟨rfl, hnot⟩ := hk
    exact hnot ⟨h.2, h.1⟩
  · next h =>
    refine List.filter_congr fun k _ => ?_
    by_cases hk : minuteOf k = minute
    · subst hk
      have hstays : takesOver rec k = false := by
        unfold takesOver
        rw [decide_eq_false_iff_not]
        intro htakes
        exact h ⟨htakes.2, htakes.1⟩
      simp [hstays]
    · simp [hk]

theorem cellsOf_takesOver {held : List UsageRecord} {rec : UsageRecord} {minute : Nat} :
    cellsOf (held.filter fun k => !takesOver rec k) minute =
      if minute ≠ minuteOf rec ∧ slotOf minute = slotOf (minuteOf rec) then .empty
      else cellsOf held minute := by
  unfold cellsOf
  rw [inMinute_takesOver]
  split <;> rfl

theorem cellsOf_append (held : List UsageRecord) (rec : UsageRecord) (minute : Nat) :
    cellsOf (held ++ [rec]) minute =
      if minute = minuteOf rec then addTo (cellsOf held minute) (rowOf rec) else cellsOf held minute := by
  unfold cellsOf inMinute
  rw [List.filter_append, List.filter_singleton]
  by_cases hminute : minute = minuteOf rec
  · subst hminute
    simp [gather]
  · have hne : ¬minuteOf rec = minute := fun h => hminute h.symm
    simp [hminute, hne]

/-- A record changes the sums of the records before it as it changes the cells. -/
theorem cellsOf_arrive {held : List UsageRecord} {rec : UsageRecord} (hmissed : ¬Missed held rec)
    (minute : Nat) :
    cellsOf (arrive held rec) minute =
      if minute = minuteOf rec then
        if maxKeysPerMinute ≤ (cellsOf held minute).entries.length then cellsOf held minute
        else addTo (cellsOf held minute) (keyOf rec, cellOf rec)
      else if slotOf minute = slotOf (minuteOf rec) then .empty
      else cellsOf held minute := by
  -- A full minute takes no record: not a new series, and there is none of a series it has.
  have hfull : maxKeysPerMinute ≤ (cellsOf held (minuteOf rec)).entries.length ↔ Refused held rec := by
    rw [length_cellsOf]
    constructor
    · intro h
      exact ⟨h, fun hmem => hmissed ⟨h, hmem⟩⟩
    · intro h
      exact h.1
  unfold arrive
  by_cases hminute : minute = minuteOf rec
  · subst hminute
    rw [if_pos rfl]
    by_cases hrefused : Refused held rec
    · rw [if_pos hrefused, if_pos (hfull.mpr hrefused), cellsOf_takesOver, if_neg (by simp)]
    · rw [if_neg hrefused, if_neg fun h => hrefused (hfull.mp h), cellsOf_append, if_pos rfl,
        cellsOf_takesOver, if_neg (by simp)]
      rfl
  · have hsame : cellsOf (if Refused held rec then held.filter fun k => !takesOver rec k
          else (held.filter fun k => !takesOver rec k) ++ [rec]) minute =
        cellsOf (held.filter fun k => !takesOver rec k) minute := by
      split
      · rfl
      · rw [cellsOf_append, if_neg hminute]
    rw [hsame, cellsOf_takesOver, if_neg hminute]
    by_cases hslot : slotOf minute = slotOf (minuteOf rec)
    · rw [if_pos ⟨hminute, hslot⟩, if_pos hslot]
    · rw [if_neg fun h => hslot h.2, if_neg hslot]

theorem counted_append (recs : List UsageRecord) (rec : UsageRecord) :
    counted (recs ++ [rec]) = arrive (counted recs) rec := by
  unfold counted
  rw [List.foldl_append]
  rfl

theorem run_append (builtMinute : Nat) (recs : List UsageRecord) (rec : UsageRecord) :
    run builtMinute (recs ++ [rec]) = (run builtMinute recs).record rec := by
  unfold run
  rw [List.foldl_append]
  rfl

theorem NoneMissed.before {recs : List UsageRecord} {rec : UsageRecord}
    (h : NoneMissed (recs ++ [rec])) : NoneMissed recs := by
  intro before r after heq
  refine h before r (after ++ [rec]) ?_
  rw [heq, List.append_assoc]
  rfl

theorem NoneMissed.last {recs : List UsageRecord} {rec : UsageRecord}
    (h : NoneMissed (recs ++ [rec])) : ¬Missed (counted recs) rec := h recs rec [] rfl

/-- The cells are the sums of the records that count. -/
theorem cellsAt_run (builtMinute : Nat) {recs : List UsageRecord} (h : NoneMissed recs) (minute : Nat) :
    (run builtMinute recs).cellsAt minute = cellsOf (counted recs) minute := by
  induction recs using List.reverseRecOn generalizing minute with
  | nil =>
    show (new builtMinute).cellsAt minute = .empty
    unfold Aggregator.cellsAt new
    dsimp only
    split <;> rfl
  | append_singleton recs rec ih =>
    have hbefore := ih h.before
    rw [run_append, counted_append, cellsAt_record, cellsOf_arrive h.last, hbefore]

/-- A series of a minute has the sums of its own records. -/
theorem get?_cellsOf (recs : List UsageRecord) (minute : Nat) (key : AggKey) :
    (cellsOf recs minute).get? key =
      if key ∈ seriesOf recs minute then
        some (sumOf (recs.filter fun r => decide (minuteOf r = minute) && decide (keyOf r = key)))
      else none := by
  have hkeys : key ∈ ((inMinute recs minute).map rowOf).map Prod.fst ↔ key ∈ seriesOf recs minute := by
    unfold seriesOf
    rw [List.map_map, List.mem_dedup]
    rfl
  unfold cellsOf
  rw [get?_gather]
  by_cases hmem : key ∈ seriesOf recs minute
  · rw [if_pos hmem, if_pos (hkeys.mpr hmem)]
    unfold select total inMinute sumOf
    rw [List.filter_map, List.map_map, List.filter_filter]
    congr 3
    refine List.filter_congr fun r _ => ?_
    rw [Bool.and_comm]
    congr 1
    exact decide_eq_decide.mpr Iff.rfl
  · rw [if_neg hmem, if_neg fun h => hmem (hkeys.mp h)]

/-! ## Walking the ring -/

/-- A cell under its minute and its series. -/
def marked (e : Nat × AggKey × AggCell) : (Nat × AggKey) × AggCell := ((e.1, e.2.1), e.2.2)

/-- What a record adds, under its minute and its series. -/
def markedOf (rec : UsageRecord) : (Nat × AggKey) × AggCell := ((minuteOf rec, keyOf rec), cellOf rec)

theorem mem_minuteRange {start stop minute : Nat} :
    minute ∈ minuteRange start stop ↔ start ≤ minute ∧ minute ≤ stop := by
  unfold minuteRange
  rw [List.mem_range'_1]
  omega

/-- The cells of some minutes come to the records of these minutes. -/
theorem walk_same {agg : Aggregator} {recs : List UsageRecord}
    (h : ∀ minute, agg.cellsAt minute = cellsOf recs minute) (start stop : Nat) :
    Same ((agg.walk start stop).map marked)
      ((recs.filter fun r => start ≤ minuteOf r ∧ minuteOf r ≤ stop).map markedOf) := by
  -- One minute: its cells are the sums of its records.
  have hminute : ∀ minute, Same ((agg.cellsAt minute).entries.map fun e => marked (minute, e))
      ((recs.filter fun r => minuteOf r = minute).map markedOf) := by
    intro minute
    have hrows : ((inMinute recs minute).map rowOf).map (fun e => ((minute, e.1), e.2)) =
        (recs.filter fun r => minuteOf r = minute).map markedOf := by
      rw [List.map_map]
      refine List.map_congr_left fun r hr => ?_
      have hr := of_decide_eq_true (List.mem_filter.mp hr).2
      show ((minute, keyOf r), cellOf r) = ((minuteOf r, keyOf r), cellOf r)
      rw [hr]
    rw [h, ← hrows]
    exact (same_gather _).mapKey fun key => (minute, key)
  have hwalk : (agg.walk start stop).map marked =
      (minuteRange start stop).flatMap fun minute =>
        (agg.cellsAt minute).entries.map fun e => marked (minute, e) := by
    unfold Aggregator.walk
    rw [List.map_flatMap]
    refine List.flatMap_congr fun minute _ => ?_
    rw [List.map_map]
    rfl
  have hnodup : (minuteRange start stop).Nodup := List.nodup_range'
  have hin : (recs.filter fun r => decide (minuteOf r ∈ minuteRange start stop)) =
      recs.filter fun r => start ≤ minuteOf r ∧ minuteOf r ≤ stop := by
    refine List.filter_congr fun r _ => ?_
    rw [decide_eq_decide]
    exact mem_minuteRange
  have hflat : ((minuteRange start stop).flatMap fun minute =>
        (recs.filter fun r => minuteOf r = minute).map markedOf) =
      ((minuteRange start stop).map fun minute => recs.filter fun r => minuteOf r = minute).flatten.map
        markedOf := by
    rw [List.map_flatten, List.map_map, List.flatMap_def]
    rfl
  rw [hwalk]
  refine (Same.flatMap fun minute _ => hminute minute).trans ?_
  rw [hflat]
  rw [← hin]
  exact Same.of_perm ((perm_cut minuteOf hnodup recs).map markedOf)

theorem total_markedOf (p : Nat × AggKey → Bool) (recs : List UsageRecord) :
    total (select p (recs.map markedOf)) = sumOf (recs.filter fun r => p (minuteOf r, keyOf r)) := by
  unfold select total sumOf
  rw [List.filter_map, List.map_map]
  rfl

/-! ## What a query reports -/

theorem mapValues_insert {α : Type} {β γ : Type} [LinearOrder α] (m : OrdMap α β) (k : α) (x : β)
    (f : β → γ) : (m.insert k x).mapValues f = (m.mapValues f).insert k (f x) := by
  refine OrdMap.ext_get? fun j => ?_
  rw [OrdMap.get?_mapValues, OrdMap.get?_insert, OrdMap.get?_insert, OrdMap.get?_mapValues]
  split <;> rfl

/-- The totals of each group are the sums of its cells. -/
theorem totals_groupsOf (dims : List String) (cells : List (Nat × AggKey × AggCell)) :
    (groupsOf dims cells).mapValues Group.totals =
      gather (cells.map fun e => (groupName dims e.2.1, e.2.2)) := by
  unfold groupsOf gather
  induction cells using List.reverseRecOn with
  | nil => rfl
  | append_singleton cells e ih =>
    rw [List.foldl_append, List.foldl_cons, List.foldl_nil, mapValues_insert, List.map_append,
      List.foldl_append, ← ih]
    show _ = addTo _ (groupName dims e.2.1, e.2.2)
    rw [← insert_getD, OrdMap.get?_mapValues]
    congr 1
    -- A group not there yet starts at zero.
    unfold Group.add
    dsimp only
    congr 1
    cases OrdMap.get? _ (groupName dims e.2.1) <;> rfl

theorem grandTotals_query (agg : Aggregator) (nowMs windowSecs : Nat) (dims : List String)
    (vkey : Option String) :
    (agg.query nowMs windowSecs dims vkey).grandTotals =
      total (select (fun k => wanted vkey k.2)
        ((agg.walk (startMinute nowMs windowSecs) (endMinute nowMs)).map marked)) := by
  have hcells : ∀ cells : List (Nat × AggKey × AggCell),
      ((groupsOf dims cells).entries.map fun e => e.2.totals).sum = (cells.map fun e => e.2.2).sum := by
    intro cells
    have hsame := (same_gather (cells.map fun e => (groupName dims e.2.1, e.2.2))).total
    rw [← totals_groupsOf] at hsame
    unfold total OrdMap.mapValues at hsame
    rw [List.map_map, List.map_map] at hsame
    exact hsame
  unfold Aggregator.query Reply.grandTotals
  dsimp only
  rw [List.map_map]
  refine (hcells _).trans ?_
  unfold select total
  rw [List.filter_map, List.map_map]
  rfl

/-- Queries report the sums of the records the cells stand for. -/
theorem grandTotals_of_cells {agg : Aggregator} {recs : List UsageRecord}
    (h : ∀ minute, agg.cellsAt minute = cellsOf recs minute) (nowMs windowSecs : Nat)
    (dims : List String) (vkey : Option String) :
    (agg.query nowMs windowSecs dims vkey).grandTotals =
      sumOf (recs.filter (asked nowMs windowSecs vkey)) := by
  rw [grandTotals_query, walk_same h, total_markedOf, List.filter_filter]
  congr 1
  refine List.filter_congr fun r _ => ?_
  exact Bool.and_comm _ _

/-- The buckets of a chart, any of them together, have the sums of the records the cells stand for. -/
theorem out_series {agg : Aggregator} {recs : List UsageRecord}
    (h : ∀ minute, agg.cellsAt minute = cellsOf recs minute) (sinceMs untilMs bucketSecs : Nat)
    (filter : HistoryFilter) (buckets : Nat → Bool) :
    total (select buckets (agg.series sinceMs untilMs bucketSecs filter).out.entries) =
      sumOf (recs.filter fun r =>
        decide (sinceMs / 60000 ≤ minuteOf r ∧ minuteOf r ≤ untilMs / 60000) &&
          (filter.matchesRecord r && buckets (bucketOf (max bucketSecs 60) (minuteOf r)))) := by
  have hout : ∀ (cells : List (Nat × AggKey × AggCell)) (s : Series),
      (cells.foldl (Series.add (max bucketSecs 60)) s).out =
        (cells.map fun e => (bucketOf (max bucketSecs 60) e.1, e.2.2)).foldl addTo s.out := by
    intro cells
    induction cells with
    | nil => intro s; rfl
    | cons e cells ih =>
      intro s
      rw [List.foldl_cons, ih, List.map_cons, List.foldl_cons, ← insert_getD]
      rfl
  have hgather := same_gather (((agg.walk (sinceMs / 60000) (untilMs / 60000)).filter fun e =>
    filter.matchesDims e.2.1.provider e.2.1.model e.2.1.vkey).map fun e =>
      (bucketOf (max bucketSecs 60) e.1, e.2.2)) buckets
  unfold Aggregator.series
  rw [hout]
  refine hgather.trans ?_
  -- The buckets are keys made coarser.
  have hwalk := walk_same h (sinceMs / 60000) (untilMs / 60000)
    fun k => filter.matchesDims k.2.provider k.2.model k.2.vkey &&
      buckets (bucketOf (max bucketSecs 60) k.1)
  rw [total_markedOf, List.filter_filter] at hwalk
  refine Eq.trans ?_ (hwalk.trans ?_)
  · unfold select total
    rw [List.filter_map, List.filter_map, List.map_map, List.map_map, List.filter_filter]
    congr 2
    refine List.filter_congr fun e _ => ?_
    exact Bool.and_comm _ _
  · congr 1
    refine List.filter_congr fun r _ => ?_
    exact Bool.and_comm _ _

/-! ## Attribution -/

/-- A record leaves every series but its own as it is, in every minute that keeps its slot. -/
theorem record_frame (agg : Aggregator) (rec : UsageRecord) {minute : Nat} {key : AggKey}
    (hslot : slotOf minute = slotOf (minuteOf rec) → minute = minuteOf rec)
    (hother : ¬(minute = minuteOf rec ∧ key = keyOf rec)) :
    ((agg.record rec).cellsAt minute).get? key = (agg.cellsAt minute).get? key := by
  rw [cellsAt_record]
  by_cases hminute : minute = minuteOf rec
  · rw [if_pos hminute]
    have hkey : key ≠ keyOf rec := fun hkey => hother ⟨hminute, hkey⟩
    split
    · rfl
    · rw [get?_addTo, if_neg hkey]
  · rw [if_neg hminute, if_neg fun h => hminute (hslot h)]

/-- A record of a series that is refused changes no cell. -/
theorem record_refused {agg : Aggregator} {held : List UsageRecord} {rec : UsageRecord}
    (h : ∀ minute, agg.cellsAt minute = cellsOf held minute) (hrefused : Refused held rec) (minute : Nat) :
    (agg.record rec).cellsAt minute = agg.cellsAt minute := by
  have hfull : maxKeysPerMinute ≤ (agg.cellsAt (minuteOf rec)).entries.length := by
    rw [h, length_cellsOf]
    exact hrefused.1
  rw [cellsAt_record]
  by_cases hminute : minute = minuteOf rec
  · rw [if_pos hminute, hminute, if_pos hfull]
  · rw [if_neg hminute]
    by_cases hslot : slotOf minute = slotOf (minuteOf rec)
    · -- A full minute holds its slot, so the other one does not.
      rw [if_pos hslot]
      unfold Aggregator.cellsAt at hfull ⊢
      rw [hslot]
      by_cases hheld : (agg.slots (slotOf (minuteOf rec))).minute = minuteOf rec
      · rw [hheld, if_neg fun heq => hminute heq.symm]
      · rw [if_neg hheld] at hfull
        exact absurd hfull (by decide)
    · rw [if_neg hslot]

/-! ## Records that come in time -/

theorem mem_arrive {held : List UsageRecord} {rec k : UsageRecord} (h : k ∈ arrive held rec) :
    k ∈ held ∨ k = rec := by
  unfold arrive at h
  split at h
  · exact .inl (List.mem_filter.mp h).1
  · rcases List.mem_append.mp h with hk | hk
    · exact .inl (List.mem_filter.mp hk).1
    · exact .inr (List.mem_singleton.mp hk)

theorem mem_counted {recs : List UsageRecord} {k : UsageRecord} (h : k ∈ counted recs) : k ∈ recs := by
  induction recs using List.reverseRecOn with
  | nil => exact h
  | append_singleton recs rec ih =>
    rw [counted_append] at h
    rcases mem_arrive h with hk | hk
    · exact List.mem_append_left _ (ih hk)
    · exact List.mem_append_right _ (List.mem_singleton.mpr hk)

/-- Minutes less than a day apart do not share a slot. -/
theorem slotOf_inj {a b : Nat} (hab : a < b + minutes) (hba : b < a + minutes)
    (h : slotOf a = slotOf b) : a = b := by
  have hmod : a % minutes = b % minutes := congrArg Fin.val h
  unfold minutes at *
  omega

/-- A record in time takes no slot from a minute a query may ask for. -/
theorem arrive_asked {held : List UsageRecord} {rec : UsageRecord} {nowMs windowSecs : Nat}
    (vkey : Option String) (hheld : ∀ k ∈ held, minuteOf k < minuteOf rec + minutes)
    (hrec : minuteOf rec < startMinute nowMs windowSecs + minutes) :
    (arrive held rec).filter (asked nowMs windowSecs vkey) =
      held.filter (asked nowMs windowSecs vkey) ++
        (if Refused held rec then [] else [rec]).filter (asked nowMs windowSecs vkey) := by
  have hkept : (held.filter fun k => !takesOver rec k).filter (asked nowMs windowSecs vkey) =
      held.filter (asked nowMs windowSecs vkey) := by
    rw [List.filter_filter]
    refine List.filter_congr fun k hk => ?_
    by_cases hasked : asked nowMs windowSecs vkey k = true
    · have hstart : startMinute nowMs windowSecs ≤ minuteOf k := by
        unfold asked at hasked
        exact (of_decide_eq_true (Bool.and_eq_true_iff.mp hasked).1).1
      have hstays : takesOver rec k = false := by
        unfold takesOver
        rw [decide_eq_false_iff_not]
        intro htakes
        exact htakes.2 (slotOf_inj (hheld k hk) (by omega) htakes.1)
      rw [hasked, hstays]
      rfl
    · rw [Bool.not_eq_true] at hasked
      rw [hasked, Bool.false_and]
  unfold arrive
  split
  · rw [hkept, List.filter_nil, List.append_nil]
  · rw [List.filter_append, hkept]

theorem counted_prompt {nowMs windowSecs : Nat} (vkey : Option String) {held recs : List UsageRecord}
    (hprompt : Prompt recs) (hheld : ∀ k ∈ held, ∀ r ∈ recs, minuteOf k < minuteOf r + minutes)
    (hnow : ∀ r ∈ recs, minuteOf r < startMinute nowMs windowSecs + minutes) :
    (recs.foldl arrive held).filter (asked nowMs windowSecs vkey) =
      held.filter (asked nowMs windowSecs vkey) ++
        (acceptedFrom held recs).filter (asked nowMs windowSecs vkey) := by
  induction recs generalizing held with
  | nil => simp [acceptedFrom]
  | cons rec rest ih =>
    obtain ⟨hrec, hrest⟩ := List.pairwise_cons.mp hprompt
    have hbehind : ∀ k ∈ arrive held rec, ∀ r ∈ rest, minuteOf k < minuteOf r + minutes := by
      intro k hk r hr
      rcases mem_arrive hk with hk | rfl
      · exact hheld k hk r (List.mem_cons_of_mem _ hr)
      · exact hrec r hr
    have hlater := ih hrest hbehind fun r hr => hnow r (List.mem_cons_of_mem _ hr)
    have hstep := arrive_asked vkey (fun k hk => hheld k hk rec List.mem_cons_self)
      (hnow rec List.mem_cons_self)
    have haccepted : acceptedFrom held (rec :: rest) =
        (if Refused held rec then [] else [rec]) ++ acceptedFrom (arrive held rec) rest := by
      by_cases hrefused : Refused held rec
      · rw [if_pos hrefused]
        exact if_pos hrefused
      · rw [if_neg hrefused]
        exact if_neg hrefused
    rw [List.foldl_cons, hlater, hstep, haccepted, List.filter_append, List.append_assoc]

/-! ## The aggregate law -/

/-- As long as a minute that is full gets no record of a series it has, every
series has the sums of its own records. A record refused for its new series
changes no cell, no record changes a cell of another series in a minute that
keeps its slot, and queries report the sums of the records that count: of all
records that were not refused, when none comes a day late. -/
theorem accrues (builtMinute : Nat) {recs : List UsageRecord} (h : NoneMissed recs) :
    (∀ minute key, ((run builtMinute recs).cellsAt minute).get? key =
      if key ∈ seriesOf (counted recs) minute then
        some (sumOf ((counted recs).filter fun r =>
          decide (minuteOf r = minute) && decide (keyOf r = key)))
      else none) ∧
    (∀ rec, Refused (counted recs) rec → ∀ minute,
      ((run builtMinute recs).record rec).cellsAt minute = (run builtMinute recs).cellsAt minute) ∧
    (∀ rec minute key, (slotOf minute = slotOf (minuteOf rec) → minute = minuteOf rec) →
      ¬(minute = minuteOf rec ∧ key = keyOf rec) →
      (((run builtMinute recs).record rec).cellsAt minute).get? key =
        ((run builtMinute recs).cellsAt minute).get? key) ∧
    (∀ nowMs windowSecs dims vkey,
      ((run builtMinute recs).query nowMs windowSecs dims vkey).grandTotals =
        sumOf ((counted recs).filter (asked nowMs windowSecs vkey))) ∧
    (Prompt recs → ∀ nowMs windowSecs dims vkey,
      (∀ r ∈ recs, minuteOf r < startMinute nowMs windowSecs + minutes) →
      ((run builtMinute recs).query nowMs windowSecs dims vkey).grandTotals =
        sumOf ((accepted recs).filter (asked nowMs windowSecs vkey))) := by
  have hcells := cellsAt_run builtMinute h
  have hquery := grandTotals_of_cells hcells
  refine ⟨?_, fun rec hrefused => record_refused hcells hrefused, fun rec minute key hslot hother =>
    record_frame _ rec hslot hother, hquery, ?_⟩
  · intro minute key
    rw [hcells, get?_cellsOf]
  · intro hprompt nowMs windowSecs dims vkey hnow
    have hnone : ∀ k ∈ ([] : List UsageRecord), ∀ r ∈ recs, minuteOf k < minuteOf r + minutes :=
      fun k hk => absurd hk List.not_mem_nil
    have hcounted := counted_prompt vkey hprompt hnone hnow
    rw [List.filter_nil, List.nil_append] at hcounted
    rw [hquery]
    exact congrArg sumOf hcounted

/-! ## The cap and the late record -/

/-- Records of different series never meet a full minute that has their series. -/
theorem noneMissed_of_nodup {recs : List UsageRecord} (h : (recs.map keyOf).Nodup) : NoneMissed recs := by
  intro before rec after heq hmissed
  obtain ⟨k, hk, -, hkey⟩ := mem_seriesOf.mp hmissed.2
  rw [heq, List.map_append, List.map_cons] at h
  have hdisjoint := (List.nodup_append.mp h).2.2
  exact hdisjoint _ (List.mem_map_of_mem (mem_counted hk)) _ List.mem_cons_self hkey

/-- Of different series in one minute the first `maxKeysPerMinute` count. -/
theorem counted_distinct {recs : List UsageRecord} {minute : Nat} (hminute : ∀ r ∈ recs, minuteOf r = minute)
    (hdistinct : (recs.map keyOf).Nodup) : counted recs = recs.take maxKeysPerMinute := by
  induction recs using List.reverseRecOn with
  | nil => rfl
  | append_singleton recs rec ih =>
    rw [List.map_append] at hdistinct
    have hbefore := ih (fun r hr => hminute r (List.mem_append_left _ hr))
      (List.nodup_append.mp hdistinct).1
    have hrec : minuteOf rec = minute := hminute rec (List.mem_append_right _ List.mem_cons_self)
    have hsame : ∀ r ∈ recs.take maxKeysPerMinute, minuteOf r = minute :=
      fun r hr => hminute r (List.mem_append_left _ (List.mem_of_mem_take hr))
    -- No slot is taken, and there are as many series as records.
    have hkept : ((recs.take maxKeysPerMinute).filter fun k => !takesOver rec k) =
        recs.take maxKeysPerMinute := by
      rw [List.filter_eq_self]
      intro k hk
      unfold takesOver
      rw [hsame k hk, hrec]
      simp
    have hseries : (seriesOf (recs.take maxKeysPerMinute) (minuteOf rec)).length =
        min maxKeysPerMinute recs.length := by
      have hall : ((recs.take maxKeysPerMinute).filter fun r => minuteOf r = minuteOf rec) =
          recs.take maxKeysPerMinute := by
        rw [List.filter_eq_self]
        intro r hr
        rw [hsame r hr, hrec]
        exact decide_eq_true rfl
      unfold seriesOf
      rw [hall, List.map_take]
      have hnodup : ((recs.map keyOf).take maxKeysPerMinute).Nodup :=
        (List.nodup_append.mp hdistinct).1.sublist (List.take_sublist _ _)
      rw [hnodup.dedup, List.length_take, List.length_map]
    have hnew : keyOf rec ∉ seriesOf (recs.take maxKeysPerMinute) (minuteOf rec) := by
      intro hmem
      obtain ⟨k, hk, -, hkey⟩ := mem_seriesOf.mp hmem
      exact (List.nodup_append.mp hdistinct).2.2 _ (List.mem_map_of_mem (List.mem_of_mem_take hk)) _
        List.mem_cons_self hkey
    rw [counted_append, hbefore]
    unfold arrive
    rw [hkept]
    by_cases hfull : maxKeysPerMinute ≤ recs.length
    · rw [if_pos ⟨by omega, hnew⟩, List.take_append_of_le_length hfull]
    · have hroom : ¬Refused (recs.take maxKeysPerMinute) rec := by
        intro hrefused
        have hle := hrefused.1
        omega
      rw [if_neg hroom, List.take_of_length_le (by omega), List.take_of_length_le]
      rw [List.length_append, List.length_singleton]
      omega

theorem requests_sumOf (recs : List UsageRecord) : (sumOf recs).requests = UInt64.ofNat recs.length := by
  unfold sumOf
  induction recs with
  | nil => rfl
  | cons r recs ih =>
    rw [List.map_cons, List.sum_cons, List.length_cons]
    show 1 + (List.map cellOf recs).sum.requests = _
    rw [ih, UInt64.ofNat_add, add_comm]
    rfl

/-- A request of a series that is told by its model. -/
def requestOf (ts : Nat) (model : String) : UsageRecord :=
  { ts := ts, provider := "openai", model := model, vkey := none, status := 200, inputTokens := 10
    outputTokens := 20, cachedTokens := 0, costMicroUsd := 5, latencyMs := 100, attempts := 1 }

/-- Requests of as many series, all in the first minute. -/
def distinctSeries (n : Nat) : List UsageRecord :=
  (List.range n).map fun i => requestOf 0 (String.ofList (List.replicate i 'm'))

theorem distinctSeries_nodup (n : Nat) : ((distinctSeries n).map keyOf).Nodup := by
  unfold distinctSeries
  rw [List.map_map]
  refine List.Nodup.map ?_ List.nodup_range
  intro i j h
  have hmodel := congrArg (fun key => key.model.toList.length) h
  simpa [keyOf, requestOf] using hmodel

theorem accrues_two_minutes :
    NoneMissed [requestOf 0 "gpt-4o", requestOf 60000 "gpt-4o-mini"] ∧
      ((run 0 [requestOf 0 "gpt-4o", requestOf 60000 "gpt-4o-mini"]).query 60000 3600 ["model"]
        none).grandTotals =
        sumOf ((accepted [requestOf 0 "gpt-4o", requestOf 60000 "gpt-4o-mini"]).filter
          (asked 60000 3600 none)) := by
  have hdistinct : NoneMissed [requestOf 0 "gpt-4o", requestOf 60000 "gpt-4o-mini"] :=
    noneMissed_of_nodup (by decide)
  have hprompt : Prompt [requestOf 0 "gpt-4o", requestOf 60000 "gpt-4o-mini"] := by
    unfold Prompt
    decide
  exact ⟨hdistinct, (accrues 0 hdistinct).2.2.2.2 hprompt 60000 3600 ["model"] none (by decide)⟩

theorem minuteOf_requestOf (ts : Nat) (model : String) : minuteOf (requestOf ts model) = ts / 60000 := rfl

/-- With one series more than the cap a query misses a request. A request a day
late takes the slot of a minute the query asks for. -/
theorem totals_miss_requests :
    ((run 0 (distinctSeries 513)).query 0 60 [] none).grandTotals ≠
        sumOf ((distinctSeries 513).filter (asked 0 60 none)) ∧
      ((run 0 [requestOf 86400000 "gpt-4o", requestOf 0 "gpt-4o-mini"]).query 86400000 86400 []
        none).grandTotals ≠
        sumOf ([requestOf 86400000 "gpt-4o", requestOf 0 "gpt-4o-mini"].filter
          (asked 86400000 86400 none)) := by
  constructor
  · have hminute : ∀ n, ∀ r ∈ distinctSeries n, minuteOf r = 0 := by
      intro n r hr
      obtain ⟨i, -, rfl⟩ := List.mem_map.mp hr
      rw [minuteOf_requestOf]
    have hasked : ∀ n, (distinctSeries n).filter (asked 0 60 none) = distinctSeries n := by
      intro n
      rw [List.filter_eq_self]
      intro r hr
      unfold asked
      rw [hminute n r hr]
      rfl
    have hcounted : counted (distinctSeries 513) = distinctSeries 512 := by
      rw [counted_distinct (hminute 513) (distinctSeries_nodup _)]
      unfold distinctSeries
      rw [← List.map_take, List.take_range]
      rfl
    intro heq
    rw [grandTotals_of_cells (cellsAt_run 0 (noneMissed_of_nodup (distinctSeries_nodup _))), hcounted,
      hasked, hasked] at heq
    have hrequests := congrArg AggCell.requests heq
    rw [requests_sumOf, requests_sumOf] at hrequests
    unfold distinctSeries at hrequests
    rw [List.length_map, List.length_map, List.length_range, List.length_range] at hrequests
    exact absurd hrequests (by decide)
  · have hnone : NoneMissed [requestOf 86400000 "gpt-4o", requestOf 0 "gpt-4o-mini"] :=
      noneMissed_of_nodup (by decide)
    have hcounted : counted [requestOf 86400000 "gpt-4o", requestOf 0 "gpt-4o-mini"] =
        [requestOf 0 "gpt-4o-mini"] := by decide
    intro heq
    rw [grandTotals_of_cells (cellsAt_run 0 hnone), hcounted] at heq
    exact absurd (congrArg AggCell.requests heq) (by decide)

end RapidRouter.Usage.Minutes
