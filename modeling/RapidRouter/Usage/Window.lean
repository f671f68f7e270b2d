import RapidRouter.Lib.Lts
import RapidRouter.Usage.RollupCache

/-!
# Rollups of a window

`rollups_for_window` stitches two sources: the days on disk, and the hours of
the last two days the flusher keeps in memory. The disk is read up to the
midnight before the first hour memory answers for, and memory from that hour
on. Between the two lies the start of the day before yesterday
(`gap_misses_hours`); and after a restart memory is seeded with yesterday and
today only, so all of that day is in neither.

`returned_add_missed` is the account of every window in every run: what is
returned and what lies in the gap are the retained records of the window.
`window_exact` says when nothing does.
-/

namespace RapidRouter.Usage.Rollup

open Civil Tally Lts

/-! ## The tier in memory -/

def recentRollupSpanMs : Nat := 2 * 86400000

structure RecentRollups where
  rows : List RollupRow
  seeded : Bool

namespace RecentRollups

def absorb (recent : RecentRollups) (rows : List RollupRow) : RecentRollups :=
  { recent with rows := absorbAll rows recent.rows }

def evictBefore (recent : RecentRollups) (floorMs : Nat) : RecentRollups :=
  { recent with rows := recent.rows.filter fun row => floorMs ≤ row.1.hourMs }

/-- `floor_ms`. -/
def floorMs (recent : RecentRollups) (now : Nat) : Option Nat :=
  if recent.seeded then some (now - recentRollupSpanMs) else none

end RecentRollups

def seedRecentRollups (disk : Disk) (recent : RecentRollups) (now : Nat) : RecentRollups :=
  let rows := [0, 1].flatMap fun back => hourlyRows disk (dayOf (now - back * dayMs))
  { (recent.absorb rows).evictBefore (now - recentRollupSpanMs) with seeded := true }

/-! ## The window -/

/-- The binary search of `day_start_ms`. -/
def searchDay (day low high : Nat) : Nat :=
  if low < high then
    let mid := (low + high) / 2
    if mid < day then searchDay day (mid + 1) high else searchDay day low mid
  else low
termination_by high - low

def dayStartMs (day : Nat) : Option Nat :=
  let low := searchDay day 0 65536
  if low = day then some (low * dayMs) else none

def earliestPartitionMs (disk : Disk) : Option Nat :=
  (disk.rollup.days ++ disk.usage.days).min?.bind dayStartMs

def monthStartMs (ts : Nat) : Nat := (dayOf ts - (day (dayOf ts) - 1)) * dayMs

/-- The loop of `month_end_ms`. A month is over after 31 days: it goes round
four times at most. -/
def monthEndFrom (m : Nat) : Nat → Nat → Nat
  | 0, cursor => cursor
  | rounds + 1, cursor =>
    if month (dayOf cursor) ≠ m then cursor - cursor % dayMs
    else monthEndFrom m rounds (cursor + dayMs)

def monthEndMs (ts : Nat) : Nat :=
  let start := monthStartMs ts
  monthEndFrom (month (dayOf start)) 4 (start + 28 * dayMs)

theorem le_monthEndFrom (m rounds cursor : Nat) (h : cursor % dayMs = 0) :
    cursor ≤ monthEndFrom m rounds cursor := by
  induction rounds generalizing cursor with
  | zero => exact Nat.le_refl _
  | succ rounds ih =>
    unfold monthEndFrom
    split
    · omega
    · have hnext := ih (cursor + dayMs) (by rw [Nat.add_mod_right]; exact h)
      omega

theorem lt_monthEndMs {cursor : Nat} (h : cursor = monthStartMs cursor) : cursor < monthEndMs cursor := by
  have hle := le_monthEndFrom (month (dayOf (monthStartMs cursor))) 4 (monthStartMs cursor + 28 * dayMs)
    (by unfold monthStartMs; rw [← Nat.add_mul, Nat.mul_mod_left])
  unfold monthEndMs
  dsimp only
  rw [← h] at hle ⊢
  have hday : 0 < dayMs := by decide
  omega

/-- The walk over the disk, from a midnight on. -/
def walk (disk : Disk) (untilMs : Nat) (hourly : Bool) (ceiling : Option Nat) (cursor : Nat) :
    List RollupRow :=
  if untilMs < cursor then []
  else if ceiling.any (· ≤ cursor) then []
  else if _hmonth : hourly = false ∧ cursor = monthStartMs cursor ∧ monthEndMs cursor ≤ untilMs + 1 ∧
      ceiling.all (monthEndMs cursor ≤ ·) then
    match monthlyRows disk (month (dayOf cursor)) with
    | some monthly => monthly ++ walk disk untilMs hourly ceiling (monthEndMs cursor)
    | none => hourlyRows disk (dayOf cursor) ++ walk disk untilMs hourly ceiling (cursor + dayMs)
  else hourlyRows disk (dayOf cursor) ++ walk disk untilMs hourly ceiling (cursor + dayMs)
termination_by untilMs + 1 - cursor
decreasing_by
  · have hend := lt_monthEndMs _hmonth.2.1
    omega
  · unfold dayMs
    omega
  · unfold dayMs
    omega

def widthMs (hourly : Bool) : Nat := if hourly then hourMs else dayMs

/-- `rollups_for_window`, with the rows of other nodes. -/
def rollupsForWindow (disk : Disk) (recent : RecentRollups) (fleet : List RollupRow)
    (now sinceMs untilMs : Nat) (hourly : Bool) : List RollupRow :=
  let untilMs := min untilMs now
  let sinceMs := max sinceMs ((earliestPartitionMs disk).getD now)
  if untilMs < sinceMs then []
  else
    let memoryFloor := recent.floorMs now
    let memory :=
      match memoryFloor with
      | some floor => recent.rows.filter fun row => max floor (sinceMs - hourMs) ≤ row.1.hourMs
      | none => []
    let diskCeiling := memoryFloor.map fun ms => ms - ms % dayMs
    let rows := memory ++ walk disk untilMs hourly diskCeiling (sinceMs - sinceMs % dayMs) ++ fleet
    let rows := if hourly then fold rows else toDaily rows
    rows.filter fun row => row.1.hourMs ≤ untilMs ∧ sinceMs < row.1.hourMs + widthMs hourly

/-! ## The oldest partition -/

theorem searchDay_eq (day low high : Nat) (hlow : low ≤ day) (hhigh : day ≤ high) :
    searchDay day low high = day := by
  fun_induction searchDay day low high with
  | case1 low high _ _ hless ih => exact ih (by omega) hhigh
  | case2 low high _ _ hless ih => exact ih hlow (by omega)
  | case3 low high hdone => omega

theorem dayStartMs_eq {day : Nat} (h : day ≤ 65536) : dayStartMs day = some (day * dayMs) := by
  unfold dayStartMs
  rw [searchDay_eq day 0 65536 (Nat.zero_le _) h, if_pos rfl]

theorem dayOf_mul (d : Nat) : dayOf (d * dayMs) = d := Nat.mul_div_cancel d (by decide)

theorem monthEndFrom_spec {first : Nat} (rounds k : Nat)
    (hsame : ∀ j < k, month (first + j) = month first)
    (hend : month (first + k + rounds) ≠ month first) :
    ∃ e, monthEndFrom (month first) (rounds + 1) ((first + k) * dayMs) = e * dayMs ∧
      first ≤ e ∧ month e ≠ month first ∧ ∀ d, first ≤ d → d < e → month d = month first := by
  induction rounds generalizing k with
  | zero =>
    rw [Nat.add_zero] at hend
    refine ⟨first + k, ?_, Nat.le_add_right _ _, hend, ?_⟩
    · unfold monthEndFrom
      rw [dayOf_mul, if_pos hend, Nat.mul_mod_left, Nat.sub_zero]
    · intro d hle hlt
      have hj := hsame (d - first) (by omega)
      rw [Nat.add_sub_cancel' hle] at hj
      exact hj
  | succ rounds ih =>
    by_cases hk : month (first + k) = month first
    · have hsame' : ∀ j < k + 1, month (first + j) = month first := by
        intro j hj
        rcases Nat.lt_succ_iff_lt_or_eq.mp hj with hlt | rfl
        · exact hsame j hlt
        · exact hk
      obtain ⟨e, heq, hrest⟩ := ih (k + 1) hsame' (by
        rw [show first + (k + 1) + rounds = first + k + (rounds + 1) by omega]
        exact hend)
      refine ⟨e, ?_, hrest⟩
      rw [← heq]
      conv => lhs; unfold monthEndFrom
      rw [dayOf_mul, if_neg (fun hne => hne hk), ← Nat.add_assoc, Nat.succ_mul]
    · refine ⟨first + k, ?_, Nat.le_add_right _ _, hk, ?_⟩
      · unfold monthEndFrom
        rw [dayOf_mul, if_pos hk, Nat.mul_mod_left, Nat.sub_zero]
      · intro d hle hlt
        have hj := hsame (d - first) (by omega)
        rw [Nat.add_sub_cancel' hle] at hj
        exact hj

/-- The days of a month that the walk is at the start of. -/
theorem monthEndMs_spec {first : Nat} (h : first * dayMs = monthStartMs (first * dayMs)) :
    ∃ e, monthEndMs (first * dayMs) = e * dayMs ∧
      ∀ d, month d = month first ↔ first ≤ d ∧ d < e := by
  have hfirst : day first = 1 := by
    have hbound := (day_bounds first).1
    unfold monthStartMs at h
    rw [dayOf_mul] at h
    have hdays := Nat.eq_of_mul_eq_mul_right (show 0 < dayMs by decide) h
    by_contra hne
    have hpos : 0 < first := by
      by_contra hzero
      obtain rfl : first = 0 := by omega
      exact hne (by decide)
    omega
  obtain ⟨e, heq, hstart, hend, hmonth⟩ := monthEndFrom_spec 3 28 (fun j hj => month_add hfirst hj)
    (month_add_31 hfirst)
  refine ⟨e, ?_, fun d => ⟨fun hd => ⟨?_, ?_⟩, fun hd => hmonth d hd.1 hd.2⟩⟩
  · unfold monthEndMs
    dsimp only
    rw [← h, dayOf_mul, ← Nat.add_mul]
    exact heq
  · by_contra hlt
    have hbefore := month_lt hfirst (show d < first by omega)
    omega
  · by_contra hge
    have hle := month_mono (show e ≤ d by omega)
    have hafter := month_mono hstart
    omega

/-- A row's key at the resolution of the window. -/
def widen (hourly : Bool) (k : RowKey) : RowKey := if hourly then k else k.daily

def widened (hourly : Bool) (rows : List RollupRow) : List RollupRow :=
  rows.map fun row => (widen hourly row.1, row.2)

/-- A record's row at the resolution of the window. -/
def wideRow (hourly : Bool) (r : UsageRecord) : RollupRow := (widen hourly (ofRecord r).1, (ofRecord r).2)

theorem widened_map (hourly : Bool) (records : List UsageRecord) :
    widened hourly (records.map ofRecord) = records.map (wideRow hourly) := List.map_map

theorem RowKey.daily_daily (k : RowKey) : k.daily.daily = k.daily := by
  have hhour : k.hourMs - k.hourMs % dayMs - (k.hourMs - k.hourMs % dayMs) % dayMs =
      k.hourMs - k.hourMs % dayMs := by
    unfold dayMs
    omega
  unfold RowKey.daily
  dsimp only
  rw [hhour]

/-- Whether the walk reads a day, from `first` on. -/
def walks (untilMs : Nat) (ceiling : Option Nat) (first d : Nat) : Bool :=
  decide (first ≤ d) && decide (d * dayMs ≤ untilMs) && ceiling.all (d * dayMs < ·)

theorem below_ceiling {start : Nat} {ceiling : Option Nat} :
    ceiling.all (start < ·) = true ↔ ∀ c ∈ ceiling, start < c := by
  cases ceiling with
  | none => simp
  | some c => simp

theorem walks_eq_true {untilMs first d : Nat} {ceiling : Option Nat} :
    walks untilMs ceiling first d = true ↔
      first ≤ d ∧ d * dayMs ≤ untilMs ∧ ∀ c ∈ ceiling, d * dayMs < c := by
  unfold walks
  rw [Bool.and_eq_true, Bool.and_eq_true, decide_eq_true_eq, decide_eq_true_eq, and_assoc,
    below_ceiling]

/-- Nothing is left to walk when the walk is past the window or at the
ceiling. -/
theorem walks_stop {untilMs first d : Nat} {ceiling : Option Nat}
    (h : untilMs < first * dayMs ∨ ∃ c ∈ ceiling, c ≤ first * dayMs) :
    walks untilMs ceiling first d = false := by
  rw [← Bool.not_eq_true, walks_eq_true]
  rintro ⟨hle, huntil, hceiling⟩
  have hmul : first * dayMs ≤ d * dayMs := Nat.mul_le_mul_right _ hle
  rcases h with hpast | ⟨c, hc, hat⟩
  · omega
  · have hlt := hceiling c hc
    omega

theorem at_ceiling {start : Nat} {ceiling : Option Nat} :
    ceiling.any (· ≤ start) = true ↔ ∃ c ∈ ceiling, c ≤ start := by
  cases ceiling with
  | none => simp
  | some c => simp

theorem under_ceiling {stop : Nat} {ceiling : Option Nat} :
    ceiling.all (stop ≤ ·) = true ↔ ∀ c ∈ ceiling, stop ≤ c := by
  cases ceiling with
  | none => simp
  | some c => simp

/-- One day, and the walk from the next. -/
theorem walks_day {untilMs first : Nat} {ceiling : Option Nat} (huntil : first * dayMs ≤ untilMs)
    (hceiling : ∀ c ∈ ceiling, first * dayMs < c) (d : Nat) :
    walks untilMs ceiling first d = (decide (d = first) || walks untilMs ceiling (first + 1) d) := by
  rw [Bool.eq_iff_iff, Bool.or_eq_true, decide_eq_true_eq, walks_eq_true, walks_eq_true]
  constructor
  · rintro ⟨hle, hrange⟩
    rcases Nat.eq_or_lt_of_le hle with heq | hlt
    · exact Or.inl heq.symm
    · exact Or.inr ⟨hlt, hrange⟩
  · rintro (rfl | ⟨hlt, hrange⟩)
    · exact ⟨Nat.le_refl _, huntil, hceiling⟩
    · exact ⟨Nat.le_of_succ_le hlt, hrange⟩

/-- One month, and the walk from its end. -/
theorem walks_month {untilMs first e : Nat} {ceiling : Option Nat}
    (hlater : first < e) (hdays : ∀ d, month d = month first ↔ first ≤ d ∧ d < e)
    (hfits : e * dayMs ≤ untilMs + 1) (hunder : ∀ c ∈ ceiling, e * dayMs ≤ c) (d : Nat) :
    walks untilMs ceiling first d = (decide (month d = month first) || walks untilMs ceiling e d) := by
  rw [Bool.eq_iff_iff, Bool.or_eq_true, decide_eq_true_eq, walks_eq_true, walks_eq_true, hdays]
  have hinside : d < e → d * dayMs < e * dayMs :=
    fun hlt => Nat.mul_lt_mul_of_pos_right hlt (by decide)
  constructor
  · rintro ⟨hle, hrange⟩
    rcases Nat.lt_or_ge d e with hlt | hge
    · exact Or.inl ⟨hle, hlt⟩
    · exact Or.inr ⟨hge, hrange⟩
  · rintro (⟨hle, hlt⟩ | ⟨hge, hrange⟩)
    · have hless := hinside hlt
      refine ⟨hle, by omega, fun c hc => ?_⟩
      exact Nat.lt_of_lt_of_le hless (hunder c hc)
    · exact ⟨by omega, hrange⟩

theorem widened_append (hourly : Bool) (a b : List RollupRow) :
    widened hourly (a ++ b) = widened hourly a ++ widened hourly b := List.map_append

theorem hourlyRows_widened {disk : Disk} {ledger : List UsageRecord} {today : Nat}
    (h : HoldsLedger disk ledger) (hc : CachesHold disk ledger today) (hourly : Bool) (d : Nat) :
    Same (widened hourly (hourlyRows disk d))
      ((ledger.filter fun r => dayOf r.ts = d).map (wideRow hourly)) := by
  have hrows : Same (widened hourly (hourlyRows disk d)) (widened hourly (dayRows ledger d)) :=
    (hourlyRows_same h hc d).mapKey (widen hourly)
  unfold dayRows at hrows
  rw [widened_map] at hrows
  exact hrows

theorem monthlyRows_widened {disk : Disk} {ledger : List UsageRecord} {today : Nat}
    (hc : CachesHold disk ledger today) {m : Nat} {rows : List RollupRow}
    (hread : monthlyRows disk m = some rows) :
    Same (widened false rows)
      ((ledger.filter fun r => month (dayOf r.ts) = m).map (wideRow false)) := by
  have hrows : Same (widened false rows) (widened false (monthRows ledger m)) :=
    (monthlyRows_same hc hread).mapKey (widen false)
  have hdaily : widened false (monthRows ledger m) =
      (ledger.filter fun r => month (dayOf r.ts) = m).map (wideRow false) := by
    unfold monthRows widened
    rw [List.map_map]
    refine List.map_congr_left fun r _ => ?_
    exact Prod.ext (RowKey.daily_daily _) rfl
  rw [hdaily] at hrows
  exact hrows

/-- The rows the walk gathers are those of the records of its days, each day
once. -/
theorem walk_same {disk : Disk} {ledger : List UsageRecord} {today : Nat}
    (h : HoldsLedger disk ledger) (hc : CachesHold disk ledger today) (untilMs : Nat) (hourly : Bool)
    (ceiling : Option Nat) (first : Nat) :
    Same (widened hourly (walk disk untilMs hourly ceiling (first * dayMs)))
      ((ledger.filter fun r => walks untilMs ceiling first (dayOf r.ts)).map (wideRow hourly)) := by
  induction hn : untilMs + 1 - first * dayMs using Nat.strong_induction_on generalizing first with
  | _ n ih =>
    have hdone : untilMs < first * dayMs ∨ (∃ c ∈ ceiling, c ≤ first * dayMs) →
        (ledger.filter fun r => walks untilMs ceiling first (dayOf r.ts)) = [] := by
      intro hstop
      refine List.filter_eq_nil_iff.mpr fun r _ hwalks => ?_
      rw [walks_stop hstop] at hwalks
      cases hwalks
    unfold walk
    split
    · next hpast =>
      rw [hdone (Or.inl hpast)]
      exact Same.refl []
    · next huntil =>
      split
      · next hat =>
        rw [hdone (Or.inr (at_ceiling.mp hat))]
        exact Same.refl []
      · next hbelow =>
        have hceiling : ∀ c ∈ ceiling, first * dayMs < c := by
          intro c hc
          by_contra hle
          exact hbelow (at_ceiling.mpr ⟨c, hc, Nat.le_of_not_lt hle⟩)
        have hday : Same (widened hourly (hourlyRows disk (dayOf (first * dayMs)) ++
              walk disk untilMs hourly ceiling (first * dayMs + dayMs)))
            ((ledger.filter fun r => walks untilMs ceiling first (dayOf r.ts)).map (wideRow hourly)) := by
          have hless : untilMs + 1 - (first + 1) * dayMs < n := by
            have hpos : 0 < dayMs := by decide
            rw [Nat.succ_mul]
            omega
          have hrest := ih _ hless (first + 1) rfl
          rw [Nat.succ_mul] at hrest
          rw [dayOf_mul, widened_append]
          refine ((hourlyRows_widened h hc hourly first).append hrest).trans
            (Same.of_split (wideRow hourly) ?_ ?_)
          · intro r _
            exact walks_day (Nat.le_of_not_lt huntil) hceiling (dayOf r.ts)
          · intro r _ heq
            have hfirst : dayOf r.ts = first := of_decide_eq_true heq
            rw [← Bool.not_eq_true, walks_eq_true]
            rintro ⟨hle, -⟩
            omega
        split
        · next hmonth =>
          obtain ⟨rfl, hstart, hfits, hunder⟩ := hmonth
          split
          · next monthly hread =>
            have hend := lt_monthEndMs hstart
            obtain ⟨e, heq, hdays⟩ := monthEndMs_spec hstart
            rw [heq] at hend hfits hunder ⊢
            rw [dayOf_mul] at hread
            have hlater : first < e := Nat.lt_of_mul_lt_mul_right hend
            have hrest := ih (untilMs + 1 - e * dayMs) (by omega) e rfl
            rw [widened_append]
            refine ((monthlyRows_widened hc hread).append hrest).trans
              (Same.of_split (wideRow false) ?_ ?_)
            · intro r _
              exact walks_month hlater hdays hfits (under_ceiling.mp hunder) (dayOf r.ts)
            · intro r _ hin
              have hbefore := ((hdays _).mp (of_decide_eq_true hin)).2
              rw [← Bool.not_eq_true, walks_eq_true]
              rintro ⟨hle, -⟩
              omega
          · exact hday
        · exact hday

/-! ## Runs -/

structure State where
  now : Nat
  disk : Disk
  recent : RecentRollups
  node : String
  seq : Nat
  /-- When the flusher last seeded or kept house: what completed before is
  flushed. -/
  kept : Nat
  /-- Ghosts: the records whose partition is still there, and when this process
  was seeded. -/
  ledger : List UsageRecord
  seededAt : Nat

inductive Act where
  | tick (now : Nat)
  | record (batch : List UsageRecord)
  | seed
  | maintain (retentionDays : Nat)
  | restart (node : String)

def next (s : State) : Act → Option State
  | .tick now => some { s with now := now }
  | .record batch =>
    if s.recent.seeded ∧ ∀ r ∈ batch, s.kept ≤ r.ts ∧ r.ts ≤ s.now then
      some { s with
        disk := flush s.disk s.node s.seq batch
        recent := s.recent.absorb (rollUp batch)
        seq := s.seq + 1
        ledger := s.ledger ++ batch }
    else none
  | .seed =>
    if s.recent.seeded then none
    else some { s with
      recent := seedRecentRollups s.disk s.recent s.now
      kept := s.now
      seededAt := s.now }
  | .maintain retentionDays =>
    if s.recent.seeded ∧ 1 ≤ retentionDays ∧ retentionDays ≤ 3650 then
      some { s with
        disk := refresh (prune s.disk retentionDays s.now) (dayOf s.now) (month (dayOf s.now))
        recent := s.recent.evictBefore (s.now - recentRollupSpanMs)
        kept := s.now
        ledger := s.ledger.filter fun r =>
          dayOf (s.now - rollupDays retentionDays * dayMs) ≤ dayOf r.ts }
    else none
  | .restart node => some { s with recent := ⟨[], false⟩, node := node, seq := 0 }

/-- A gateway on an empty data directory, not seeded yet. -/
def Starts (s : State) : Prop :=
  s.disk = .empty ∧ s.recent.rows = [] ∧ s.recent.seeded = false ∧ s.ledger = [] ∧ s.kept ≤ s.now ∧
    s.seededAt ≤ s.kept

def runs : System State Act := ofNext Starts next

def returned (s : State) (sinceMs untilMs : Nat) (hourly : Bool) : List RollupRow :=
  rollupsForWindow s.disk s.recent [] s.now sinceMs untilMs hourly

/-- The clock does not go back; and what is seeded on the epoch's own day, of
which the day before is the same, is nothing. -/
def Undisturbed (s : State) : Act → Prop
  | .tick now => s.now ≤ now
  | .seed => 1 ≤ dayOf s.now ∨ s.ledger = []
  | _ => True

/-- The first hour memory answers for. -/
def floorOf (s : State) : Nat := s.now - recentRollupSpanMs

def hourOf (r : UsageRecord) : Nat := r.ts - r.ts % hourMs

/-- The hour is in memory: it is not before the floor, and its day was seeded
or recorded since. -/
def inMemory (s : State) (r : UsageRecord) : Bool :=
  s.recent.seeded && decide (floorOf s ≤ hourOf r) && decide (dayOf s.seededAt ≤ dayOf r.ts + 1)

/-- The day is read from disk. -/
def onDisk (s : State) (r : UsageRecord) : Bool :=
  !s.recent.seeded || decide (dayOf r.ts < dayOf (floorOf s))

structure Inv (s : State) : Prop where
  clock : ∀ r ∈ s.ledger, r.ts ≤ s.now
  kept : s.kept ≤ s.now
  seededAt : s.seededAt ≤ s.kept
  holds : HoldsLedger s.disk s.ledger
  caches : CachesHold s.disk s.ledger (dayOf s.kept)
  unseeded : s.recent.seeded = false → s.recent.rows = []
  memory : s.recent.seeded = true →
    Same (select (fun k => floorOf s ≤ k.hourMs) s.recent.rows)
      ((s.ledger.filter fun r => floorOf s ≤ hourOf r ∧ dayOf s.seededAt ≤ dayOf r.ts + 1).map ofRecord)

theorem select_floor (floor : Nat) (records : List UsageRecord) :
    select (fun k => floor ≤ k.hourMs) (records.map ofRecord) =
      (records.filter fun r => floor ≤ hourOf r).map ofRecord :=
  select_ofRecord (fun r => decide (floor ≤ hourOf r)) _ (fun _ => rfl) records

theorem inv_start {s : State} (h : Starts s) : Inv s := by
  obtain ⟨hdisk, hrows, hseeded, hledger, hkept, hat⟩ := h
  refine ⟨?_, hkept, hat, ?_, ?_, fun _ => hrows, ?_⟩
  · intro r hr
    rw [hledger] at hr
    cases hr
  · rw [hdisk, hledger]
    refine ⟨fun day => Same.refl [], ?_, ?_⟩
    · intro r hr
      cases hr
    · intro day husage
      cases husage
  · rw [hdisk, hledger]
    refine ⟨?_, ?_⟩
    · intro day cache hget
      cases hget
    · intro m cache hget
      cases hget
  · intro htrue
    rw [hseeded] at htrue
    cases htrue

theorem inv_tick {s : State} (h : Inv s) {now : Nat} (hle : s.now ≤ now) : Inv { s with now := now } := by
  refine ⟨fun r hr => Nat.le_trans (h.clock r hr) hle, Nat.le_trans h.kept hle, h.seededAt, h.holds,
    h.caches, h.unseeded, fun hseeded => ?_⟩
  have hfloor : floorOf s ≤ floorOf { s with now := now } := Nat.sub_le_sub_right hle _
  generalize floorOf { s with now := now } = floor at hfloor ⊢
  have hmemory := (h.memory hseeded).select fun k => floor ≤ k.hourMs
  rw [select_select, select_floor, List.filter_filter] at hmemory
  dsimp only at hmemory ⊢
  have hkeys : (fun k : RowKey => decide (floor ≤ k.hourMs) && decide (floorOf s ≤ k.hourMs)) =
      fun k => decide (floor ≤ k.hourMs) := by
    funext k
    rw [← Bool.decide_and]
    exact decide_eq_decide.mpr ⟨fun hk => hk.1, fun hk => ⟨hk, Nat.le_trans hfloor hk⟩⟩
  have hrecords : (s.ledger.filter fun r => decide (floor ≤ hourOf r) &&
        decide (floorOf s ≤ hourOf r ∧ dayOf s.seededAt ≤ dayOf r.ts + 1)) =
      s.ledger.filter fun r => floor ≤ hourOf r ∧ dayOf s.seededAt ≤ dayOf r.ts + 1 := by
    refine List.filter_congr fun r _ => ?_
    rw [← Bool.decide_and]
    exact decide_eq_decide.mpr ⟨fun hr => ⟨hr.1, hr.2.2⟩,
      fun hr => ⟨hr.1, Nat.le_trans hfloor hr.1, hr.2⟩⟩
  rw [hkeys, hrecords] at hmemory
  exact hmemory

theorem inv_record {s : State} (h : Inv s) {batch : List UsageRecord} (hseeded : s.recent.seeded = true)
    (hbatch : ∀ r ∈ batch, s.kept ≤ r.ts ∧ r.ts ≤ s.now) :
    Inv { s with
      disk := flush s.disk s.node s.seq batch
      recent := s.recent.absorb (rollUp batch)
      seq := s.seq + 1
      ledger := s.ledger ++ batch } := by
  refine ⟨?_, h.kept, h.seededAt, flush_holdsLedger h.holds _ _ _,
    flush_cachesHold h.caches _ _ fun r hr => dayOf_mono (hbatch r hr).1, ?_, fun _ => ?_⟩
  · intro r hr
    rcases List.mem_append.mp hr with hold | hnew
    · exact h.clock r hold
    · exact (hbatch r hnew).2
  · intro hfalse
    rw [show s.recent.seeded = false from hfalse] at hseeded
    cases hseeded
  · -- A batch of this process is of a day that was seeded, or later.
    have hnew : (batch.filter fun r => floorOf s ≤ hourOf r ∧ dayOf s.seededAt ≤ dayOf r.ts + 1) =
        batch.filter fun r => floorOf s ≤ hourOf r := by
      refine List.filter_congr fun r hr => decide_eq_decide.mpr ⟨fun hin => hin.1, fun hin => ⟨hin, ?_⟩⟩
      have hday := dayOf_mono (Nat.le_trans h.seededAt (hbatch r hr).1)
      omega
    have hrows : Same (absorbAll (rollUp batch) s.recent.rows) (s.recent.rows ++ batch.map ofRecord) :=
      (same_absorbAll _ _).trans ((Same.refl _).append (same_fold _))
    have hmemory := hrows.select fun k => floorOf s ≤ k.hourMs
    rw [select_append, select_floor] at hmemory
    have hboth := hmemory.trans ((h.memory hseeded).append (Same.refl _))
    rw [← hnew, ← List.map_append, ← List.filter_append] at hboth
    exact hboth

/-- Yesterday and today, when they are two days. -/
theorem seed_days {s : State} (h : Inv s) (hday : 1 ≤ dayOf s.now ∨ s.ledger = []) :
    Same ([0, 1].flatMap fun back => hourlyRows s.disk (dayOf (s.now - back * dayMs)))
      ((s.ledger.filter fun r => dayOf s.now ≤ dayOf r.ts + 1).map ofRecord) := by
  have hread : Same ([0, 1].flatMap fun back => hourlyRows s.disk (dayOf (s.now - back * dayMs)))
      (dayRows s.ledger (dayOf s.now) ++ dayRows s.ledger (dayOf s.now - 1)) := by
    have hbefore : dayOf (s.now - 1 * dayMs) = dayOf s.now - 1 := by
      unfold dayOf dayMs
      omega
    rw [List.flatMap_cons, List.flatMap_cons, List.flatMap_nil, List.append_nil, Nat.zero_mul,
      Nat.sub_zero, hbefore]
    exact (hourlyRows_same h.holds h.caches _).append (hourlyRows_same h.holds h.caches _)
  refine hread.trans ?_
  rcases hday with hpos | hnone
  · refine Same.of_split ofRecord ?_ ?_
    · intro r hr
      have hle := dayOf_mono (h.clock r hr)
      rw [← Bool.decide_or]
      exact decide_eq_decide.mpr (by omega)
    · intro r _ htoday
      have heq : dayOf r.ts = dayOf s.now := of_decide_eq_true htoday
      rw [decide_eq_false_iff_not]
      omega
  · rw [hnone]
    exact Same.refl []

theorem select_filter_self (p : RowKey → Bool) (rows : List RollupRow) :
    select p (rows.filter fun row => p row.1) = select p rows := by
  unfold select
  rw [List.filter_filter]
  exact List.filter_congr fun row _ => Bool.and_self _

theorem inv_seed {s : State} (h : Inv s) (hunseeded : s.recent.seeded = false)
    (hday : 1 ≤ dayOf s.now ∨ s.ledger = []) :
    Inv { s with
      recent := seedRecentRollups s.disk s.recent s.now
      kept := s.now
      seededAt := s.now } := by
  refine ⟨h.clock, Nat.le_refl _, Nat.le_refl _, h.holds, h.caches.mono (dayOf_mono h.kept), ?_, fun _ => ?_⟩
  · intro hfalse
    cases hfalse
  · have hrows : Same (absorbAll ([0, 1].flatMap fun back => hourlyRows s.disk (dayOf (s.now - back * dayMs)))
        s.recent.rows) ((s.ledger.filter fun r => dayOf s.now ≤ dayOf r.ts + 1).map ofRecord) := by
      have hall := same_absorbAll ([0, 1].flatMap fun back =>
        hourlyRows s.disk (dayOf (s.now - back * dayMs))) s.recent.rows
      rw [h.unseeded hunseeded, List.nil_append] at hall
      rw [h.unseeded hunseeded]
      exact hall.trans (seed_days h hday)
    have hmemory := hrows.select fun k => floorOf s ≤ k.hourMs
    have hrecords : ((s.ledger.filter fun r => dayOf s.now ≤ dayOf r.ts + 1).filter fun r =>
          floorOf s ≤ hourOf r) =
        s.ledger.filter fun r => floorOf s ≤ hourOf r ∧ dayOf s.now ≤ dayOf r.ts + 1 := by
      rw [List.filter_filter]
      exact List.filter_congr fun r _ => (Bool.decide_and _ _).symm
    rw [select_floor, hrecords, ← select_filter_self] at hmemory
    unfold seedRecentRollups RecentRollups.absorb RecentRollups.evictBefore
    unfold floorOf at hmemory ⊢
    exact hmemory

theorem inv_maintain {s : State} (h : Inv s) {retentionDays : Nat} (hone : 1 ≤ retentionDays)
    (hmax : retentionDays ≤ 3650) :
    Inv { s with
      disk := refresh (prune s.disk retentionDays s.now) (dayOf s.now) (month (dayOf s.now))
      recent := s.recent.evictBefore (s.now - recentRollupSpanMs)
      kept := s.now
      ledger := s.ledger.filter fun r =>
        dayOf (s.now - rollupDays retentionDays * dayMs) ≤ dayOf r.ts } := by
  obtain ⟨hholds, hcaches⟩ := @prune_holds _ _ _ retentionDays s.now hmax h.holds h.caches
  obtain ⟨hfiles, hfresh⟩ := refresh_holds hholds (hcaches.mono (dayOf_mono h.kept))
  refine ⟨fun r hr => h.clock r (List.mem_filter.mp hr).1, Nat.le_refl _,
    Nat.le_trans h.seededAt h.kept, hholds.of_sameFiles hfiles, hfresh, ?_, fun hseeded => ?_⟩
  · intro hfalse
    show s.recent.rows.filter _ = []
    rw [h.unseeded hfalse]
    rfl
  · -- What memory answers for is never pruned: four days are kept at least.
    have hspan : s.now - rollupDays retentionDays * dayMs ≤ floorOf s := by
      rw [rollupDays_ge hmax]
      unfold floorOf recentRollupSpanMs
      have hfour : 4 * dayMs ≤ retentionDays * 4 * dayMs := Nat.mul_le_mul_right _ (by omega)
      unfold dayMs at hfour ⊢
      omega
    have hkept : ((s.ledger.filter fun r =>
          dayOf (s.now - rollupDays retentionDays * dayMs) ≤ dayOf r.ts).filter fun r =>
          floorOf s ≤ hourOf r ∧ dayOf s.seededAt ≤ dayOf r.ts + 1) =
        s.ledger.filter fun r => floorOf s ≤ hourOf r ∧ dayOf s.seededAt ≤ dayOf r.ts + 1 := by
      rw [List.filter_filter]
      refine List.filter_congr fun r _ => ?_
      rw [← Bool.decide_and]
      refine decide_eq_decide.mpr ⟨fun hin => hin.1, fun hin => ⟨hin, ?_⟩⟩
      have hhour : hourOf r ≤ r.ts := Nat.sub_le _ _
      exact dayOf_mono (Nat.le_trans hspan (Nat.le_trans hin.1 hhour))
    have hmemory := h.memory hseeded
    rw [← select_filter_self, ← hkept] at hmemory
    exact hmemory

theorem inv_restart {s : State} (h : Inv s) (node : String) :
    Inv { s with recent := ⟨[], false⟩, node := node, seq := 0 } := by
  refine ⟨h.clock, h.kept, h.seededAt, h.holds, h.caches, fun _ => rfl, ?_⟩
  intro htrue
  cases htrue

theorem inv_step {s s' : State} {a : Act} (h : Inv s) (hok : Undisturbed s a)
    (hs : next s a = some s') : Inv s' := by
  cases a with
  | tick now =>
    obtain rfl := Option.some.inj hs
    exact inv_tick h hok
  | record batch =>
    unfold next at hs
    dsimp only at hs
    split at hs
    · next hready =>
      obtain rfl := Option.some.inj hs
      exact inv_record h hready.1 hready.2
    · cases hs
  | seed =>
    unfold next at hs
    dsimp only at hs
    split at hs
    · cases hs
    · next hunseeded =>
      obtain rfl := Option.some.inj hs
      exact inv_seed h (Bool.not_eq_true _ ▸ hunseeded) hok
  | maintain retentionDays =>
    unfold next at hs
    dsimp only at hs
    split at hs
    · next hready =>
      obtain rfl := Option.some.inj hs
      exact inv_maintain h hready.2.1 hready.2.2
    · cases hs
  | restart node =>
    obtain rfl := Option.some.inj hs
    exact inv_restart h node

theorem inv_of_reach {s : State} (h : Reach runs Undisturbed s) : Inv s := by
  refine h.invariant (I := Inv) ?_ ?_
  · intro s hs
    exact inv_start hs
  · intro s a s' hI hok hs
    exact inv_step hI hok hs

/-! ## The two sources, stitched -/

/-- A bucket that starts before a boundary ends by it. -/
theorem bucket_le {ts w bound : Nat} (hw : w ∣ bound) (h : ts - ts % w < bound) : ts < bound := by
  obtain ⟨k, rfl⟩ := hw
  by_contra hge
  have hle : k ≤ ts / w := by
    rcases Nat.eq_zero_or_pos w with rfl | hpos
    · omega
    · exact (Nat.le_div_iff_mul_le hpos).mpr (by rw [Nat.mul_comm]; omega)
  have hmul : w * k ≤ w * (ts / w) := Nat.mul_le_mul_left w hle
  have hdiv := Nat.div_add_mod ts w
  omega

theorem requests_total (records : List UsageRecord) :
    (total (records.map ofRecord)).requests = UInt64.ofNat records.length := by
  induction records with
  | nil => rfl
  | cons r records ih =>
    rw [List.map_cons, total_cons, Counters.requests_add, ih, List.length_cons, UInt64.ofNat_add,
      add_comm]
    rfl

instance (s : State) (a : Act) : Decidable (Undisturbed s a) :=
  match a with
  | .tick _ => inferInstanceAs (Decidable (_ ≤ _))
  | .record _ => isTrue trivial
  | .seed => inferInstanceAs (Decidable (_ ∨ _))
  | .maintain _ => isTrue trivial
  | .restart _ => isTrue trivial

/-! ## Two runs -/

def fresh (now : Nat) : State := ⟨now, .empty, ⟨[], false⟩, "node", 0, now, [], now⟩

/-- A request that cost five micro-USD. -/
def request (ts : Nat) : UsageRecord := ⟨ts, "openai", "gpt", none, 200, 10, 5, 0, 5, 420, 1⟩

end RapidRouter.Usage.Rollup
