import RapidRouter.Lib.Lts
import RapidRouter.Usage.Window

/-!
# Months of mixed days

`refresh` of `rollup_cache.rs` assembles a month from the days that have
rollups. `hourly_rows` also answers for days that only have records, and
`backfill_missing_rollups` caches those, but no month takes them in: a month
served from its cache is all of its days exactly when none of them has records
and no rollups (`month_complete`).

A directory is any partitions of records and of rollups, at first without
caches; what runs are refreshes and backfills of it, at any dates.
-/

namespace RapidRouter.Usage.Rollup

open Civil Tally Lts

/-! ## Folding twice -/

theorem toDaily_fold (rows : List RollupRow) : toDaily (fold rows) = toDaily rows := by
  unfold toDaily
  rw [← entries_gather, ← entries_gather, ← entries_gather, gather_mapKey_gather]

theorem toDaily_congr {a b : List RollupRow} (h : fold a = fold b) : toDaily a = toDaily b := by
  rw [← toDaily_fold a, h, toDaily_fold]

/-! ## Runs -/

/-- What the flusher's maintenance does to a directory. -/
inductive Upkeep where
  | refresh (today currentMonth : Nat)
  | backfill (today : Nat)

/-- `backfill_missing_rollups`. -/
def backfill (disk : Disk) (today : Nat) : Disk :=
  disk.usage.days.foldl (backfillDay today disk.rollup.days) disk

def upkeep (disk : Disk) : Upkeep → Option Disk
  | .refresh today currentMonth => some (refresh disk today currentMonth)
  | .backfill today => some (backfill disk today)

/-- Any directory, without caches. -/
def Uncached (disk : Disk) : Prop := disk.dayCache = .empty ∧ disk.monthCache = .empty

def maintained : System Disk Upkeep := ofNext Uncached upkeep

/-- The days of a month that have files of either kind. -/
def allDays (disk : Disk) (m : Nat) : List Nat :=
  ((disk.rollup.days ++ disk.usage.days).dedup).filter fun day => month day = m

/-- The days of a month that have records and no rollups. -/
def recordDays (disk : Disk) (m : Nat) : List Nat :=
  disk.usage.days.filter fun day => month day = m ∧ (disk.rollup.get? day).isNone

/-- The daily fold of `hourly_rows` over days. -/
def dailyFold (disk : Disk) (days : List Nat) : List RollupRow :=
  fold (days.flatMap fun day => toDaily (hourlyRows disk day))

/-! ## What the caches of a directory hold -/

/-- The rows of a day, from its files. -/
def fileRows (disk : Disk) (day : Nat) : List RollupRow :=
  if (disk.rollup.get? day).isSome then disk.rollup.lines day
  else rollUp (disk.usage.lines day)

/-- A day's cache is of its rollups or of its records, as its stamp says, and
a month's is of the days that have rollups. -/
structure CachesOf (disk : Disk) : Prop where
  day : ∀ day cache, disk.dayCache.get? day = some cache →
    (∃ stamp, cache.stamp = .rollups stamp ∧ fold cache.rows = fold (disk.rollup.lines day)) ∨
      ∃ stamp, cache.stamp = .records stamp ∧ fold cache.rows = fold (rollUp (disk.usage.lines day))
  month : ∀ m cache, disk.monthCache.get? m = some cache →
    cache.rows = fold ((monthDays disk m).flatMap fun day => toDaily (fileRows disk day))

/-- However a day is read, its rows fold to those of its files. -/
theorem fold_hourlyRows {disk : Disk} (h : CachesOf disk) (day : Nat) :
    fold (hourlyRows disk day) = fold (fileRows disk day) := by
  unfold hourlyRows fileRows
  cases hstamp : fingerprint disk.rollup day with
  | some stamp =>
    have hdir : (disk.rollup.get? day).isSome = true := by
      rw [← fingerprint_isSome, hstamp]
      rfl
    rw [if_pos hdir]
    dsimp only
    split
    · next rows hread =>
      obtain ⟨cache, hcache, hwant, rfl⟩ := readIfCurrent_some hread
      rcases h.day day cache hcache with ⟨_, _, hrows⟩ | ⟨_, hkind, _⟩
      · exact hrows
      · rw [hkind] at hwant
        cases hwant
    · rfl
  | none =>
    have hdir : (disk.rollup.get? day).isSome = false := by
      rw [← fingerprint_isSome, hstamp]
      rfl
    rw [if_neg (by rw [hdir]; exact Bool.false_ne_true)]
    dsimp only
    split
    · next rows hread =>
      obtain ⟨cache, hcache, hwant, rfl⟩ := readIfCurrent_some hread
      obtain ⟨stamp, _, hkind⟩ := Option.map_eq_some_iff.mp hwant
      rcases h.day day cache hcache with ⟨_, hkind', _⟩ | ⟨_, _, hrows⟩
      · rw [hkind'] at hkind
        cases hkind
      · exact hrows
    · split
      · next hnone =>
        -- No directory at all: there are no lines to roll up.
        have husage : disk.usage.get? day = none := by
          rw [Option.isNone_iff_eq_none, Option.map_eq_none_iff] at hnone
          rw [← Option.not_isSome_iff_eq_none, ← fingerprint_isSome, hnone]
          exact Bool.false_ne_true
        have hlines : disk.usage.lines day = [] := by
          unfold Partitions.lines
          rw [husage]
          rfl
        rw [hlines]
        rfl
      · exact fold_fold _

theorem toDaily_hourlyRows {disk : Disk} (h : CachesOf disk) (day : Nat) :
    toDaily (hourlyRows disk day) = toDaily (fileRows disk day) := toDaily_congr (fold_hourlyRows h day)

theorem CachesOf.insertDay {disk : Disk} (h : CachesOf disk) {day : Nat} {cache : Cache}
    (hcache : (∃ stamp, cache.stamp = .rollups stamp ∧ fold cache.rows = fold (disk.rollup.lines day)) ∨
      ∃ stamp, cache.stamp = .records stamp ∧ fold cache.rows = fold (rollUp (disk.usage.lines day))) :
    CachesOf { disk with dayCache := disk.dayCache.insert day cache } := by
  refine ⟨fun d c hget => ?_, h.month⟩
  rw [OrdMap.get?_insert] at hget
  split at hget
  · next heq =>
    obtain rfl := Option.some.inj hget
    subst heq
    exact hcache
  · exact h.day d c hget

theorem CachesOf.refreshDay {disk : Disk} (h : CachesOf disk) (today day : Nat) :
    CachesOf (refreshDay today disk day) := by
  unfold Rollup.refreshDay
  split
  · exact h
  · split
    · exact h
    · next stamp _ =>
      split
      · exact h
      · exact h.insertDay (Or.inl ⟨stamp, rfl, fold_fold _⟩)

theorem CachesOf.backfillDay {disk : Disk} (h : CachesOf disk) (today : Nat) (haveRollups : List Nat)
    (day : Nat) : CachesOf (backfillDay today haveRollups disk day) := by
  unfold Rollup.backfillDay
  split
  · exact h
  · split
    · exact h
    · next stamp _ =>
      split
      · exact h
      · exact h.insertDay (Or.inr ⟨stamp, rfl, rfl⟩)

theorem CachesOf.refreshMonth {disk : Disk} (h : CachesOf disk) (currentMonth m : Nat) :
    CachesOf (refreshMonth currentMonth disk m) := by
  unfold Rollup.refreshMonth
  split
  · exact h
  · split
    · exact h
    · next stamps _ =>
      split
      · exact h
      · refine ⟨h.day, fun m' cache hget => ?_⟩
        change (disk.monthCache.insert m _).get? m' = some cache at hget
        rw [OrdMap.get?_insert] at hget
        split at hget
        · next heq =>
          obtain rfl := Option.some.inj hget
          subst heq
          show fold _ = fold _
          congr 1
          exact List.flatMap_congr fun day _ => toDaily_hourlyRows h day
        · exact h.month m' cache hget

theorem cachesOf_foldl {step : Disk → Nat → Disk} (hstep : ∀ disk i, CachesOf disk → CachesOf (step disk i))
    (is : List Nat) {disk : Disk} (h : CachesOf disk) : CachesOf (is.foldl step disk) := by
  induction is generalizing disk with
  | nil => exact h
  | cons i is ih => exact ih (hstep disk i h)

theorem CachesOf.upkeep {disk disk' : Disk} (h : CachesOf disk) {a : Upkeep}
    (hnext : upkeep disk a = some disk') : CachesOf disk' := by
  cases a with
  | refresh today currentMonth =>
    obtain rfl := Option.some.inj hnext
    unfold refresh
    dsimp only
    have hdays := cachesOf_foldl (fun d day hd => hd.refreshDay today day) disk.rollup.days h
    have hrecords := cachesOf_foldl (fun d day hd => hd.backfillDay today disk.rollup.days day)
      (disk.rollup.days.foldl (Rollup.refreshDay today) disk).usage.days hdays
    exact cachesOf_foldl (fun d m hd => hd.refreshMonth currentMonth m) _ hrecords
  | backfill today =>
    obtain rfl := Option.some.inj hnext
    exact cachesOf_foldl (fun d day hd => hd.backfillDay today disk.rollup.days day) _ h

theorem cachesOf_of_reach {disk : Disk} (h : Reach maintained free disk) : CachesOf disk := by
  refine h.invariant ?_ ?_
  · intro s hs
    obtain ⟨hday, hmonth⟩ := hs
    refine ⟨fun day cache hget => ?_, fun m cache hget => ?_⟩
    · rw [hday] at hget
      cases hget
    · rw [hmonth] at hget
      cases hget
  · intro s a s' hs _ hnext
    exact hs.upkeep hnext

/-! ## What a month leaves out -/

/-- The records of a month's days that have no rollups. -/
def leftOut (disk : Disk) (m : Nat) : List UsageRecord := (recordDays disk m).flatMap disk.usage.lines

/-- The days of a month are those with rollups and those with records only. -/
theorem allDays_perm (disk : Disk) (m : Nat) :
    (allDays disk m).Perm (monthDays disk m ++ recordDays disk m) := by
  have hnodup : (monthDays disk m ++ recordDays disk m).Nodup := by
    refine List.nodup_append.mpr ⟨monthDays_nodup disk m, ?_, ?_⟩
    · exact (Partitions.nodup_days disk.usage).filter _
    · intro d hd d' hd' heq
      subst heq
      have hsome := Partitions.mem_days.mp (List.mem_filter.mp hd).1
      have hnone := (of_decide_eq_true (List.mem_filter.mp hd').2).2
      rw [Option.isNone_iff_eq_none] at hnone
      rw [hnone] at hsome
      cases hsome
  refine (List.perm_ext_iff_of_nodup ((List.nodup_dedup _).filter _) hnodup).mpr fun d => ?_
  unfold monthDays recordDays
  simp only [List.mem_filter, List.mem_dedup, List.mem_append, decide_eq_true_eq, Partitions.mem_days,
    Option.isNone_iff_eq_none]
  constructor
  · intro h
    obtain ⟨hfiles, hmonth⟩ := h
    cases hrollup : disk.rollup.get? d with
    | some files => exact Or.inl ⟨rfl, hmonth⟩
    | none =>
      rw [hrollup] at hfiles
      rcases hfiles with hfiles | hfiles
      · cases hfiles
      · exact Or.inr ⟨hfiles, hmonth, rfl⟩
  · intro h
    rcases h with ⟨hsome, hmonth⟩ | ⟨hsome, hmonth, _⟩
    · exact ⟨Or.inl hsome, hmonth⟩
    · exact ⟨Or.inr hsome, hmonth⟩

/-- A month served from its cache is the fold of its days with rollups. -/
theorem monthlyRows_eq {disk : Disk} (h : CachesOf disk) {m : Nat} {rows : List RollupRow}
    (hread : monthlyRows disk m = some rows) : rows = dailyFold disk (monthDays disk m) := by
  obtain ⟨cache, hcache, -, rfl⟩ := readIfCurrent_some hread
  rw [h.month m cache hcache]
  unfold dailyFold
  congr 1
  exact (List.flatMap_congr fun day _ => toDaily_hourlyRows h day).symm

theorem requests_toDaily (rows : List RollupRow) :
    (total (toDaily rows)).requests = (total rows).requests := by
  have hdaily : total (rows.map fun row => (row.1.daily, row.2)) = total rows := by
    unfold total
    rw [List.map_map]
    rfl
  rw [show toDaily rows = fold (rows.map fun row => (row.1.daily, row.2)) from rfl,
    (same_fold _).total, hdaily]

/-- What the days with records only would have added. -/
theorem requests_recordDays {disk : Disk} (h : CachesOf disk) (m : Nat) :
    (total ((recordDays disk m).flatMap fun day => toDaily (hourlyRows disk day))).requests =
      UInt64.ofNat (leftOut disk m).length := by
  unfold leftOut
  have hnone : ∀ d ∈ recordDays disk m, disk.rollup.get? d = none := by
    intro d hd
    exact Option.isNone_iff_eq_none.mp (of_decide_eq_true (List.mem_filter.mp hd).2).2
  generalize recordDays disk m = days at hnone ⊢
  induction days with
  | nil => rfl
  | cons d days ih =>
    have hfile : fileRows disk d = rollUp (disk.usage.lines d) := by
      unfold fileRows
      rw [hnone d List.mem_cons_self]
      rfl
    have hday : (total (toDaily (hourlyRows disk d))).requests =
        UInt64.ofNat (disk.usage.lines d).length := by
      rw [toDaily_hourlyRows h, requests_toDaily, hfile,
        show rollUp (disk.usage.lines d) = fold ((disk.usage.lines d).map ofRecord) from rfl,
        (same_fold _).total, requests_total]
    rw [List.flatMap_cons, List.flatMap_cons, total_append, Counters.requests_add, hday,
      ih fun d' hd' => hnone d' (List.mem_cons_of_mem _ hd'), List.length_append, UInt64.ofNat_add]

/-- All days of a month are those it is served from and those left out. -/
theorem dailyFold_allDays (disk : Disk) (m : Nat) :
    dailyFold disk (allDays disk m) =
      fold (((monthDays disk m).flatMap fun day => toDaily (hourlyRows disk day)) ++
        (recordDays disk m).flatMap fun day => toDaily (hourlyRows disk day)) := by
  rw [← List.flatMap_append]
  exact fold_perm ((allDays_perm disk m).flatMap_right _)

/-- The requests of the records left out are missing from the sum. -/
theorem leftOut_of_complete {disk : Disk} (h : CachesOf disk) {m : Nat}
    (heq : dailyFold disk (monthDays disk m) = dailyFold disk (allDays disk m))
    (hcount : (leftOut disk m).length < 2 ^ 64) : leftOut disk m = [] := by
  rw [dailyFold_allDays] at heq
  have htotal := congrArg (fun rows => (total rows).requests) heq
  dsimp only [dailyFold] at htotal
  rw [(same_fold _).total, (same_fold _).total, total_append, Counters.requests_add,
    requests_recordDays h] at htotal
  have hzero : UInt64.ofNat (leftOut disk m).length = 0 := add_eq_left.mp htotal.symm
  have hnat := congrArg UInt64.toNat hzero
  rw [UInt64.toNat_ofNat', Nat.mod_eq_of_lt hcount] at hnat
  exact List.length_eq_zero_iff.mp hnat

/-- After any refreshes and backfills of any directory, the rows a month is
served with are the daily fold of all its days exactly when none of its days
has records and no rollups. -/
theorem month_complete {disk : Disk} (h : Reach maintained free disk) {m : Nat} {rows : List RollupRow}
    (hread : monthlyRows disk m = some rows) (hcount : (leftOut disk m).length < 2 ^ 64) :
    rows = dailyFold disk (allDays disk m) ↔ leftOut disk m = [] := by
  have hcaches := cachesOf_of_reach h
  rw [monthlyRows_eq hcaches hread]
  constructor
  · intro heq
    exact leftOut_of_complete hcaches heq hcount
  · intro hnone
    have hrows : ((recordDays disk m).flatMap fun day => toDaily (hourlyRows disk day)) = [] := by
      rw [List.flatMap_eq_nil_iff]
      intro d hd
      have hlines : disk.usage.lines d = [] := List.flatMap_eq_nil_iff.mp hnone d hd
      have hrollup : disk.rollup.get? d = none :=
        Option.isNone_iff_eq_none.mp (of_decide_eq_true (List.mem_filter.mp hd).2).2
      have hfile : fileRows disk d = [] := by
        unfold fileRows
        rw [hrollup, hlines]
        rfl
      rw [toDaily_hourlyRows hcaches, hfile]
      rfl
    rw [dailyFold_allDays, hrows, List.append_nil]
    rfl

/-! ## A month that is over is cached -/

theorem mapM_isSome {α β : Type} {f : α → Option β} {l : List α} (h : ∀ x ∈ l, (f x).isSome) :
    (l.mapM f).isSome := by
  induction l with
  | nil => rfl
  | cons x l ih =>
    obtain ⟨y, hy⟩ := Option.isSome_iff_exists.mp (h x List.mem_cons_self)
    obtain ⟨ys, hys⟩ := Option.isSome_iff_exists.mp (ih fun z hz => h z (List.mem_cons_of_mem _ hz))
    rw [List.mapM_cons, hy, hys]
    rfl

theorem monthFingerprint_isSome {disk : Disk} {m : Nat} (h : monthDays disk m ≠ []) :
    (monthFingerprint disk m).isSome := by
  unfold monthFingerprint
  rw [if_neg h]
  refine mapM_isSome fun d hd => ?_
  rw [fingerprint_isSome]
  exact Partitions.mem_days.mp (List.mem_filter.mp hd).1

theorem SameFiles.monthFingerprint {disk disk' : Disk} (h : SameFiles disk disk') (m : Nat) :
    monthFingerprint disk' m = monthFingerprint disk m := by
  unfold Rollup.monthFingerprint monthDays
  rw [h.2]

/-- A pass over the months leaves a month that is over with a current cache. -/
theorem refreshMonth_current {disk : Disk} {currentMonth m : Nat} (hover : m < currentMonth)
    (hdays : monthDays disk m ≠ []) : (monthlyRows (refreshMonth currentMonth disk m) m).isSome := by
  obtain ⟨stamps, hstamps⟩ := Option.isSome_iff_exists.mp (monthFingerprint_isSome hdays)
  unfold refreshMonth
  rw [if_neg (by omega), hstamps]
  dsimp only
  split
  · next hcurrent =>
    unfold monthlyRows
    rw [hstamps]
    exact hcurrent
  · unfold monthlyRows
    show (readIfCurrent ((disk.monthCache.insert m _).get? m) ((monthFingerprint disk m).map .month)).isSome = true
    rw [hstamps, OrdMap.get?_insert_self]
    unfold readIfCurrent
    dsimp only [Option.map_some]
    rw [if_pos rfl]
    rfl

/-- No other month's cache is touched. -/
theorem refreshMonth_keeps {disk : Disk} {currentMonth m m' : Nat} (h : (monthlyRows disk m).isSome) :
    (monthlyRows (refreshMonth currentMonth disk m') m).isSome := by
  have hstamp := (refreshMonth_files currentMonth disk m').monthFingerprint m
  by_cases hm : m' = m
  · subst hm
    have hsame : refreshMonth currentMonth disk m' = disk := by
      unfold refreshMonth
      split
      · rfl
      · split
        · rfl
        · next stamps hstamps =>
          rw [if_pos]
          unfold monthlyRows at h
          rw [hstamps] at h
          exact h
    rw [hsame]
    exact h
  · have hcache : (refreshMonth currentMonth disk m').monthCache.get? m = disk.monthCache.get? m := by
      unfold refreshMonth
      split
      · rfl
      · split
        · rfl
        · split
          · rfl
          · dsimp only
            rw [OrdMap.get?_insert, if_neg (Ne.symm hm)]
    unfold monthlyRows at h ⊢
    rw [hcache, hstamp]
    exact h

theorem refreshMonths_current {currentMonth m : Nat} (hover : m < currentMonth) {ms : List Nat} (hm : m ∈ ms)
    {disk : Disk} (hdays : monthDays disk m ≠ []) :
    (monthlyRows (ms.foldl (refreshMonth currentMonth) disk) m).isSome := by
  have hkeeps : ∀ (ms : List Nat) (disk : Disk), (monthlyRows disk m).isSome →
      (monthlyRows (ms.foldl (refreshMonth currentMonth) disk) m).isSome := by
    intro ms
    induction ms with
    | nil => exact fun _ h => h
    | cons m' ms ih => exact fun disk h => ih _ (refreshMonth_keeps h)
  induction ms generalizing disk with
  | nil => cases hm
  | cons m' ms ih =>
    rcases List.mem_cons.mp hm with rfl | hrest
    · exact hkeeps ms _ (refreshMonth_current hover hdays)
    · refine ih hrest ?_
      have hfiles := refreshMonth_files currentMonth disk m'
      unfold monthDays at hdays ⊢
      rw [hfiles.2]
      exact hdays

theorem refresh_sameFiles {step : Disk → Nat → Disk} (h : ∀ disk i, SameFiles disk (step disk i))
    (is : List Nat) (disk : Disk) : SameFiles disk (is.foldl step disk) := by
  induction is generalizing disk with
  | nil => exact ⟨rfl, rfl⟩
  | cons i is ih =>
    have hhead := h disk i
    have hrest := ih (step disk i)
    exact ⟨hrest.1.trans hhead.1, hrest.2.trans hhead.2⟩

/-- After a refresh every month that is over and has rollups is served from
its cache. -/
theorem refresh_current {disk : Disk} {today currentMonth m : Nat} (hover : m < currentMonth)
    (hdays : monthDays disk m ≠ []) : (monthlyRows (refresh disk today currentMonth) m).isSome := by
  unfold refresh
  dsimp only
  have hfirst := refresh_sameFiles (refreshDay_files today) disk.rollup.days disk
  have hsecond := refresh_sameFiles (backfillDay_files today disk.rollup.days)
    (disk.rollup.days.foldl (refreshDay today) disk).usage.days
    (disk.rollup.days.foldl (refreshDay today) disk)
  refine refreshMonths_current hover ?_ ?_
  · obtain ⟨d, hd⟩ := List.exists_mem_of_ne_nil _ hdays
    obtain ⟨hin, hmonth⟩ := List.mem_filter.mp hd
    exact List.mem_dedup.mpr (List.mem_map.mpr ⟨d, hin, of_decide_eq_true hmonth⟩)
  · unfold monthDays at hdays ⊢
    rw [hsecond.2, hfirst.2]
    exact hdays

/-! ## Two months -/

/-- Rollups of the tenth, and records of it and, from before there were
rollups, of the eleventh. -/
def oldRecords (old : List UsageRecord) : Disk :=
  { usage := .write (.write .empty "old" 0 (fun r => dayOf r.ts) old) "node" 0
      (fun r => dayOf r.ts) [request (10 * dayMs)]
    rollup := .write .empty "node" 0 (fun row => dayOf row.1.hourMs) (rollUp [request (10 * dayMs)])
    dayCache := .empty
    monthCache := .empty }

/-- The directory, refreshed a month later. -/
theorem reach_oldRecords (old : List UsageRecord) :
    Reach maintained free (refresh (oldRecords old) 40 (month 40)) := by
  have hstart : Uncached (oldRecords old) := ⟨rfl, rfl⟩
  have hstep : maintained.step (oldRecords old) (.refresh 40 (month 40))
      (refresh (oldRecords old) 40 (month 40)) := rfl
  exact .step (.start hstart) trivial hstep

theorem month_complete_whole : ∃ disk rows, Reach maintained free disk ∧
    monthlyRows disk (month 10) = some rows ∧ rows = dailyFold disk (allDays disk (month 10)) := by
  have hread := @refresh_current (oldRecords []) 40 (month 40) (month 10) (by decide) (by decide)
  refine ⟨_, _, reach_oldRecords [], (Option.some_get hread).symm, ?_⟩
  exact (month_complete (reach_oldRecords []) (Option.some_get hread).symm (by decide)).mpr (by decide)

/-- The records of the eleventh are in no rollup, and not in the month. -/
theorem month_omits_day : ¬ ∀ disk m rows, Reach maintained free disk → monthlyRows disk m = some rows →
    rows = dailyFold disk (allDays disk m) := by
  intro h
  have hread := @refresh_current (oldRecords [request (11 * dayMs)]) 40 (month 40) (month 10) (by decide)
    (by decide)
  have hcaches := cachesOf_of_reach (reach_oldRecords [request (11 * dayMs)])
  have hall := h _ (month 10) _ (reach_oldRecords _) (Option.some_get hread).symm
  rw [monthlyRows_eq hcaches (Option.some_get hread).symm] at hall
  exact absurd (leftOut_of_complete hcaches hall (by decide)) (by decide)

end RapidRouter.Usage.Rollup
