import RapidRouter.Usage.Rollup

/-!
# What the partitions and caches hold

The view of the data directory its readers need. `HoldsLedger`: each day's
files are the tally of that day's retained records. `CachesHold`: a cache that
reads as current is the tally of what it was built from. Flushing a batch,
pruning and refreshing keep both, so that a day (`hourlyRows_same`) and a month
(`monthlyRows_same`) are read back right from whichever tier has them.

What keeps the caches right is not the hash of a listing but that a day that
is over only changes by being pruned.
-/

namespace RapidRouter.Usage.Rollup

open Civil Tally

/-- A record's row at daily resolution. -/
def dailyRow (r : UsageRecord) : RollupRow := ((ofRecord r).1.daily, (ofRecord r).2)

/-- The rows of one day's records. -/
def dayRows (ledger : List UsageRecord) (day : Nat) : List RollupRow :=
  (ledger.filter fun r => dayOf r.ts = day).map ofRecord

def monthRows (ledger : List UsageRecord) (m : Nat) : List RollupRow :=
  (ledger.filter fun r => month (dayOf r.ts) = m).map dailyRow

/-- The partitions are the tally of the retained records. -/
structure HoldsLedger (disk : Disk) (ledger : List UsageRecord) : Prop where
  rows : ∀ day, Same (disk.rollup.lines day) (dayRows ledger day)
  dirs : ∀ r ∈ ledger, (disk.rollup.get? (dayOf r.ts)).isSome
  usage : ∀ day, (disk.usage.get? day).isSome → (disk.rollup.get? day).isSome

/-- The caches are of days before `today`, and one that reads as current is the
tally of what it was built from. A day that is over only changes by being
pruned: a cache of it cannot be stale, and one of its month is as long as the
days that are left. -/
structure CachesHold (disk : Disk) (ledger : List UsageRecord) (today : Nat) : Prop where
  day : ∀ day cache, disk.dayCache.get? day = some cache → day < today ∧
    ((disk.rollup.get? day).isSome → Same cache.rows (dayRows ledger day))
  month : ∀ m cache, disk.monthCache.get? m = some cache → m < month today ∧
    ∃ stamps, cache.stamp = .month stamps ∧ (monthDays disk m).length ≤ stamps.length ∧
      ((monthDays disk m).length = stamps.length → Same cache.rows (monthRows ledger m))

theorem CachesHold.mono {disk : Disk} {ledger : List UsageRecord} {today today' : Nat}
    (h : CachesHold disk ledger today) (hle : today ≤ today') : CachesHold disk ledger today' := by
  refine ⟨fun day cache hget => ?_, fun m cache hget => ?_⟩
  · obtain ⟨hclosed, hrows⟩ := h.day day cache hget
    exact ⟨by omega, hrows⟩
  · obtain ⟨hclosed, hrows⟩ := h.month m cache hget
    have hmonth := month_mono hle
    exact ⟨by omega, hrows⟩

theorem readIfCurrent_some {cache : Option Cache} {want : Option Stamp} {rows : List RollupRow}
    (h : readIfCurrent cache want = some rows) :
    ∃ c, cache = some c ∧ want = some c.stamp ∧ c.rows = rows := by
  unfold readIfCurrent at h
  split at h
  · next c w =>
    split at h
    · next heq => exact ⟨c, rfl, by rw [heq], Option.some.inj h⟩
    · cases h
  · cases h

theorem fingerprint_isSome {α : Type} (dir : Partitions α) (day : Nat) :
    (fingerprint dir day).isSome = (dir.get? day).isSome := Option.isSome_map

/-- A day is read back, whether from its cache or from its files. -/
theorem hourlyRows_same {disk : Disk} {ledger : List UsageRecord} {today : Nat}
    (h : HoldsLedger disk ledger) (hc : CachesHold disk ledger today) (day : Nat) :
    Same (hourlyRows disk day) (dayRows ledger day) := by
  unfold hourlyRows
  cases hstamp : fingerprint disk.rollup day with
  | some stamp =>
    have hdir : (disk.rollup.get? day).isSome = true := by
      rw [← fingerprint_isSome, hstamp]
      rfl
    dsimp only
    split
    · next rows hread =>
      obtain ⟨cache, hcache, -, rfl⟩ := readIfCurrent_some hread
      exact (hc.day day cache hcache).2 hdir
    · exact h.rows day
  | none =>
    have hdir : (disk.rollup.get? day).isSome = false := by
      rw [← fingerprint_isSome, hstamp]
      rfl
    -- Records are pruned before their rollups, so the day has none either.
    have husage : fingerprint disk.usage day = none := by
      rw [← Option.not_isSome_iff_eq_none, fingerprint_isSome]
      intro hsome
      exact absurd (h.usage day hsome) (by rw [hdir]; exact Bool.false_ne_true)
    have hnone : dayRows ledger day = [] := by
      unfold dayRows
      rw [List.map_eq_nil_iff, List.filter_eq_nil_iff]
      intro r hr hday
      have hthere := h.dirs r hr
      rw [of_decide_eq_true hday, hdir] at hthere
      cases hthere
    rw [husage, hnone]
    dsimp only [Option.map_none]
    unfold readIfCurrent
    split
    · next hread =>
      split at hread
      · next heq => cases heq
      · cases hread
    · exact Same.refl []

theorem length_of_mapM {α β : Type} {f : α → Option β} {l : List α} {r : List β}
    (h : l.mapM f = some r) : r.length = l.length := by
  induction l generalizing r with
  | nil =>
    obtain rfl := Option.some.inj h
    rfl
  | cons a l ih =>
    rw [List.mapM_cons] at h
    obtain ⟨b, -, h⟩ := Option.bind_eq_some_iff.mp h
    obtain ⟨bs, hbs, h⟩ := Option.bind_eq_some_iff.mp h
    obtain rfl := Option.some.inj h
    rw [List.length_cons, List.length_cons, ih hbs]

theorem length_of_monthFingerprint {disk : Disk} {m : Nat} {stamps : List Fingerprint}
    (h : monthFingerprint disk m = some stamps) : stamps.length = (monthDays disk m).length := by
  unfold monthFingerprint at h
  split at h
  · cases h
  · exact length_of_mapM h

/-- A month that is read from its cache has all its retained records in it. -/
theorem monthlyRows_same {disk : Disk} {ledger : List UsageRecord} {today : Nat}
    (hc : CachesHold disk ledger today) {m : Nat} {rows : List RollupRow}
    (hread : monthlyRows disk m = some rows) : Same rows (monthRows ledger m) := by
  obtain ⟨cache, hcache, hwant, rfl⟩ := readIfCurrent_some hread
  obtain ⟨stamps, hstamps, hstamp⟩ := Option.map_eq_some_iff.mp hwant
  obtain ⟨-, stamps', hkind, -, hrows⟩ := hc.month m cache hcache
  rw [hkind] at hstamp
  obtain rfl := Stamp.month.inj hstamp
  exact hrows (length_of_monthFingerprint hstamps).symm

/-! ## Refreshing the caches -/

theorem monthDays_nodup (disk : Disk) (m : Nat) : (monthDays disk m).Nodup :=
  (Partitions.nodup_days disk.rollup).filter _

/-- A month is its days. -/
theorem monthDays_same {disk : Disk} {ledger : List UsageRecord} (h : HoldsLedger disk ledger) (m : Nat) :
    Same ((monthDays disk m).flatMap fun day => (dayRows ledger day).map fun row => (row.1.daily, row.2))
      (monthRows ledger m) := by
  have hrows : ∀ day ∈ monthDays disk m,
      (dayRows ledger day).map (fun row => (row.1.daily, row.2)) =
        ((ledger.filter fun r => month (dayOf r.ts) = m).filter fun r => dayOf r.ts = day).map dailyRow := by
    intro day hday
    have hmonth : month day = m := of_decide_eq_true (List.mem_filter.mp hday).2
    unfold dayRows
    rw [List.map_map, List.filter_filter]
    congr 1
    refine List.filter_congr fun r _ => ?_
    by_cases hr : dayOf r.ts = day
    · simp [hr, hmonth]
    · simp [hr]
  rw [List.flatMap_congr hrows]
  refine Same.of_groups dailyRow (fun r => dayOf r.ts) (monthDays_nodup disk m) fun r hr => ?_
  obtain ⟨hin, hmonth⟩ := List.mem_filter.mp hr
  exact List.mem_filter.mpr ⟨Partitions.mem_days.mpr (h.dirs r hin), hmonth⟩

theorem toDaily_same {rows rows' : List RollupRow} (h : Same rows rows') :
    Same (toDaily rows) (rows'.map fun row => (row.1.daily, row.2)) :=
  (same_fold _).trans (h.mapKey RowKey.daily)

/-- A new cache of a day that is over. -/
theorem CachesHold.insertDay {disk : Disk} {ledger : List UsageRecord} {today day : Nat}
    (hc : CachesHold disk ledger today) (hday : day < today) {cache : Cache}
    (hrows : (disk.rollup.get? day).isSome → Same cache.rows (dayRows ledger day)) :
    CachesHold { disk with dayCache := disk.dayCache.insert day cache } ledger today := by
  refine ⟨fun d c hget => ?_, hc.month⟩
  rw [OrdMap.get?_insert] at hget
  split at hget
  · next heq =>
    obtain rfl := Option.some.inj hget
    subst heq
    exact ⟨hday, hrows⟩
  · exact hc.day d c hget

theorem CachesHold.refreshDay {disk : Disk} {ledger : List UsageRecord} {today : Nat}
    (h : HoldsLedger disk ledger) (hc : CachesHold disk ledger today) (day : Nat) :
    CachesHold (refreshDay today disk day) ledger today := by
  unfold Rollup.refreshDay
  split
  · exact hc
  · split
    · exact hc
    · split
      · exact hc
      · exact hc.insertDay (by omega) fun _ => (same_fold _).trans (h.rows day)

theorem CachesHold.backfillDay {disk : Disk} {ledger : List UsageRecord} {today : Nat}
    {haveRollups : List Nat} (hhave : ∀ day, day ∈ haveRollups ↔ (disk.rollup.get? day).isSome)
    (hc : CachesHold disk ledger today) (day : Nat) :
    CachesHold (backfillDay today haveRollups disk day) ledger today := by
  unfold Rollup.backfillDay
  split
  · exact hc
  · next hskip =>
    split
    · exact hc
    · split
      · exact hc
      · refine hc.insertDay (by omega) fun hdir => ?_
        exact absurd (Or.inr ((hhave day).mpr hdir)) hskip

theorem CachesHold.refreshMonth {disk : Disk} {ledger : List UsageRecord} {today : Nat}
    (h : HoldsLedger disk ledger) (hc : CachesHold disk ledger today) (m : Nat) :
    CachesHold (refreshMonth (Civil.month today) disk m) ledger today := by
  unfold Rollup.refreshMonth
  split
  · exact hc
  · split
    · exact hc
    · next stamps hstamps =>
      split
      · exact hc
      · have hrows : Same (fold ((monthDays disk m).flatMap fun day => toDaily (hourlyRows disk day)))
            (monthRows ledger m) := by
          have hdays : Same ((monthDays disk m).flatMap fun day => toDaily (hourlyRows disk day))
              ((monthDays disk m).flatMap fun day =>
                (dayRows ledger day).map fun row => (row.1.daily, row.2)) :=
            Same.flatMap fun day _ => toDaily_same (hourlyRows_same h hc day)
          exact ((same_fold _).trans hdays).trans (monthDays_same h m)
        have hlength := length_of_monthFingerprint hstamps
        refine ⟨hc.day, fun m' cache hget => ?_⟩
        change (disk.monthCache.insert m _).get? m' = some cache at hget
        rw [OrdMap.get?_insert] at hget
        split at hget
        · next heq =>
          obtain rfl := Option.some.inj hget
          subst heq
          exact ⟨by omega, stamps, rfl, Nat.le_of_eq hlength.symm, fun _ => hrows⟩
        · exact hc.month m' cache hget

/-- Refreshing writes caches only. -/
def SameFiles (disk disk' : Disk) : Prop := disk'.usage = disk.usage ∧ disk'.rollup = disk.rollup

theorem refreshDay_files (today : Nat) (disk : Disk) (day : Nat) :
    SameFiles disk (refreshDay today disk day) := by
  unfold refreshDay
  split
  · exact ⟨rfl, rfl⟩
  · split
    · exact ⟨rfl, rfl⟩
    · split <;> exact ⟨rfl, rfl⟩

theorem backfillDay_files (today : Nat) (haveRollups : List Nat) (disk : Disk) (day : Nat) :
    SameFiles disk (backfillDay today haveRollups disk day) := by
  unfold backfillDay
  split
  · exact ⟨rfl, rfl⟩
  · split
    · exact ⟨rfl, rfl⟩
    · split <;> exact ⟨rfl, rfl⟩

theorem refreshMonth_files (currentMonth : Nat) (disk : Disk) (m : Nat) :
    SameFiles disk (refreshMonth currentMonth disk m) := by
  unfold refreshMonth
  split
  · exact ⟨rfl, rfl⟩
  · split
    · exact ⟨rfl, rfl⟩
    · split <;> exact ⟨rfl, rfl⟩

theorem HoldsLedger.of_sameFiles {disk disk' : Disk} {ledger : List UsageRecord}
    (h : HoldsLedger disk ledger) (hfiles : SameFiles disk disk') : HoldsLedger disk' ledger := by
  obtain ⟨husage, hrollup⟩ := hfiles
  refine ⟨?_, ?_, ?_⟩
  · rw [hrollup]
    exact h.rows
  · rw [hrollup]
    exact h.dirs
  · rw [husage, hrollup]
    exact h.usage

/-- A pass over a listing that changes caches only, and each of them rightly. -/
theorem refresh_pass {step : Disk → Nat → Disk} {ledger : List UsageRecord} {today : Nat} {disk₀ : Disk}
    (hfiles : ∀ disk i, SameFiles disk (step disk i))
    (hstep : ∀ disk i, SameFiles disk₀ disk → HoldsLedger disk ledger → CachesHold disk ledger today →
      CachesHold (step disk i) ledger today)
    (is : List Nat) {disk : Disk} (h₀ : SameFiles disk₀ disk) (h : HoldsLedger disk ledger)
    (hc : CachesHold disk ledger today) :
    SameFiles disk₀ (is.foldl step disk) ∧ CachesHold (is.foldl step disk) ledger today := by
  induction is generalizing disk with
  | nil => exact ⟨h₀, hc⟩
  | cons i is ih =>
    have hnext := hfiles disk i
    exact ih ⟨hnext.1.trans h₀.1, hnext.2.trans h₀.2⟩ (h.of_sameFiles hnext) (hstep disk i h₀ h hc)

theorem refresh_holds {disk : Disk} {ledger : List UsageRecord} {today : Nat}
    (h : HoldsLedger disk ledger) (hc : CachesHold disk ledger today) :
    SameFiles disk (refresh disk today (month today)) ∧
      CachesHold (refresh disk today (month today)) ledger today := by
  unfold refresh
  dsimp only
  obtain ⟨hfiles₁, hc₁⟩ := refresh_pass (refreshDay_files today)
    (fun d day _ hd hcd => hcd.refreshDay hd day) disk.rollup.days ⟨rfl, rfl⟩ h hc
  generalize disk.rollup.days.foldl (refreshDay today) disk = disk₁ at hfiles₁ hc₁
  obtain ⟨hfiles₂, hc₂⟩ := refresh_pass (backfillDay_files today disk.rollup.days)
    (fun d day hd _ hcd => hcd.backfillDay (fun day => by
      rw [hd.2]
      exact Partitions.mem_days) day) disk₁.usage.days hfiles₁ (h.of_sameFiles hfiles₁) hc₁
  generalize disk₁.usage.days.foldl (backfillDay today disk.rollup.days) disk₁ = disk₂ at hfiles₂ hc₂
  exact refresh_pass (refreshMonth_files (month today))
    (fun d m _ hd hcd => hcd.refreshMonth hd m) _ hfiles₂ (h.of_sameFiles hfiles₂) hc₂

/-! ## Pruning -/

theorem dayRows_filter {ledger : List UsageRecord} {cutoff day : Nat} (h : cutoff ≤ day) :
    dayRows (ledger.filter fun r => cutoff ≤ dayOf r.ts) day = dayRows ledger day := by
  unfold dayRows
  rw [List.filter_filter]
  congr 1
  refine List.filter_congr fun r _ => ?_
  by_cases hr : dayOf r.ts = day
  · simp [hr, h]
  · simp [hr]

theorem rollupDays_ge {retentionDays : Nat} (h : retentionDays ≤ 3650) :
    rollupDays retentionDays = retentionDays * 4 := by
  unfold rollupDays
  omega

/-- The days of a month that pruning leaves. -/
theorem monthDays_prune (disk : Disk) (retentionDays now m : Nat) :
    monthDays (prune disk retentionDays now) m = (monthDays disk m).filter fun day =>
      dayOf (now - rollupDays retentionDays * dayMs) ≤ day := by
  unfold monthDays prune
  dsimp only
  rw [Partitions.days_prune, List.filter_comm]

theorem prune_holds {disk : Disk} {ledger : List UsageRecord} {today retentionDays now : Nat}
    (hretention : retentionDays ≤ 3650) (h : HoldsLedger disk ledger)
    (hc : CachesHold disk ledger today) :
    HoldsLedger (prune disk retentionDays now)
        (ledger.filter fun r => dayOf (now - rollupDays retentionDays * dayMs) ≤ dayOf r.ts) ∧
      CachesHold (prune disk retentionDays now)
        (ledger.filter fun r => dayOf (now - rollupDays retentionDays * dayMs) ≤ dayOf r.ts) today := by
  have hroll : ∀ day, (prune disk retentionDays now).rollup.get? day =
      if dayOf (now - rollupDays retentionDays * dayMs) ≤ day then disk.rollup.get? day else none :=
    disk.rollup.get?_prune _ now
  have hbefore : dayOf (now - rollupDays retentionDays * dayMs) ≤ dayOf (now - retentionDays * dayMs) := by
    refine dayOf_mono ?_
    rw [rollupDays_ge hretention]
    have hmul : retentionDays * dayMs ≤ retentionDays * 4 * dayMs := Nat.mul_le_mul_right _ (by omega)
    omega
  generalize hcutoff : dayOf (now - rollupDays retentionDays * dayMs) = cutoff at hroll hbefore ⊢
  refine ⟨⟨?_, ?_, ?_⟩, ⟨?_, ?_⟩⟩
  · intro day
    unfold Partitions.lines
    rw [hroll]
    split
    · next hle =>
      rw [dayRows_filter hle]
      exact h.rows day
    · next hlt =>
      have hnil : dayRows (ledger.filter fun r => cutoff ≤ dayOf r.ts) day = [] := by
        unfold dayRows
        rw [List.map_eq_nil_iff, List.filter_eq_nil_iff]
        intro r hr hday
        have hle := of_decide_eq_true (List.mem_filter.mp hr).2
        rw [of_decide_eq_true hday] at hle
        exact hlt hle
      rw [hnil]
      exact Same.refl []
  · intro r hr
    obtain ⟨hin, hle⟩ := List.mem_filter.mp hr
    rw [hroll, if_pos (of_decide_eq_true hle)]
    exact h.dirs r hin
  · intro day husage
    have hu : (disk.usage.prune retentionDays now).get? day = _ := disk.usage.get?_prune _ now day
    change ((disk.usage.prune retentionDays now).get? day).isSome = true at husage
    rw [hu] at husage
    split at husage
    · next hle =>
      rw [hroll, if_pos (Nat.le_trans hbefore hle)]
      exact h.usage day husage
    · cases husage
  · intro day cache hget
    have hd : (disk.dayCache.retain fun day _ => cutoff ≤ day).get? day = some cache := by
      rw [← hcutoff]
      exact hget
    rw [OrdMap.get?_retain] at hd
    obtain ⟨hold, hle⟩ := Option.filter_eq_some_iff.mp hd
    obtain ⟨hclosed, hrows⟩ := hc.day day cache hold
    refine ⟨hclosed, fun hdir => ?_⟩
    have hle' := of_decide_eq_true hle
    rw [hroll, if_pos hle'] at hdir
    rw [dayRows_filter hle']
    exact hrows hdir
  · intro m cache hget
    have hm := OrdMap.get?_retain disk.monthCache (fun m _ => month cutoff ≤ m) m
    have hget' : (disk.monthCache.retain fun m _ => month cutoff ≤ m).get? m = some cache := by
      rw [← hcutoff]
      exact hget
    rw [hm] at hget'
    obtain ⟨hold, -⟩ := Option.filter_eq_some_iff.mp hget'
    obtain ⟨hclosed, stamps, hkind, hlength, hrows⟩ := hc.month m cache hold
    have hdays := monthDays_prune disk retentionDays now m
    rw [hcutoff] at hdays
    refine ⟨hclosed, stamps, hkind, ?_, fun hall => ?_⟩
    · rw [hdays]
      exact Nat.le_trans (List.length_filter_le _ _) hlength
    · -- As many days as then: none of the month's was pruned.
      have hless := List.length_filter_le (fun day => decide (cutoff ≤ day)) (monthDays disk m)
      rw [hdays] at hall
      have hkept : ∀ day ∈ monthDays disk m, decide (cutoff ≤ day) = true :=
        List.length_filter_eq_length_iff.mp (by omega)
      have hsame : monthRows (ledger.filter fun r => cutoff ≤ dayOf r.ts) m = monthRows ledger m := by
        unfold monthRows
        rw [List.filter_filter]
        congr 1
        refine List.filter_congr fun r hr => ?_
        by_cases hmonth : month (dayOf r.ts) = m
        · have hday : dayOf r.ts ∈ monthDays disk m :=
            List.mem_filter.mpr ⟨Partitions.mem_days.mpr (h.dirs r hr), decide_eq_true hmonth⟩
          rw [hkept _ hday, Bool.and_true]
        · simp [hmonth]
      rw [hsame]
      exact hrows (by omega)

/-! ## Flushing -/

theorem dayOf_hour (ts : Nat) : dayOf (ts - ts % hourMs) = dayOf ts := by
  unfold dayOf dayMs hourMs
  omega

theorem select_ofRecord (p : UsageRecord → Bool) (q : RowKey → Bool) (h : ∀ r, q (ofRecord r).1 = p r)
    (records : List UsageRecord) :
    select q (records.map ofRecord) = (records.filter p).map ofRecord := by
  unfold select
  rw [List.filter_map]
  congr 1
  exact List.filter_congr fun r _ => h r

/-- The part of a batch's rows that goes to one day. -/
theorem rollUp_day (batch : List UsageRecord) (day : Nat) :
    Same ((rollUp batch).filter fun row => dayOf row.1.hourMs = day) (dayRows batch day) := by
  have hselect : Same (select (fun k => decide (dayOf k.hourMs = day)) (rollUp batch))
      (select (fun k => decide (dayOf k.hourMs = day)) (batch.map ofRecord)) :=
    (same_fold _).select _
  rw [select_ofRecord (fun r => decide (dayOf r.ts = day)) _ fun r => by
    rw [← dayOf_hour r.ts]
    rfl] at hselect
  exact hselect

theorem exists_rollUp_day (batch : List UsageRecord) (day : Nat) :
    (∃ row ∈ rollUp batch, dayOf row.1.hourMs = day) ↔ ∃ r ∈ batch, dayOf r.ts = day := by
  constructor
  · rintro ⟨row, hrow, rfl⟩
    have hkey := mem_keys_fold.mp (List.mem_map_of_mem (f := Prod.fst) hrow)
    obtain ⟨made, hmade, hkeys⟩ := List.mem_map.mp hkey
    obtain ⟨r, hr, rfl⟩ := List.mem_map.mp hmade
    exact ⟨r, hr, by rw [← hkeys]; exact (dayOf_hour r.ts).symm⟩
  · rintro ⟨r, hr, rfl⟩
    have hkey : (ofRecord r).1 ∈ (rollUp batch).map Prod.fst :=
      mem_keys_fold.mpr (List.mem_map_of_mem (List.mem_map_of_mem hr))
    obtain ⟨row, hrow, hkeys⟩ := List.mem_map.mp hkey
    exact ⟨row, hrow, by rw [hkeys]; exact dayOf_hour r.ts⟩

theorem dayRows_append (a b : List UsageRecord) (day : Nat) :
    dayRows (a ++ b) day = dayRows a day ++ dayRows b day := by
  unfold dayRows
  rw [List.filter_append, List.map_append]

theorem flush_holdsLedger {disk : Disk} {ledger : List UsageRecord} (h : HoldsLedger disk ledger)
    (node : String) (seq : Nat) (batch : List UsageRecord) :
    HoldsLedger (flush disk node seq batch) (ledger ++ batch) := by
  refine ⟨?_, ?_, ?_⟩
  · intro day
    have hlines := disk.rollup.lines_write node seq (fun row => dayOf row.1.hourMs) (rollUp batch) day
    have hrows := (h.rows day).append (rollUp_day batch day)
    rw [← hlines, ← dayRows_append] at hrows
    exact hrows
  · intro r hr
    refine (disk.rollup.isSome_write node seq _ _ _).mpr ?_
    rcases List.mem_append.mp hr with hold | hnew
    · exact Or.inl (h.dirs r hold)
    · exact Or.inr ((exists_rollUp_day batch _).mpr ⟨r, hnew, rfl⟩)
  · intro day husage
    refine (disk.rollup.isSome_write node seq _ _ _).mpr ?_
    rcases (disk.usage.isSome_write node seq _ _ _).mp husage with hold | hnew
    · exact Or.inl (h.usage day hold)
    · exact Or.inr ((exists_rollUp_day batch _).mpr hnew)

/-- A batch of today leaves the days that are over alone. -/
theorem flush_cachesHold {disk : Disk} {ledger : List UsageRecord} {today : Nat}
    (hc : CachesHold disk ledger today) (node : String) (seq : Nat) {batch : List UsageRecord}
    (hbatch : ∀ r ∈ batch, today ≤ dayOf r.ts) :
    CachesHold (flush disk node seq batch) (ledger ++ batch) today := by
  have hdir : ∀ day, ((flush disk node seq batch).rollup.get? day).isSome ↔
      (disk.rollup.get? day).isSome ∨ ∃ r ∈ batch, dayOf r.ts = day := by
    intro day
    rw [← exists_rollUp_day]
    exact disk.rollup.isSome_write node seq (fun row => dayOf row.1.hourMs) (rollUp batch) day
  refine ⟨fun day cache hget => ?_, fun m cache hget => ?_⟩
  · obtain ⟨hclosed, hrows⟩ := hc.day day cache hget
    have hnone : dayRows batch day = [] := by
      unfold dayRows
      rw [List.map_eq_nil_iff, List.filter_eq_nil_iff]
      intro r hr hday
      have hle := hbatch r hr
      have heq : dayOf r.ts = day := of_decide_eq_true hday
      omega
    refine ⟨hclosed, fun hthere => ?_⟩
    rw [dayRows_append, hnone, List.append_nil]
    rcases (hdir day).mp hthere with hold | ⟨r, hr, heq⟩
    · exact hrows hold
    · have hle := hbatch r hr
      omega
  · obtain ⟨hclosed, stamps, hkind, hlength, hrows⟩ := hc.month m cache hget
    have hlater : ∀ r ∈ batch, month (dayOf r.ts) ≠ m := by
      intro r hr
      have hle := month_mono (hbatch r hr)
      omega
    have hdays : (monthDays (flush disk node seq batch) m).length = (monthDays disk m).length := by
      refine List.Perm.length_eq ((List.perm_ext_iff_of_nodup (monthDays_nodup _ _)
        (monthDays_nodup _ _)).mpr fun day => ?_)
      unfold monthDays
      rw [List.mem_filter, List.mem_filter, Partitions.mem_days, Partitions.mem_days, hdir,
        decide_eq_true_eq]
      constructor
      · rintro ⟨hold | ⟨r, hr, heq⟩, hmonth⟩
        · exact ⟨hold, hmonth⟩
        · exact absurd (heq ▸ hmonth) (hlater r hr)
      · rintro ⟨hold, hmonth⟩
        exact ⟨Or.inl hold, hmonth⟩
    have hmonthRows : monthRows (ledger ++ batch) m = monthRows ledger m := by
      have hnil : (batch.filter fun r => month (dayOf r.ts) = m) = [] :=
        List.filter_eq_nil_iff.mpr fun r hr hmonth => hlater r hr (of_decide_eq_true hmonth)
      unfold monthRows
      rw [List.filter_append, hnil, List.append_nil]
    refine ⟨hclosed, stamps, hkind, ?_, ?_⟩
    · rw [hdays]
      exact hlength
    · rw [hdays, hmonthRows]
      exact hrows

end RapidRouter.Usage.Rollup
