import RapidRouter.Core.Rfc3339
import RapidRouter.Usage.Budget
import RapidRouter.Usage.Window

/-!
# One calendar

Four modules turn a day number into a date: virtual keys (`vkey.rs`), credentials
(`credential.rs`), usage (`usage.rs`) and the signing of requests (`sigv4.rs`). They take
eras of 400 years by truncating division or by Euclid's; what follows is the same. All of
them undo `days_from_civil`, and so the days and the months of usage tile time.
-/

namespace RapidRouter.Usage.Calendar

open Civil Gregorian Core Core.Rfc3339

/-! ## Four copies -/

/-- What each of the copies makes of an era and a day of it. -/
def civilOfEra (era doe : Int) : Int × Nat × Nat :=
  let yoe := (doe - doe.tdiv 1460 + doe.tdiv 36524 - doe.tdiv 146096).tdiv 365
  let y := yoe + era * 400
  let doy := doe - (365 * yoe + yoe.tdiv 4 - yoe.tdiv 100)
  let mp := (5 * doy + 2).tdiv 153
  let d := (doy - (153 * mp + 2).tdiv 5 + 1).toNat
  let m := (if mp < 10 then mp + 3 else mp - 9).toNat
  (if m ≤ 2 then y + 1 else y, m, d)

/-- The era by truncating division, as it is written twice. -/
def civilTruncating (days : Int) : Int × Nat × Nat :=
  let z := days + 719468
  let era := (if 0 ≤ z then z else z - 146096).tdiv 146097
  let doe := z - era * 146097
  civilOfEra era doe

/-- The era by Euclidean division, as it is written twice. -/
def civilEuclidean (days : Int) : Int × Nat × Nat :=
  let z := days + 719468
  civilOfEra (z / 146097) (z % 146097)

namespace VKey

/-- `civil_from_days` of `vkey.rs`. -/
def civilFromDays (z : Int) : Int × Nat × Nat := civilTruncating z

end VKey

namespace Credential

/-- `civil_from_days` of `credential.rs`. -/
def civilFromDays (days : Int) : Int × Nat × Nat := civilEuclidean days

end Credential

/-- `civil` of `usage.rs`. -/
def civil (z : Int) : Int × Nat × Nat := civilTruncating z

namespace Sigv4

/-- `civil_from_days` of `sigv4.rs`. -/
def civilFromDays (z : Int) : Int × Nat × Nat := civilEuclidean z

end Sigv4

/-! ## They agree -/

theorem civilTruncating_eq (days : Int) : civilTruncating days = civilEuclidean days := by
  unfold civilTruncating civilEuclidean
  dsimp only
  rw [show (146096 : Int) = 146097 - 1 from rfl, shifted_tdiv (by decide), Int.emod_def,
    Int.mul_comm]

/-- In an era the copies are the calendar's own functions. -/
theorem civilOfEra_eq (era : Int) {doe : Nat} (h : doe < 146097) :
    civilOfEra era doe =
      (let m := if monthFromMarch doe < 10 then monthFromMarch doe + 3 else monthFromMarch doe - 9
       (if m ≤ 2 then (yearOfEra doe + era * 400 + 1 : Int) else yearOfEra doe + era * 400,
        m, eraDay doe)) := by
  have hyoe : ((doe : Int) - (doe : Int).tdiv 1460 + (doe : Int).tdiv 36524 -
      (doe : Int).tdiv 146096).tdiv 365 = (yearOfEra doe : Nat) := by
    have hcorrected : (doe : Int) - (doe : Int).tdiv 1460 + (doe : Int).tdiv 36524 -
        (doe : Int).tdiv 146096 = (corrected doe : Nat) := by
      rw [Int.natCast_tdiv_eq_ediv, Int.natCast_tdiv_eq_ediv, Int.natCast_tdiv_eq_ediv]
      unfold corrected
      omega
    rw [hcorrected, Int.natCast_tdiv_eq_ediv]
    rfl
  obtain ⟨hstart, -⟩ := yearStart_bounds h
  have hdoy : (doe : Int) - (365 * (yearOfEra doe : Int) + (yearOfEra doe : Int).tdiv 4 -
      (yearOfEra doe : Int).tdiv 100) = (dayOfYear doe : Nat) := by
    rw [Int.natCast_tdiv_eq_ediv, Int.natCast_tdiv_eq_ediv]
    unfold dayOfYear
    unfold yearStart at hstart ⊢
    omega
  have hmp : (5 * (dayOfYear doe : Int) + 2).tdiv 153 = (monthFromMarch doe : Nat) := by
    rw [show (5 * (dayOfYear doe : Int) + 2) = ((5 * dayOfYear doe + 2 : Nat) : Int) by omega,
      Int.natCast_tdiv_eq_ediv]
    rfl
  have hfirst : (153 * (monthFromMarch doe : Int) + 2).tdiv 5 =
      ((153 * monthFromMarch doe + 2) / 5 : Nat) := by
    rw [show (153 * (monthFromMarch doe : Int) + 2) = ((153 * monthFromMarch doe + 2 : Nat) : Int)
      by omega, Int.natCast_tdiv_eq_ediv]
    rfl
  have hmonth : (if (monthFromMarch doe : Int) < 10 then (monthFromMarch doe : Int) + 3
      else monthFromMarch doe - 9).toNat =
      if monthFromMarch doe < 10 then monthFromMarch doe + 3 else monthFromMarch doe - 9 := by
    split <;> split <;> omega
  have hday : ((dayOfYear doe : Int) - ((153 * monthFromMarch doe + 2) / 5 : Nat) + 1).toNat =
      eraDay doe := by
    unfold eraDay monthFromMarch
    omega
  unfold civilOfEra
  dsimp only
  rw [hyoe, hdoy, hmp, hfirst, hmonth, hday]

/-! ## They undo `days_from_civil` -/

/-- A year of an era starts after the days of those before it. -/
theorem marchDays_era (era : Int) {yoe : Nat} (h : yoe ≤ 399) :
    marchDays (yoe + era * 400) = era * 146097 + yearStart yoe := by
  unfold marchDays yearStart
  omega

/-- A year of an era that has 366 days before the next is a leap year. -/
theorem leap_of_long {y : Nat} (h : yearStart y + 366 ≤ yearStart (y + 1)) :
    (y + 1) % 4 = 0 ∧ (y + 1) % 100 ≠ 0 := by
  unfold yearStart at h
  constructor <;> omega

/-- The last month of an era's year is as long as the February it is. -/
theorem eraDay_february {doe : Nat} (h : doe < 146097) (hlast : monthFromMarch doe = 11)
    (era : Int) : eraDay doe ≤ monthLength (yearOfEra doe + era * 400 + 1) 2 := by
  have hday := dayOfYear_le h
  have hera : eraDay doe = dayOfYear doe - 337 + 1 := by
    unfold eraDay
    rw [hlast]
  show eraDay doe ≤ if isLeap (yearOfEra doe + era * 400 + 1) then 29 else 28
  by_cases hleap : isLeap (yearOfEra doe + era * 400 + 1)
  · rw [if_pos hleap]
    omega
  · rw [if_neg hleap]
    -- A 29th of February is the 366th day of a year, so the next year starts later.
    by_contra hlong
    have h365 : dayOfYear doe = 365 := by omega
    unfold isLeap at hleap
    rcases lt_yearStart_succ h with hend | hend
    · obtain ⟨hstart, -⟩ := yearStart_bounds h
      unfold dayOfYear at h365
      obtain ⟨hfour, hhundred⟩ := leap_of_long (show
        yearStart (yearOfEra doe) + 366 ≤ yearStart (yearOfEra doe + 1) by omega)
      exact hleap ⟨by omega, Or.inl (by omega)⟩
    · subst hend
      have hyear : yearOfEra 146096 = 399 := by decide
      rw [hyear] at hleap
      omega

/-- A day of an era is a date, and the date has the day's number. -/
theorem civilOfEra_date (era : Int) {doe : Nat} (h : doe < 146097) :
    IsDate (civilOfEra era doe).1 (civilOfEra era doe).2.1 (civilOfEra era doe).2.2 ∧
      dayNumber (civilOfEra era doe).1 (civilOfEra era doe).2.1 (civilOfEra era doe).2.2 =
        era * 146097 + doe - 719468 := by
  rw [civilOfEra_eq era h]
  dsimp only
  have hmonth := monthFromMarch_le h
  have hyear := yearOfEra_le h
  obtain ⟨hstart, -⟩ := yearStart_bounds h
  have hend := lt_yearStart_succ h
  generalize hm : (if monthFromMarch doe < 10 then monthFromMarch doe + 3
    else monthFromMarch doe - 9) = m
  generalize hy : (if m ≤ 2 then (yearOfEra doe + era * 400 + 1 : Int)
    else yearOfEra doe + era * 400) = y
  have hrange : 1 ≤ m ∧ m ≤ 12 ∧ fromMarch m = monthFromMarch doe := by
    rw [← hm]
    unfold fromMarch
    split <;> split <;> omega
  have hmarch : marchYear y m = yearOfEra doe + era * 400 := by
    rw [← hy]
    unfold marchYear
    split <;> omega
  have hday := eraDay_bounds h
  have hmarchDay : marchDay m (eraDay doe) = dayOfYear doe := by
    unfold marchDay eraDay
    rw [hrange.2.2]
    unfold monthFromMarch
    omega
  refine ⟨⟨hrange.1, hrange.2.1, hday.1, ?_⟩, ?_⟩
  · rcases monthLength_le y hrange.1 hrange.2.1 with ⟨hfebruary, _⟩ | ⟨_, hlength⟩
    · have hlast : monthFromMarch doe = 11 := by
        rw [← hrange.2.2, hfebruary]
        rfl
      have hyear : y = yearOfEra doe + era * 400 + 1 := by
        rw [← hy, if_pos (by omega)]
      rw [hfebruary]
      have hdays := eraDay_february h hlast era
      rw [← hyear] at hdays
      exact hdays
    · rw [hrange.2.2] at hlength
      unfold eraDay
      have htable : 5 * dayOfYear doe + 2 < 153 * (monthFromMarch doe + 1) := by
        unfold monthFromMarch
        omega
      omega
  · unfold dayNumber
    rw [hmarch, hmarchDay, marchDays_era era hyear]
    unfold dayOfYear
    omega

theorem civilTruncating_date (z : Int) :
    IsDate (civilTruncating z).1 (civilTruncating z).2.1 (civilTruncating z).2.2 ∧
      dayNumber (civilTruncating z).1 (civilTruncating z).2.1 (civilTruncating z).2.2 = z := by
  rw [civilTruncating_eq]
  unfold civilEuclidean
  dsimp only
  have hlow := Int.emod_nonneg (z + 719468) (show (146097 : Int) ≠ 0 by decide)
  have hhigh := Int.emod_lt_of_pos (z + 719468) (show (0 : Int) < 146097 by decide)
  obtain ⟨doe, hdoe⟩ := Int.eq_ofNat_of_zero_le hlow
  rw [hdoe]
  obtain ⟨hdate, hnumber⟩ := civilOfEra_date ((z + 719468) / 146097) (show doe < 146097 by omega)
  refine ⟨hdate, hnumber.trans ?_⟩
  have hdivision := Int.mul_ediv_add_emod (z + 719468) 146097
  omega

/-- A date is found again from its number. -/
theorem civilTruncating_daysFromCivil {y : Int} {m d : Nat} (h : IsDate y m d) :
    civilTruncating (daysFromCivil y m d) = (y, m, d) := by
  rw [daysFromCivil_eq y m h.day_pos]
  obtain ⟨hdate, hnumber⟩ := civilTruncating_date (dayNumber y m d)
  obtain ⟨hy, hm, hd⟩ := dayNumber_injective hdate h hnumber
  exact Prod.ext hy (Prod.ext hm hd)

/-! ## Dates in order -/

/-- The months of a day since 1970, counted by the date. -/
theorem month_civil (n : Nat) :
    (Civil.month n : Int) = (civil n).1 * 12 + ((civil n).2.1 - 1 : Nat) ∧
      Civil.day n = (civil n).2.2 ∧ 0 ≤ (civil n).1 := by
  have hdoe := Nat.mod_lt (n + 719468) (show 0 < 146097 by decide)
  have hcivil : civil n = civilOfEra ((n + 719468) / 146097 : Nat) ((n + 719468) % 146097 : Nat) :=
    civilTruncating_eq n
  have hmonth := monthFromMarch_le hdoe
  rw [hcivil, civilOfEra_eq _ hdoe, month_eq, day_eq]
  dsimp only
  refine ⟨?_, rfl, ?_⟩
  · split <;> split <;> omega
  · split <;> omega

/-- A later day has a later date: in its year, or its month, or its day. -/
theorem civil_lt {a b : Nat} (h : a < b) :
    (civil a).1 < (civil b).1 ∨ (civil a).1 = (civil b).1 ∧
      ((civil a).2.1 < (civil b).2.1 ∨
        (civil a).2.1 = (civil b).2.1 ∧ (civil a).2.2 < (civil b).2.2) := by
  obtain ⟨hdate, hnumber⟩ := civilTruncating_date a
  obtain ⟨hdate', hnumber'⟩ := civilTruncating_date b
  have hmono := Civil.month_mono (Nat.le_of_lt h)
  obtain ⟨ha, -, -⟩ := month_civil a
  obtain ⟨hb, -, -⟩ := month_civil b
  unfold civil at ha hb ⊢
  obtain ⟨hpos, hle, hday, -⟩ := hdate
  obtain ⟨hpos', hle', hday', -⟩ := hdate'
  rw [dayNumber_day _ _ hday] at hnumber
  rw [dayNumber_day _ _ hday'] at hnumber'
  generalize civilTruncating a = p at *
  generalize civilTruncating b = q at *
  by_cases hyear : p.1 = q.1
  · by_cases hmonth : p.2.1 = q.2.1
    · -- In one month the days are counted.
      rw [hyear, hmonth] at hnumber
      exact Or.inr ⟨hyear, Or.inr ⟨hmonth, by omega⟩⟩
    · exact Or.inr ⟨hyear, Or.inl (by omega)⟩
  · exact Or.inl (by omega)

/-! ## Days as they are written -/

/-- The fields of a partition's name. -/
def dateFields (day : Nat) : List (List Char) :=
  [Decimal.padded 4 (civil day).1.toNat, Decimal.padded 2 (civil day).2.1,
    Decimal.padded 2 (civil day).2.2]

/-- `day_partition`. No year of a timestamp is negative. -/
def dayPartition (tsMs : Nat) : String :=
  String.ofList ("dt=".toList ++ ['-'].intercalate (dateFields (tsMs / 86400000)))

/-- The binary search of `day_start_ms`: the first day that is not before. -/
def searchFirst (before : Nat → Bool) (low high : Nat) : Nat :=
  if low < high then
    let mid := (low + high) / 2
    if before mid then searchFirst before (mid + 1) high else searchFirst before low mid
  else low
termination_by high - low

/-- `day_start_ms`. -/
def dayStartMs (day : String) : Option Nat :=
  if Text.startsWith "dt=" day then
    let low := searchFirst (fun mid => dayPartition (mid * dayMs) < day) 0 65536
    if dayPartition (low * dayMs) = day then some (low * dayMs) else none
  else none

theorem dayPartition_eq (ts : Nat) : dayPartition ts =
    String.ofList ("dt=".toList ++ ['-'].intercalate (dateFields (dayOf ts))) := rfl

/-- A name is that of one day. -/
theorem dateFields_injective {a b : Nat} (h : dateFields a = dateFields b) : a = b := by
  obtain ⟨hdate, hnumber⟩ := civilTruncating_date a
  obtain ⟨hdate', hnumber'⟩ := civilTruncating_date b
  obtain ⟨-, -, hyear⟩ := month_civil a
  obtain ⟨-, -, hyear'⟩ := month_civil b
  unfold dateFields at h
  obtain ⟨hy, hrest⟩ := List.cons.inj h
  obtain ⟨hm, hrest⟩ := List.cons.inj hrest
  obtain ⟨hd, -⟩ := List.cons.inj hrest
  have hsame : civil a = civil b := by
    have hy' := Decimal.padded_injective hy
    exact Prod.ext (by omega) (Prod.ext (Decimal.padded_injective hm)
      (Decimal.padded_injective hd))
  unfold civil at hsame
  rw [hsame, hnumber'] at hnumber
  omega

theorem length_dateFields (day : Nat) : (dateFields day).length = 3 := rfl

theorem plain_dateFields (day : Nat) : Joined.Plain '-' (dateFields day) := by
  intro field hfield hdash
  have hdigits : Decimal.AllDigits field := by
    unfold dateFields at hfield
    simp only [List.mem_cons, List.not_mem_nil, or_false] at hfield
    rcases hfield with rfl | rfl | rfl <;> exact Decimal.allDigits_padded _ _
  exact absurd (hdigits '-' hdash) (by decide)

/-- Timestamps share a partition when they are of one day. -/
theorem dayPartition_inj {a b : Nat} : dayPartition a = dayPartition b ↔ dayOf a = dayOf b := by
  constructor
  · intro h
    rw [dayPartition_eq, dayPartition_eq] at h
    have hlist := List.append_cancel_left (String.ofList_injective h)
    have hlength : (dateFields (dayOf a)).length = (dateFields (dayOf b)).length := by
      rw [length_dateFields, length_dateFields]
    exact dateFields_injective (Joined.joined_inj (plain_dateFields _) hlength hlist)
  · intro h
    rw [dayPartition_eq, dayPartition_eq, h]

/-! ## The search for a day -/

theorem searchFirst_eq {before : Nat → Bool} {d low high : Nat}
    (hbefore : ∀ n < high, before n = true ↔ n < d) (hlow : low ≤ d) (hhigh : d ≤ high) :
    searchFirst before low high = d := by
  fun_induction searchFirst before low high with
  | case1 low high _ mid hless ih =>
    have hmid := (hbefore mid (by omega)).mp hless
    exact ih hbefore hmid hhigh
  | case2 low high _ mid hless ih =>
    have hmid : ¬ mid < d := fun h => hless ((hbefore mid (by omega)).mpr h)
    exact ih (fun n hn => hbefore n (by omega)) hlow (by omega)
  | case3 low high hdone => omega

theorem searchFirst_le {before : Nat → Bool} {low high : Nat} (h : low ≤ high) :
    searchFirst before low high ≤ high := by
  fun_induction searchFirst before low high with
  | case1 low high _ mid _ ih => exact ih (by omega)
  | case2 low high _ mid _ ih => exact Nat.le_trans (ih (by omega)) (by omega)
  | case3 low high _ => exact h

/-- The days that are searched are of years of four digits. -/
theorem year_le {n : Nat} (h : n ≤ 65536) : (civil n).1 ≤ 2149 := by
  have hmono := Civil.month_mono h
  have hlast : Civil.month 65536 = 25793 := by decide
  obtain ⟨hmonth, -, -⟩ := month_civil n
  omega

theorem intercalate_dateFields (day : Nat) : ['-'].intercalate (dateFields day) =
    Decimal.padded 4 (civil day).1.toNat ++ (['-'] ++ (Decimal.padded 2 (civil day).2.1 ++
      (['-'] ++ Decimal.padded 2 (civil day).2.2))) := by
  unfold dateFields
  rw [List.intercalate_cons_cons, List.intercalate_cons_cons, List.intercalate_singleton,
    List.append_assoc, List.append_assoc]

/-- Fields of a width are in the order of what they stand for. -/
theorem padded_append_lt {width m n : Nat} (hwidth : 0 < width) (h : m < n) (hn : n < 10 ^ width)
    (as bs : List Char) : Decimal.padded width m ++ as < Decimal.padded width n ++ bs := by
  refine Decimal.append_lt_append ?_ (Decimal.padded_lt hwidth h hn)
  rw [Decimal.length_padded hwidth (Nat.lt_trans h hn), Decimal.length_padded hwidth hn]

theorem dateFields_lt {a b : Nat} (h : a < b) (hb : b ≤ 65536) :
    ['-'].intercalate (dateFields a) < ['-'].intercalate (dateFields b) := by
  have hyear' := year_le hb
  obtain ⟨-, -, hpos⟩ := month_civil a
  have hdate' := (civilTruncating_date b).1
  have hm' : (civil b).2.1 < 10 ^ 2 := Nat.lt_of_le_of_lt hdate'.month_le (by decide)
  have hd' : (civil b).2.2 < 10 ^ 2 := Nat.lt_of_le_of_lt hdate'.day_le_31 (by decide)
  rw [intercalate_dateFields, intercalate_dateFields]
  rcases civil_lt h with hless | ⟨heq, hrest⟩
  · exact padded_append_lt (by decide) (by omega) (by omega) _ _
  · rw [heq]
    refine Decimal.append_lt_append_left _ (Decimal.append_lt_append_left _ ?_)
    rcases hrest with hless | ⟨heq, hless⟩
    · exact padded_append_lt (by decide) hless hm' _ _
    · rw [heq]
      refine Decimal.append_lt_append_left _ (Decimal.append_lt_append_left _ ?_)
      exact Decimal.padded_lt (by decide) hless hd'

theorem toList_dayPartition (day : Nat) : (dayPartition (day * dayMs)).toList =
    "dt=".toList ++ ['-'].intercalate (dateFields day) := by
  rw [dayPartition_eq, Rollup.dayOf_mul, String.toList_ofList]

theorem dayPartition_lt {a b : Nat} (h : a < b) (hb : b ≤ 65536) :
    dayPartition (a * dayMs) < dayPartition (b * dayMs) := by
  have hlist := Decimal.append_lt_append_left "dt=".toList (dateFields_lt h hb)
  rw [String.lt_iff, toList_dayPartition, toList_dayPartition]
  exact hlist

theorem dayPartition_dayOf (ts : Nat) : dayPartition (dayOf ts * dayMs) = dayPartition ts :=
  dayPartition_inj.mpr (Rollup.dayOf_mul _)

theorem startsWith_dayPartition (ts : Nat) : Text.startsWith "dt=" (dayPartition ts) = true := by
  refine Text.startsWith_iff.mpr ⟨String.ofList (['-'].intercalate (dateFields (dayOf ts))), ?_⟩
  rw [dayPartition_eq, String.ofList_append, String.ofList_toList]

/-- The search for the partition of a timestamp. -/
def searchFor (ts high : Nat) : Nat :=
  searchFirst (fun mid => dayPartition (mid * dayMs) < dayPartition ts) 0 high

theorem searchFor_eq {ts high : Nat} (hhigh : high ≤ 65536) (hin : dayOf ts ≤ high) :
    searchFor ts high = dayOf ts := by
  refine searchFirst_eq (fun n hn => ?_) (Nat.zero_le _) hin
  rw [decide_eq_true_iff, ← dayPartition_dayOf ts]
  constructor
  · intro hless
    by_contra hge
    rcases Nat.eq_or_lt_of_le (Nat.not_lt.mp hge) with heq | hmore
    · rw [heq] at hless
      exact absurd hless (String.lt_irrefl _)
    · exact absurd (dayPartition_lt hmore (by omega)) (String.lt_asymm hless)
  · exact fun hless => dayPartition_lt hless (by omega)

theorem dayStartMs_eq (ts : Nat) : dayStartMs (dayPartition ts) =
    if dayPartition (searchFor ts 65536 * dayMs) = dayPartition ts then
      some (searchFor ts 65536 * dayMs) else none :=
  if_pos (startsWith_dayPartition ts)

/-- `day_start_ms` undoes `day_partition` for the days that it searches, and finds no
other. -/
theorem dayStartMs_dayPartition (ts : Nat) : dayStartMs (dayPartition ts) =
    if dayOf ts ≤ 65536 then some (dayOf ts * dayMs) else none := by
  rw [dayStartMs_eq]
  have hle : searchFor ts 65536 ≤ 65536 := searchFirst_le (Nat.zero_le _)
  by_cases hin : dayOf ts ≤ 65536
  · rw [if_pos hin, searchFor_eq (Nat.le_refl _) hin, if_pos (dayPartition_dayOf ts)]
  · rw [if_neg hin, if_neg]
    intro hsame
    rw [dayPartition_inj, Rollup.dayOf_mul] at hsame
    omega

/-! ## Months -/

/-- Back to the first of the month, the month is the same. -/
theorem month_sub {n k : Nat} (h : k < Civil.day n) (hn : k ≤ n) :
    Civil.month (n - k) = Civil.month n ∧ Civil.day (n - k) = Civil.day n - k := by
  induction k with
  | zero => exact ⟨rfl, rfl⟩
  | succ k ih =>
    obtain ⟨hmonth, hday⟩ := ih (by omega) (by omega)
    have hback : n - k = n - (k + 1) + 1 := by omega
    rw [hback] at hmonth hday
    rcases day_succ (n - (k + 1)) with ⟨hsame, hnext⟩ | ⟨_, hfirst, _⟩
    · exact ⟨by omega, by omega⟩
    · omega

/-- The epoch is the first of a month. -/
theorem day_le_succ (n : Nat) : Civil.day n ≤ n + 1 := by
  induction n with
  | zero => decide
  | succ n ih =>
    rcases day_succ n with ⟨_, hnext⟩ | ⟨_, hfirst, _⟩ <;> omega

theorem monthStartMs_spec (ts : Nat) : ∃ first, Rollup.monthStartMs ts = first * dayMs ∧
    first ≤ dayOf ts ∧ Civil.day first = 1 ∧ Civil.month first = Civil.month (dayOf ts) := by
  have hpos := (day_bounds (dayOf ts)).1
  have hle := day_le_succ (dayOf ts)
  obtain ⟨hmonth, hday⟩ := month_sub (n := dayOf ts) (k := Civil.day (dayOf ts) - 1) (by omega)
    (by omega)
  exact ⟨_, rfl, Nat.sub_le _ _, by omega, hmonth⟩

/-- A first of a month is where its month starts. -/
theorem monthStartMs_first {first : Nat} (h : Civil.day first = 1) :
    Rollup.monthStartMs (first * dayMs) = first * dayMs := by
  unfold Rollup.monthStartMs
  rw [Rollup.dayOf_mul, h]
  rfl

theorem monthEndMs_start (ts : Nat) :
    Rollup.monthEndMs (Rollup.monthStartMs ts) = Rollup.monthEndMs ts := by
  obtain ⟨first, hstart, _, hfirst, _⟩ := monthStartMs_spec ts
  unfold Rollup.monthEndMs
  rw [hstart, monthStartMs_first hfirst]

/-- The month of a timestamp: its days are those from its start to its end, and the next
month starts there. -/
theorem month_spec (ts : Nat) : ∃ first e, Rollup.monthStartMs ts = first * dayMs ∧
    Rollup.monthEndMs ts = e * dayMs ∧ Civil.day e = 1 ∧
    Civil.month e = Civil.month (dayOf ts) + 1 ∧ first + 28 ≤ e ∧ e ≤ first + 31 ∧
    ∀ d, Civil.month d = Civil.month (dayOf ts) ↔ first ≤ d ∧ d < e := by
  obtain ⟨first, hstart, _, hfirst, hmonth⟩ := monthStartMs_spec ts
  obtain ⟨e, hend, hdays⟩ := Rollup.monthEndMs_spec (monthStartMs_first hfirst).symm
  rw [← hstart, monthEndMs_start] at hend
  rw [hmonth] at hdays
  -- The day before the end is in the month, and the end is not.
  have hin := (hdays first).mp hmonth
  have hlast := (hdays (e - 1)).mpr (by omega)
  have hout : Civil.month e ≠ Civil.month (dayOf ts) := fun h => by
    have hlt := ((hdays e).mp h).2
    omega
  have hback : e - 1 + 1 = e := by omega
  rcases day_succ (e - 1) with ⟨hsame, _⟩ | ⟨hnext, hfirst', _⟩
  · rw [hback] at hsame
    exact absurd (hsame.trans hlast) hout
  · rw [hback] at hnext hfirst'
    -- The loop starts in the month, on its 29th day, and ends before a 32nd.
    have hshort := (hdays (first + 27)).mp ((month_add hfirst (by omega)).trans hmonth)
    have hlong : ¬first + 31 < e := fun hlt => by
      have hin := (hdays (first + 31)).mpr ⟨by omega, hlt⟩
      exact month_add_31 hfirst (hin.trans hmonth.symm)
    exact ⟨first, e, hstart, hend, hfirst', by omega, by omega, by omega, hdays⟩

/-- Year and month of a timestamp. -/
def yearMonth (ts : Nat) : Int × Nat := ((civil (dayOf ts)).1, (civil (dayOf ts)).2.1)

theorem yearMonth_eq_iff {a b : Nat} :
    yearMonth a = yearMonth b ↔ Civil.month (dayOf a) = Civil.month (dayOf b) := by
  obtain ⟨ha, -, -⟩ := month_civil (dayOf a)
  obtain ⟨hb, -, -⟩ := month_civil (dayOf b)
  have hdate := (civilTruncating_date (dayOf a)).1
  have hdate' := (civilTruncating_date (dayOf b)).1
  have hpos : 1 ≤ (civil (dayOf a)).2.1 ∧ (civil (dayOf a)).2.1 ≤ 12 :=
    ⟨hdate.month_pos, hdate.month_le⟩
  have hpos' : 1 ≤ (civil (dayOf b)).2.1 ∧ (civil (dayOf b)).2.1 ≤ 12 :=
    ⟨hdate'.month_pos, hdate'.month_le⟩
  unfold yearMonth
  constructor
  · intro h
    obtain ⟨hyear, hmonth⟩ := Prod.mk.inj h
    rw [hyear, hmonth, ← hb] at ha
    omega
  · intro h
    refine Prod.ext ?_ ?_ <;> dsimp only <;> omega

/-- A timestamp is in the span of a month exactly when it is of that month. -/
theorem mem_month_iff (ts t : Nat) :
    Rollup.monthStartMs ts ≤ t ∧ t < Rollup.monthEndMs ts ↔ yearMonth t = yearMonth ts := by
  obtain ⟨first, e, hstart, hend, _, _, _, _, hdays⟩ := month_spec ts
  rw [yearMonth_eq_iff, hdays, hstart, hend]
  unfold dayOf dayMs
  omega

/-- Timestamps of one month have its start and its end. -/
theorem month_span_eq {a b : Nat} (h : yearMonth a = yearMonth b) :
    Rollup.monthStartMs a = Rollup.monthStartMs b ∧
      Rollup.monthEndMs a = Rollup.monthEndMs b := by
  rw [yearMonth_eq_iff] at h
  obtain ⟨first, e, hstart, hend, _, _, _, _, hdays⟩ := month_spec a
  obtain ⟨first', e', hstart', hend', _, _, _, _, hdays'⟩ := month_spec b
  have hin := (hdays (dayOf a)).mp rfl
  have hsame (d : Nat) : (first ≤ d ∧ d < e) ↔ first' ≤ d ∧ d < e' := by
    rw [← hdays d, ← hdays' d, h]
  -- Both spans hold the same days, so they have the same first day and the same last.
  have hfirst := hsame first
  have hfirst' := hsame first'
  have hlast := hsame (e - 1)
  have hlast' := hsame (e' - 1)
  have hboth : first = first' ∧ e = e' := by omega
  rw [hstart, hend, hstart', hend', hboth.1, hboth.2]
  exact ⟨rfl, rfl⟩

theorem monthStartMs_monthEndMs (ts : Nat) :
    Rollup.monthStartMs (Rollup.monthEndMs ts) = Rollup.monthEndMs ts := by
  obtain ⟨_, e, _, hend, hfirst, _⟩ := month_spec ts
  rw [hend, monthStartMs_first hfirst]

theorem month_monthEndMs (ts : Nat) :
    Civil.month (dayOf (Rollup.monthEndMs ts)) = Civil.month (dayOf ts) + 1 := by
  obtain ⟨_, e, _, hend, _, hnext, _⟩ := month_spec ts
  rw [hend, Rollup.dayOf_mul, hnext]

/-- `month_start_ms`. -/
def monthStartMs (tsMs : Nat) : Nat :=
  let day := tsMs / dayMs
  (day - ((civil day).2.2 - 1)) * dayMs

/-- The loop of `month_end_ms`, while rounds are left for it. -/
def monthEndFrom (start : Int × Nat) : Nat → Nat → Option Nat
  | 0, _ => none
  | rounds + 1, cursor =>
    if yearMonth cursor ≠ start then some (cursor - cursor % dayMs)
    else monthEndFrom start rounds (cursor + dayMs)

/-- `month_end_ms`. -/
def monthEndMs (rounds tsMs : Nat) : Option Nat :=
  let start := monthStartMs tsMs
  monthEndFrom (yearMonth start) rounds (start + 28 * dayMs)

theorem monthStartMs_eq (ts : Nat) : monthStartMs ts = Rollup.monthStartMs ts := by
  obtain ⟨-, hday, -⟩ := month_civil (dayOf ts)
  unfold Rollup.monthStartMs
  rw [hday]
  rfl

/-- From a day of the month the loop comes to its end. -/
theorem monthEndFrom_eq {first e : Nat} {start : Int × Nat}
    (hdays : ∀ d, yearMonth (d * dayMs) = start ↔ first ≤ d ∧ d < e) {rounds d : Nat}
    (hfirst : first ≤ d) (hle : d ≤ e) (hrounds : e < d + rounds) :
    monthEndFrom start rounds (d * dayMs) = some (e * dayMs) := by
  induction rounds generalizing d with
  | zero => omega
  | succ rounds ih =>
    unfold monthEndFrom
    by_cases hin : d < e
    · rw [if_neg (fun hne => hne ((hdays d).mpr ⟨hfirst, hin⟩)), ← Nat.succ_mul]
      exact ih (by omega) hin (by omega)
    · obtain rfl : d = e := by omega
      rw [if_pos (fun heq => hin ((hdays d).mp heq).2), Nat.mul_mod_left, Nat.sub_zero]

/-- Four rounds are enough for every month. -/
theorem monthEndMs_eq (ts : Nat) {rounds : Nat} (h : 4 ≤ rounds) :
    monthEndMs rounds ts = some (Rollup.monthEndMs ts) := by
  obtain ⟨first, e, hstart, hend, _, _, hshort, hlong, hdays⟩ := month_spec ts
  have hin := (hdays first).mpr ⟨Nat.le_refl _, by omega⟩
  unfold monthEndMs
  dsimp only
  rw [monthStartMs_eq, hstart, ← Nat.add_mul, hend]
  refine monthEndFrom_eq (fun d => ?_) (show first ≤ first + 28 by omega) hshort (by omega)
  rw [yearMonth_eq_iff, Rollup.dayOf_mul, Rollup.dayOf_mul, hin]
  exact hdays d

/-! ## Periods -/

/-- `period_ordinal`. The year of a timestamp is not negative. -/
def periodOrdinal (period : BudgetPeriod) (unixMs : Nat) : Nat :=
  let days := unixMs / 86400000
  match period with
  | .daily => days
  | .weekly => days / 7
  | .monthly => (VKey.civilFromDays days).1.toNat * 12 + ((VKey.civilFromDays days).2.1 - 1)

/-- What budgets are counted by. -/
theorem periodOrdinal_eq (period : BudgetPeriod) (ts : Nat) :
    periodOrdinal period ts = Budget.periodOrdinal period ts := by
  cases period with
  | daily => rfl
  | weekly => rfl
  | monthly =>
    obtain ⟨hmonth, -, hyear⟩ := month_civil (dayOf ts)
    show (civil (dayOf ts)).1.toNat * 12 + ((civil (dayOf ts)).2.1 - 1) = Civil.month (dayOf ts)
    omega

/-! ## Time in days, months and periods -/

theorem exists_unique_day (ts : Nat) :
    ∃! day, day * dayMs ≤ ts ∧ ts < (day + 1) * dayMs := by
  refine ⟨dayOf ts, ?_, fun day hday => ?_⟩
  · unfold dayOf dayMs
    dsimp only
    omega
  · unfold dayOf dayMs at *
    dsimp only at hday
    omega

/-- The four copies are one calendar, which undoes `days_from_civil`; its days and its
months tile time, and the periods of a budget are numbered in order. -/
theorem calendars_agree :
    (∀ z : Int, Credential.civilFromDays z = VKey.civilFromDays z ∧
      civil z = VKey.civilFromDays z ∧ Sigv4.civilFromDays z = VKey.civilFromDays z) ∧
    (∀ z : Int, IsDate (VKey.civilFromDays z).1 (VKey.civilFromDays z).2.1
        (VKey.civilFromDays z).2.2 ∧
      daysFromCivil (VKey.civilFromDays z).1 (VKey.civilFromDays z).2.1
        (VKey.civilFromDays z).2.2 = z) ∧
    (∀ y m d, IsDate y m d → VKey.civilFromDays (daysFromCivil y m d) = (y, m, d)) ∧
    (∀ ts, (∃! day, day * dayMs ≤ ts ∧ ts < (day + 1) * dayMs) ∧
      (∀ t, dayPartition t = dayPartition ts ↔
        dayOf ts * dayMs ≤ t ∧ t < (dayOf ts + 1) * dayMs) ∧
      dayStartMs (dayPartition ts) =
        if dayOf ts ≤ 65536 then some (dayOf ts * dayMs) else none) ∧
    (∀ ts, ∃ e, (∀ rounds, 4 ≤ rounds → monthEndMs rounds ts = some e) ∧
      (monthStartMs ts ≤ ts ∧ ts < e) ∧
      (∀ t, monthStartMs ts ≤ t ∧ t < e ↔ yearMonth t = yearMonth ts) ∧
      (∀ t, monthStartMs ts ≤ t ∧ t < e →
        monthStartMs t = monthStartMs ts ∧ monthEndMs 4 t = some e) ∧
      monthStartMs e = e ∧ Civil.month (dayOf e) = Civil.month (dayOf ts) + 1) ∧
    ∀ period a b, a ≤ b → periodOrdinal period a ≤ periodOrdinal period b := by
  refine ⟨fun z => ⟨?_, rfl, ?_⟩, fun z => ?_, fun y m d h => ?_, fun ts => ⟨?_, fun t => ?_, ?_⟩,
    fun ts => ⟨Rollup.monthEndMs ts, fun rounds hrounds => ?_, ?_, fun t => ?_, fun t ht => ?_,
      ?_, month_monthEndMs ts⟩, fun period a b h => ?_⟩
  · exact (civilTruncating_eq z).symm
  · exact (civilTruncating_eq z).symm
  · obtain ⟨hdate, hnumber⟩ := civilTruncating_date z
    exact ⟨hdate, (daysFromCivil_eq _ _ hdate.day_pos).trans hnumber⟩
  · exact civilTruncating_daysFromCivil h
  · exact exists_unique_day ts
  · rw [dayPartition_inj]
    unfold dayOf dayMs
    omega
  · exact dayStartMs_dayPartition ts
  · exact monthEndMs_eq ts hrounds
  · rw [monthStartMs_eq]
    exact (mem_month_iff ts ts).mpr rfl
  · rw [monthStartMs_eq]
    exact mem_month_iff ts t
  · rw [monthStartMs_eq] at ht
    obtain ⟨hstart, hend⟩ := month_span_eq ((mem_month_iff ts t).mp ht)
    rw [monthStartMs_eq, monthStartMs_eq, monthEndMs_eq t (Nat.le_refl 4), hstart, hend]
    exact ⟨rfl, rfl⟩
  · rw [monthStartMs_eq]
    exact monthStartMs_monthEndMs ts
  · rw [periodOrdinal_eq, periodOrdinal_eq]
    exact Budget.periodOrdinal_mono period h

/-- A leap day and the end of its month. -/
theorem calendars_agree_leap_day :
    IsDate 2024 2 29 ∧ VKey.civilFromDays (daysFromCivil 2024 2 29) = (2024, 2, 29) ∧
      periodOrdinal .monthly 1709164800000 ≤ periodOrdinal .monthly 1709251200000 := by
  have hdate : IsDate 2024 2 29 := ⟨by decide, by decide, by decide, by decide⟩
  obtain ⟨-, -, hinverse, -, -, hperiod⟩ := calendars_agree
  exact ⟨hdate, hinverse 2024 2 29 hdate, hperiod .monthly _ _ (by decide)⟩

end RapidRouter.Usage.Calendar
