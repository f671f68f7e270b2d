import Mathlib.Tactic.Common
import Mathlib.Tactic.IntervalCases

/-!
# The civil calendar

Days since the epoch to year, month and day, by eras of 400 years that start
on the first of March. What a user of the calendar needs is that months are
numbered in order, `month_mono` of the number `12 · year + month`, and how the
next day is found, `day_succ`.

Inside an era the year is computed from the day corrected for leap days;
`corrected_div` brings the correction down to three quotients of fixed size,
from which the day of the year is in range (`dayOfYear_le`).
-/

namespace Civil

/-- The day of the era, without the leap days before it. -/
def corrected (doe : Nat) : Nat := doe - doe / 1460 + doe / 36524 - doe / 146096

def yearOfEra (doe : Nat) : Nat := corrected doe / 365

/-- The first day of a year of the era. -/
def yearStart (yoe : Nat) : Nat := 365 * yoe + yoe / 4 - yoe / 100

def dayOfYear (doe : Nat) : Nat := doe - yearStart (yearOfEra doe)

/-- The month, counted from March. -/
def monthFromMarch (doe : Nat) : Nat := (5 * dayOfYear doe + 2) / 153

/-- Year, month and day of a day since 1970-01-01. -/
def civilFromDays (days : Nat) : Nat × Nat × Nat :=
  let z := days + 719468
  let era := z / 146097
  let doe := z - era * 146097
  let y := yearOfEra doe + era * 400
  let mp := monthFromMarch doe
  let d := dayOfYear doe - (153 * mp + 2) / 5 + 1
  let m := if mp < 10 then mp + 3 else mp - 9
  (if m ≤ 2 then y + 1 else y, m, d)

/-- Months in order, December of the year before year 0 having number 0. -/
def month (days : Nat) : Nat := (civilFromDays days).1 * 12 + ((civilFromDays days).2.1 - 1)

/-! ## One era -/

/-- Whole centuries of the era before a day. -/
theorem exists_century {doe : Nat} (h : doe < 146097) :
    ∃ c ≤ 3, doe / 36524 - doe / 146096 = c ∧ doe / 146096 ≤ doe / 36524 ∧
      36524 * c ≤ doe ∧ (doe < 36524 * (c + 1) ∨ c = 3 ∧ doe = 146096) := by
  by_cases hlast : doe = 146096
  · subst hlast
    exact ⟨3, Nat.le_refl 3, by decide, by decide, by decide, Or.inr ⟨rfl, rfl⟩⟩
  · have hzero : doe / 146096 = 0 := by omega
    refine ⟨doe / 36524, by omega, by omega, by omega, by omega, Or.inl (by omega)⟩

theorem corrected_eq {doe c : Nat} (hle : doe / 146096 ≤ doe / 36524)
    (hc : doe / 36524 - doe / 146096 = c) : corrected doe = doe - doe / 1460 + c := by
  unfold corrected
  omega

theorem corrected_mono {a b : Nat} (h : a ≤ b) (hb : b < 146097) : corrected a ≤ corrected b := by
  obtain ⟨c, -, hc, hcle, hclow, hchigh⟩ := exists_century (show a < 146097 by omega)
  obtain ⟨d, hd3, hd, hdle, hdlow, hdhigh⟩ := exists_century hb
  have hcd : c ≤ d := by
    rcases hdhigh with hdhigh | ⟨rfl, _⟩ <;> omega
  have hquot : b / 1460 - a / 1460 ≤ b - a := by omega
  rw [corrected_eq hcle hc, corrected_eq hdle hd]
  omega

/-- The centuries of the corrected day are those of the day. -/
theorem corrected_century {doe c : Nat} (hc : c ≤ 3) (hlow : 36524 * c ≤ doe)
    (hhigh : doe < 36524 * (c + 1) ∨ c = 3 ∧ doe = 146096) :
    (doe - doe / 1460 + c) / 36500 = c := by
  have hlower : 36500 * c ≤ doe - doe / 1460 + c := by omega
  have hupper : doe - doe / 1460 + c < 36500 * (c + 1) := by
    rcases hhigh with hhigh | ⟨rfl, rfl⟩
    · omega
    · decide
  exact Nat.div_eq_of_lt_le (by omega) (by omega)

/-- The three quotients of a corrected day: its four-year blocks are those of
the day or one less. -/
theorem corrected_div {doe c : Nat} (hc : c ≤ 3) (hlow : 36524 * c ≤ doe) (hdoe : doe < 146097) :
    (doe - doe / 1460 + c) / 1460 ≤ doe / 1460 ∧
      doe / 1460 ≤ (doe - doe / 1460 + c) / 1460 + 1 := by
  constructor <;> omega

theorem yearStart_bounds {doe : Nat} (h : doe < 146097) :
    yearStart (yearOfEra doe) ≤ doe ∧ doe ≤ yearStart (yearOfEra doe) + 365 := by
  obtain ⟨c, hc3, hc, hcle, hlow, hhigh⟩ := exists_century h
  have hcorrected := corrected_eq hcle hc
  have hfour : yearOfEra doe / 4 = (doe - doe / 1460 + c) / 1460 := by
    unfold yearOfEra
    rw [hcorrected, Nat.div_div_eq_div_mul]
  have hhundred : yearOfEra doe / 100 = c := by
    unfold yearOfEra
    rw [hcorrected, Nat.div_div_eq_div_mul]
    exact corrected_century hc3 hlow hhigh
  obtain ⟨hle, hge⟩ := corrected_div hc3 hlow h
  have hyear : 365 * yearOfEra doe ≤ doe - doe / 1460 + c ∧
      doe - doe / 1460 + c ≤ 365 * yearOfEra doe + 364 := by
    unfold yearOfEra
    rw [hcorrected]
    omega
  unfold yearStart
  rw [hfour, hhundred]
  generalize (doe - doe / 1460 + c) / 1460 = f at hle hge
  generalize yearOfEra doe = y at hyear
  generalize hq : doe / 1460 = q at hle hge hyear
  have hqdoe : q ≤ doe := by omega
  have hcq : c ≤ f := by omega
  omega

theorem dayOfYear_le {doe : Nat} (h : doe < 146097) : dayOfYear doe ≤ 365 := by
  have hbounds := yearStart_bounds h
  unfold dayOfYear
  omega

theorem monthFromMarch_le {doe : Nat} (h : doe < 146097) : monthFromMarch doe ≤ 11 := by
  have hday := dayOfYear_le h
  unfold monthFromMarch
  omega

theorem yearOfEra_le {doe : Nat} (h : doe < 146097) : yearOfEra doe ≤ 399 := by
  have hmono := corrected_mono (show doe ≤ 146096 by omega) (by decide)
  have hlast : corrected 146096 = 145999 := by decide
  unfold yearOfEra
  omega

/-- Inside an era, months are in order. -/
theorem eraMonth_mono {a b : Nat} (h : a ≤ b) (hb : b < 146097) :
    12 * yearOfEra a + monthFromMarch a ≤ 12 * yearOfEra b + monthFromMarch b := by
  have hyear : yearOfEra a ≤ yearOfEra b := Nat.div_le_div_right (corrected_mono h hb)
  rcases Nat.eq_or_lt_of_le hyear with heq | hlt
  · have hday : dayOfYear a ≤ dayOfYear b := by
      unfold dayOfYear
      rw [heq]
      omega
    have hmonth : monthFromMarch a ≤ monthFromMarch b := by
      unfold monthFromMarch
      omega
    omega
  · have hmonth := monthFromMarch_le (show a < 146097 by omega)
    omega

/-! ## Months in order -/

theorem month_eq (days : Nat) :
    month days = 12 * (400 * ((days + 719468) / 146097) + yearOfEra ((days + 719468) % 146097)) +
      monthFromMarch ((days + 719468) % 146097) + 2 := by
  have hdoe : days + 719468 - (days + 719468) / 146097 * 146097 = (days + 719468) % 146097 := by
    omega
  have hmonth := monthFromMarch_le (Nat.mod_lt (days + 719468) (show 0 < 146097 by decide))
  unfold month civilFromDays
  dsimp only
  rw [hdoe]
  generalize (days + 719468) % 146097 = doe at hmonth
  split <;> split <;> omega

/-- Months are numbered in order. -/
theorem month_mono {a b : Nat} (h : a ≤ b) : month a ≤ month b := by
  rw [month_eq, month_eq]
  have hera : (a + 719468) / 146097 ≤ (b + 719468) / 146097 := Nat.div_le_div_right (by omega)
  have hb := Nat.mod_lt (b + 719468) (show 0 < 146097 by decide)
  have ha := Nat.mod_lt (a + 719468) (show 0 < 146097 by decide)
  rcases Nat.eq_or_lt_of_le hera with heq | hlt
  · have hdoe : (a + 719468) % 146097 ≤ (b + 719468) % 146097 := by omega
    have hmono := eraMonth_mono hdoe hb
    omega
  · have hyear := yearOfEra_le ha
    have hmonth := monthFromMarch_le ha
    omega

/-! ## Days of a month -/

/-- The day of the month. -/
def day (days : Nat) : Nat := (civilFromDays days).2.2

def eraDay (doe : Nat) : Nat := dayOfYear doe - (153 * monthFromMarch doe + 2) / 5 + 1

theorem day_eq (days : Nat) : day days = eraDay ((days + 719468) % 146097) := by
  have hdoe : days + 719468 - (days + 719468) / 146097 * 146097 = (days + 719468) % 146097 := by
    omega
  unfold day civilFromDays
  dsimp only
  rw [hdoe]
  rfl

theorem eraDay_bounds {doe : Nat} (h : doe < 146097) : 1 ≤ eraDay doe ∧ eraDay doe ≤ 31 := by
  have hday := dayOfYear_le h
  unfold eraDay monthFromMarch
  omega

theorem day_bounds (days : Nat) : 1 ≤ day days ∧ day days ≤ 31 := by
  rw [day_eq]
  exact eraDay_bounds (Nat.mod_lt _ (by decide))

/-- A year ends where the next one starts; only the era ends a day later. -/
theorem lt_yearStart_succ {doe : Nat} (h : doe < 146097) :
    doe < yearStart (yearOfEra doe + 1) ∨ doe = 146096 := by
  obtain ⟨c, hc3, hc, hcle, hlow, hhigh⟩ := exists_century h
  have hcorrected := corrected_eq hcle hc
  have hfour : yearOfEra doe / 4 = (doe - doe / 1460 + c) / 1460 := by
    unfold yearOfEra
    rw [hcorrected, Nat.div_div_eq_div_mul]
  have hhundred : yearOfEra doe / 100 = c := by
    unfold yearOfEra
    rw [hcorrected, Nat.div_div_eq_div_mul]
    exact corrected_century hc3 hlow hhigh
  obtain ⟨hle, hge⟩ := corrected_div hc3 hlow h
  have hyear : 365 * yearOfEra doe ≤ doe - doe / 1460 + c ∧
      doe - doe / 1460 + c ≤ 365 * yearOfEra doe + 364 := by
    unfold yearOfEra
    rw [hcorrected]
    omega
  unfold yearStart
  generalize yearOfEra doe = y at hyear hfour hhundred
  generalize hq : doe / 1460 = q at hle hge hyear hfour
  have hqdoe : q ≤ doe := by omega
  by_cases hcentury : (y + 1) / 100 = c
  · -- Four-year blocks of the day are ahead of the year's only in its last days.
    have hblocks : q ≤ (y + 1) / 4 := by omega
    omega
  · have hlast : y = 100 * c + 99 := by omega
    omega

theorem yearStart_succ (y : Nat) :
    yearStart y + 365 ≤ yearStart (y + 1) ∧ yearStart (y + 1) ≤ yearStart y + 366 := by
  unfold yearStart
  omega

theorem yearStart_mono {a b : Nat} (h : a ≤ b) : yearStart a ≤ yearStart b := by
  induction h with
  | refl => exact Nat.le_refl _
  | @step b _ ih =>
    have hsucc := (yearStart_succ b).1
    exact Nat.le_trans ih (Nat.le_trans (Nat.le_add_right _ _) hsucc)

/-- The table of months, day by day. -/
theorem monthTable_succ {doy : Nat} (h : doy < 365) :
    (5 * (doy + 1) + 2) / 153 = (5 * doy + 2) / 153 ∧
        doy + 1 - (153 * ((5 * (doy + 1) + 2) / 153) + 2) / 5 =
          doy - (153 * ((5 * doy + 2) / 153) + 2) / 5 + 1 ∨
      (5 * (doy + 1) + 2) / 153 = (5 * doy + 2) / 153 + 1 ∧
        doy + 1 - (153 * ((5 * (doy + 1) + 2) / 153) + 2) / 5 = 0 ∧
        27 ≤ doy - (153 * ((5 * doy + 2) / 153) + 2) / 5 := by
  have hle : (5 * doy + 2) / 153 ≤ 11 := by omega
  have hnext : (5 * (doy + 1) + 2) / 153 = (5 * doy + 2) / 153 ∨
      (5 * (doy + 1) + 2) / 153 = (5 * doy + 2) / 153 + 1 := by omega
  generalize hm : (5 * doy + 2) / 153 = m at hle hnext
  rcases hnext with hsame | hmore
  · rw [hsame]
    interval_cases m <;> omega
  · rw [hmore]
    interval_cases m <;> omega

/-- One day on: the next day of the month, or the first of the next month. -/
theorem eraDay_succ {doe : Nat} (h : doe + 1 < 146097) :
    12 * yearOfEra (doe + 1) + monthFromMarch (doe + 1) = 12 * yearOfEra doe + monthFromMarch doe ∧
        eraDay (doe + 1) = eraDay doe + 1 ∨
      12 * yearOfEra (doe + 1) + monthFromMarch (doe + 1) =
          12 * yearOfEra doe + monthFromMarch doe + 1 ∧
        eraDay (doe + 1) = 1 ∧ 28 ≤ eraDay doe := by
  have hday' := dayOfYear_le h
  have hyear : yearOfEra doe ≤ yearOfEra (doe + 1) :=
    Nat.div_le_div_right (corrected_mono (Nat.le_succ doe) h)
  obtain ⟨hstart, -⟩ := yearStart_bounds (show doe < 146097 by omega)
  obtain ⟨hstart', -⟩ := yearStart_bounds h
  rcases Nat.eq_or_lt_of_le hyear with heq | hlt
  · have hdoy : dayOfYear (doe + 1) = dayOfYear doe + 1 := by
      unfold dayOfYear
      rw [← heq]
      omega
    have htable := monthTable_succ (show dayOfYear doe < 365 by omega)
    rw [← heq]
    unfold eraDay monthFromMarch
    rw [hdoy]
    omega
  · have hend := (lt_yearStart_succ (show doe < 146097 by omega)).resolve_right (by omega)
    have hnext : yearOfEra (doe + 1) = yearOfEra doe + 1 ∧
        yearStart (yearOfEra doe + 1) = doe + 1 := by
      have hle := yearStart_mono (show yearOfEra doe + 1 ≤ yearOfEra (doe + 1) from hlt)
      have hstarts : yearStart (yearOfEra doe + 1) = doe + 1 := by omega
      refine ⟨?_, hstarts⟩
      by_contra hne
      have hlater := yearStart_mono (show yearOfEra doe + 1 + 1 ≤ yearOfEra (doe + 1) by omega)
      have hsucc := yearStart_succ (yearOfEra doe + 1)
      omega
    have hdoy : dayOfYear (doe + 1) = 0 := by
      unfold dayOfYear
      rw [hnext.1, hnext.2]
      omega
    have hlast : 364 ≤ dayOfYear doe ∧ dayOfYear doe ≤ 365 := by
      have hlength := yearStart_succ (yearOfEra doe)
      unfold dayOfYear
      omega
    have hfebruary : (5 * dayOfYear doe + 2) / 153 = 11 := by omega
    right
    rw [hnext.1]
    unfold eraDay monthFromMarch
    rw [hdoy, hfebruary]
    omega

/-- One day on: the next day of the month, or the first of the next month. -/
theorem day_succ (n : Nat) : month (n + 1) = month n ∧ day (n + 1) = day n + 1 ∨
    month (n + 1) = month n + 1 ∧ day (n + 1) = 1 ∧ 28 ≤ day n := by
  rw [month_eq, month_eq, day_eq, day_eq]
  have hn := Nat.mod_lt (n + 719468) (show 0 < 146097 by decide)
  by_cases hlast : (n + 719468) % 146097 = 146096
  · -- The last day of an era is a 29 February.
    have hera : (n + 1 + 719468) / 146097 = (n + 719468) / 146097 + 1 := by omega
    have hfirst : (n + 1 + 719468) % 146097 = 0 := by omega
    have hyear : yearOfEra 146096 = 399 := by decide
    have hmonth : monthFromMarch 146096 = 11 := by decide
    have hzero : yearOfEra 0 = 0 ∧ monthFromMarch 0 = 0 ∧ eraDay 0 = 1 ∧ 28 ≤ eraDay 146096 := by decide
    obtain ⟨hyear0, hmonth0, hday0, hday28⟩ := hzero
    rw [hera, hfirst, hlast, hyear, hmonth, hyear0, hmonth0]
    exact Or.inr ⟨by omega, hday0, hday28⟩
  · have hera : (n + 1 + 719468) / 146097 = (n + 719468) / 146097 := by omega
    have hnext : (n + 1 + 719468) % 146097 = (n + 719468) % 146097 + 1 := by omega
    have hsucc := eraDay_succ (show (n + 719468) % 146097 + 1 < 146097 by omega)
    rw [hera, hnext]
    omega

/-- While the month is the same, the days are counted. -/
theorem day_add {first k : Nat} (hfirst : day first = 1) (h : month (first + k) = month first) :
    day (first + k) = k + 1 := by
  induction k with
  | zero => exact hfirst
  | succ k ih =>
    have hlow := month_mono (Nat.le_add_right first k)
    have hhigh := month_mono (show first + k ≤ first + (k + 1) by omega)
    have hday := ih (by omega)
    rcases day_succ (first + k) with ⟨-, hnext⟩ | ⟨hmonth, -⟩
    · rw [← Nat.add_assoc, hnext, hday]
    · rw [← Nat.add_assoc] at h
      omega

/-- A month has twenty-eight days at least, -/
theorem month_add {first k : Nat} (hfirst : day first = 1) (hk : k < 28) :
    month (first + k) = month first := by
  induction k with
  | zero => rfl
  | succ k ih =>
    have hsame := ih (by omega)
    have hday := day_add hfirst hsame
    rcases day_succ (first + k) with ⟨hnext, -⟩ | ⟨-, -, hlast⟩
    · rw [← Nat.add_assoc, hnext, hsame]
    · omega

/-- and thirty-one at most. -/
theorem month_add_31 {first : Nat} (hfirst : day first = 1) : month (first + 31) ≠ month first := by
  intro h
  have hday := day_add hfirst h
  have hbound := (day_bounds (first + 31)).2
  omega

/-- Before the first of a month it was another one. -/
theorem month_lt {first d : Nat} (hfirst : day first = 1) (h : d < first) : month d < month first := by
  obtain ⟨p, rfl⟩ : ∃ p, first = p + 1 := ⟨first - 1, by omega⟩
  have hle := month_mono (show d ≤ p by omega)
  rcases day_succ p with ⟨-, hnext⟩ | ⟨hmonth, -⟩
  · have hbound := (day_bounds p).1
    omega
  · omega

/-! ## Milliseconds -/

def dayMs : Nat := 86400000

/-- The day a moment falls on. -/
def dayOf (unixMs : Nat) : Nat := unixMs / dayMs

theorem dayOf_mono {a b : Nat} (h : a ≤ b) : dayOf a ≤ dayOf b := Nat.div_le_div_right h

end Civil
