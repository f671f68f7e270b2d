import RapidRouter.Lib.Civil

/-!
# The Gregorian calendar

Leap years, the lengths of months, and the number of a day since 1970-01-01 as the
calendar has it: years added up, then months, then days (`unixDay`). `dayNumber` is the
same number in closed form, with years that start in March; it is one to one on the dates
of the calendar (`dayNumber_injective`).
-/

namespace Gregorian

def isLeap (y : Int) : Prop := y % 4 = 0 ∧ (y % 100 ≠ 0 ∨ y % 400 = 0)

instance (y : Int) : Decidable (isLeap y) := inferInstanceAs (Decidable (_ ∧ _))

def yearLength (y : Int) : Nat := if isLeap y then 366 else 365

def monthLength (y : Int) (m : Nat) : Nat :=
  if m = 2 then (if isLeap y then 29 else 28)
  else if m = 4 ∨ m = 6 ∨ m = 9 ∨ m = 11 then 30
  else 31

/-- A date that there is. -/
structure IsDate (y : Int) (m d : Nat) : Prop where
  month_pos : 1 ≤ m
  month_le : m ≤ 12
  day_pos : 1 ≤ d
  day_le : d ≤ monthLength y m

instance (y : Int) (m d : Nat) : Decidable (IsDate y m d) :=
  decidable_of_iff (1 ≤ m ∧ m ≤ 12 ∧ 1 ≤ d ∧ d ≤ monthLength y m)
    ⟨fun ⟨h₁, h₂, h₃, h₄⟩ => ⟨h₁, h₂, h₃, h₄⟩, fun h => ⟨h.1, h.2, h.3, h.4⟩⟩

theorem IsDate.day_le_31 {y : Int} {m d : Nat} (h : IsDate y m d) : d ≤ 31 := by
  have hle := h.day_le
  unfold monthLength at hle
  split at hle
  · split at hle <;> omega
  · split at hle <;> omega

/-! ## The count of days -/

/-- The days of the first years from 1970 on. -/
def daysOfYears : Nat → Nat
  | 0 => 0
  | k + 1 => daysOfYears k + yearLength (1970 + k)

/-- The days of the first months of a year. -/
def daysOfMonths (y : Int) : Nat → Nat
  | 0 => 0
  | m + 1 => daysOfMonths y m + monthLength y (m + 1)

/-- The number of a day, 1970-01-01 being day 0. -/
def unixDay (y m d : Nat) : Nat := daysOfYears (y - 1970) + daysOfMonths y (m - 1) + (d - 1)

/-! ## In closed form -/

/-- The days before a year that starts in March, from the year 0 on. -/
def marchDays (y : Int) : Int := 365 * y + y / 4 - y / 100 + y / 400

theorem yearLength_cases (y : Int) :
    isLeap y ∧ yearLength y = 366 ∨ ¬ isLeap y ∧ yearLength y = 365 := by
  by_cases h : isLeap y
  · exact Or.inl ⟨h, if_pos h⟩
  · exact Or.inr ⟨h, if_neg h⟩

theorem marchDays_succ (y : Int) : marchDays (y + 1) = marchDays y + yearLength (y + 1) := by
  have hlength := yearLength_cases (y + 1)
  unfold isLeap at hlength
  unfold marchDays
  omega

theorem marchDays_lt {a b : Int} (h : a < b) : marchDays a < marchDays b := by
  unfold marchDays
  omega

/-- The year of a date, counted from March. -/
def marchYear (y : Int) (m : Nat) : Int := if m ≤ 2 then y - 1 else y

def fromMarch (m : Nat) : Nat := if m ≤ 2 then m + 9 else m - 3

/-- The day of a year that starts in March. -/
def marchDay (m d : Nat) : Nat := (153 * fromMarch m + 2) / 5 + d - 1

def dayNumber (y : Int) (m d : Nat) : Int :=
  marchDays (marchYear y m) + marchDay m d - 719468

theorem dayNumber_year (y : Int) : dayNumber (y + 1) 1 1 = dayNumber y 1 1 + yearLength y := by
  have hsucc := marchDays_succ (y - 1)
  have hyear : y - 1 + 1 = y := by omega
  rw [hyear] at hsucc
  show marchDays (y + 1 - 1) + marchDay 1 1 - 719468 =
    marchDays (y - 1) + marchDay 1 1 - 719468 + yearLength y
  have hnext : y + 1 - 1 = y := by omega
  rw [hnext, hsucc]
  omega

theorem dayNumber_month (y : Int) {m : Nat} (hpos : 1 ≤ m) (hle : m ≤ 11) :
    dayNumber y (m + 1) 1 = dayNumber y m 1 + monthLength y m := by
  by_cases hfebruary : m = 2
  · -- February is the last month of a year that starts in March.
    subst hfebruary
    have hsucc := marchDays_succ (y - 1)
    have hyear : y - 1 + 1 = y := by omega
    rw [hyear] at hsucc
    show marchDays y + (0 : Nat) - 719468 =
      marchDays (y - 1) + (337 : Nat) - 719468 + (if isLeap y then 29 else 28 : Nat)
    rw [hsucc]
    unfold yearLength
    split <;> omega
  · have hyear : marchYear y (m + 1) = marchYear y m := by
      unfold marchYear
      split <;> split <;> omega
    have hday : marchDay (m + 1) 1 = marchDay m 1 + monthLength y m := by
      unfold monthLength
      rw [if_neg hfebruary]
      interval_cases m <;> first | exact absurd rfl hfebruary | rfl
    unfold dayNumber
    rw [hyear, hday]
    omega

theorem dayNumber_day (y : Int) (m : Nat) {d : Nat} (hd : 1 ≤ d) :
    dayNumber y m d = dayNumber y m 1 + (d - 1 : Nat) := by
  unfold dayNumber marchDay
  omega

theorem dayNumber_years (k : Nat) : dayNumber (1970 + k) 1 1 = daysOfYears k := by
  induction k with
  | zero => decide
  | succ k ih =>
    have hyear : (1970 : Int) + (k + 1 : Nat) = 1970 + k + 1 := by omega
    rw [hyear, dayNumber_year, ih]
    exact (Nat.cast_add _ _).symm

theorem dayNumber_months (y : Int) {m : Nat} (h : m ≤ 11) :
    dayNumber y (m + 1) 1 = dayNumber y 1 1 + daysOfMonths y m := by
  induction m with
  | zero => exact (add_zero _).symm
  | succ m ih =>
    rw [dayNumber_month y (by omega) h, ih (by omega), add_assoc]
    exact congrArg _ (Nat.cast_add _ _).symm

/-- The closed form counts the days of the calendar. -/
theorem dayNumber_eq {y m d : Nat} (hyear : 1970 ≤ y) (hdate : IsDate y m d) :
    dayNumber y m d = unixDay y m d := by
  obtain ⟨k, rfl⟩ : ∃ k, y = 1970 + k := ⟨y - 1970, by omega⟩
  obtain ⟨j, rfl⟩ : ∃ j, m = j + 1 := ⟨m - 1, by have := hdate.month_pos; omega⟩
  have hmonths := dayNumber_months ((1970 + k : Nat) : Int) (m := j) (by have := hdate.month_le; omega)
  have hyears := dayNumber_years k
  rw [dayNumber_day _ _ hdate.day_pos, hmonths]
  have hcast : ((1970 + k : Nat) : Int) = 1970 + k := by omega
  rw [hcast, hyears]
  unfold unixDay
  have hk : 1970 + k - 1970 = k := by omega
  have hj : j + 1 - 1 = j := by omega
  rw [hk, hj, hcast]
  omega

/-- Before 1970 days have negative numbers. -/
theorem dayNumber_neg {y : Int} {m d : Nat} (hyear : y < 1970) (hpos : 1 ≤ m) (hmonth : m ≤ 12)
    (hday : d ≤ 31) : dayNumber y m d < 0 := by
  unfold dayNumber marchDays marchYear marchDay fromMarch
  split <;> omega

/-- The years that have four digits. -/
theorem dayNumber_bounds {y m d : Nat} (hyear : y < 10000) (hmonth : m ≤ 12) (hday : d ≤ 31) :
    -719833 ≤ dayNumber y m d ∧ dayNumber y m d < 2932897 := by
  unfold dayNumber marchDays marchYear marchDay fromMarch
  split <;> omega

/-! ## One to one -/

theorem fromMarch_le {m : Nat} (hle : m ≤ 12) : fromMarch m ≤ 11 := by
  unfold fromMarch
  split <;> omega

/-- A day is in the year that starts in its March: only a leap year has a 366th day. -/
theorem marchDay_lt {y : Int} {m d : Nat} (h : IsDate y m d) :
    marchDay m d < yearLength (marchYear y m + 1) := by
  obtain ⟨hpos, hle, hday, hlast⟩ := h
  by_cases hfebruary : m = 2
  · subst hfebruary
    have hyear : marchYear y 2 + 1 = y := by
      show y - 1 + 1 = y
      omega
    rw [hyear]
    show 337 + d - 1 < yearLength y
    unfold monthLength at hlast
    rw [if_pos rfl] at hlast
    rcases yearLength_cases y with ⟨hleap, hlength⟩ | ⟨hleap, hlength⟩
    · rw [if_pos hleap] at hlast
      omega
    · rw [if_neg hleap] at hlast
      omega
  · have h31 : d ≤ 31 := IsDate.day_le_31 ⟨hpos, hle, hday, hlast⟩
    have hbefore : fromMarch m ≤ 10 := by
      unfold fromMarch
      split <;> omega
    have hlength := yearLength_cases (marchYear y m + 1)
    unfold marchDay
    omega

/-- The length of a month is that of the table, but for February. -/
theorem monthLength_le (y : Int) {m : Nat} (hpos : 1 ≤ m) (hle : m ≤ 12) :
    m = 2 ∧ monthLength y m ≤ 29 ∨
      m ≠ 2 ∧ monthLength y m + (153 * fromMarch m + 2) / 5 = (153 * (fromMarch m + 1) + 2) / 5 := by
  by_cases hfebruary : m = 2
  · subst hfebruary
    refine Or.inl ⟨rfl, ?_⟩
    rcases yearLength_cases y with ⟨hleap, _⟩ | ⟨hleap, _⟩
    · exact Nat.le_of_eq (if_pos hleap)
    · show (if isLeap y then 29 else 28) ≤ 29
      rw [if_neg hleap]
      decide
  · refine Or.inr ⟨hfebruary, ?_⟩
    unfold monthLength
    rw [if_neg hfebruary]
    interval_cases m <;> first | exact absurd rfl hfebruary | decide

/-- The month is found again from the day of the year, and then the day. -/
theorem fromMarch_of_marchDay {y : Int} {m d : Nat} (h : IsDate y m d) :
    (5 * marchDay m d + 2) / 153 = fromMarch m := by
  obtain ⟨hpos, hle, hday, hlast⟩ := h
  have hmarch := fromMarch_le hle
  unfold marchDay
  rcases monthLength_le y hpos hle with ⟨hfebruary, hlength⟩ | ⟨_, hlength⟩
  · subst hfebruary
    show (5 * (337 + d - 1) + 2) / 153 = 11
    omega
  · generalize fromMarch m = k at hmarch hlength
    generalize monthLength y m = l at hlast hlength
    interval_cases k <;> omega

theorem fromMarch_injective {a b : Nat} (ha : 1 ≤ a ∧ a ≤ 12) (hb : 1 ≤ b ∧ b ≤ 12)
    (h : fromMarch a = fromMarch b) : a = b := by
  unfold fromMarch at h
  split at h <;> split at h <;> omega

/-- The year is found again: the days of a later one come after all of it. -/
theorem marchYear_of_dayNumber {y z : Int} {m d n e : Nat} (hz : IsDate z n e)
    (h : dayNumber y m d = dayNumber z n e) : marchYear y m ≤ marchYear z n := by
  by_contra hlater
  have hlt := marchDay_lt hz
  have hsucc := marchDays_succ (marchYear z n)
  have hle : marchDays (marchYear z n + 1) ≤ marchDays (marchYear y m) := by
    rcases Int.lt_or_eq_of_le (show marchYear z n + 1 ≤ marchYear y m by omega) with hmore | heq
    · exact Int.le_of_lt (marchDays_lt hmore)
    · rw [heq]
  unfold dayNumber at h
  omega

/-- No two dates have one number. -/
theorem dayNumber_injective {y z : Int} {m d n e : Nat} (hy : IsDate y m d) (hz : IsDate z n e)
    (h : dayNumber y m d = dayNumber z n e) : y = z ∧ m = n ∧ d = e := by
  have hyear : marchYear y m = marchYear z n :=
    Int.le_antisymm (marchYear_of_dayNumber hz h) (marchYear_of_dayNumber hy h.symm)
  have hday : marchDay m d = marchDay n e := by
    unfold dayNumber at h
    rw [hyear] at h
    omega
  have hmonth : m = n := by
    refine fromMarch_injective ⟨hy.month_pos, hy.month_le⟩ ⟨hz.month_pos, hz.month_le⟩ ?_
    rw [← fromMarch_of_marchDay hy, hday, fromMarch_of_marchDay hz]
  subst hmonth
  have hpos := hy.day_pos
  have hpos' := hz.day_pos
  refine ⟨?_, rfl, ?_⟩
  · unfold marchYear at hyear
    split at hyear <;> omega
  · unfold marchDay at hday
    omega

end Gregorian
