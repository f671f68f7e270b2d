import Mathlib.Algebra.Order.Floor.Ring
import Mathlib.Algebra.Order.Field.Power
import Mathlib.Data.Int.Log
import Mathlib.Data.Rat.Floor
import Mathlib.Tactic.Linarith
import Mathlib.Tactic.NormNum
import Mathlib.Tactic.Ring

/-!
# Rounding to binary64

A rational number rounded to 53 bits, to even where it is between two, with the least
exponent that a double has and no greatest. A power of two is reached from half a unit
below it on (`zpow_le_nearest_iff`); the next power after the largest double is where a
double is infinite.
-/

namespace RapidRouter.Binary64

/-! ## To an integer -/

/-- The nearest integer, the even one of two. -/
def roundEven (x : ℚ) : ℤ :=
  if x - ⌊x⌋ < 1 / 2 then ⌊x⌋
  else if 1 / 2 < x - ⌊x⌋ then ⌊x⌋ + 1
  else if ⌊x⌋ % 2 = 0 then ⌊x⌋
  else ⌊x⌋ + 1

theorem roundEven_eq (x : ℚ) : roundEven x = ⌊x⌋ ∨ roundEven x = ⌊x⌋ + 1 := by
  unfold roundEven
  split_ifs
  · exact .inl rfl
  · exact .inr rfl
  · exact .inl rfl
  · exact .inr rfl

theorem le_roundEven {n : ℤ} {x : ℚ} (h : n ≤ x) : n ≤ roundEven x := by
  have hfloor := Int.le_floor.mpr h
  rcases roundEven_eq x with heq | heq
  · omega
  · omega

theorem roundEven_le {n : ℤ} {x : ℚ} (h : x ≤ n) : roundEven x ≤ n := by
  by_cases hlt : x < n
  · have hfloor := Int.floor_lt.mpr hlt
    rcases roundEven_eq x with heq | heq
    · omega
    · omega
  · have hx : x = n := le_antisymm h (not_lt.mp hlt)
    subst hx
    unfold roundEven
    rw [Int.floor_intCast, sub_self, if_pos (by norm_num)]

/-- An even number is reached from half below it on. -/
theorem le_roundEven_iff {n : ℤ} (hn : n % 2 = 0) (x : ℚ) :
    n ≤ roundEven x ↔ (n : ℚ) - 1 / 2 ≤ x := by
  have hlow := Int.floor_le x
  have hhigh := Int.lt_floor_add_one x
  by_cases hfloor : n ≤ ⌊x⌋
  · have hx : (n : ℚ) ≤ x := Int.le_floor.mp hfloor
    exact iff_of_true (le_roundEven hx) (by linarith)
  by_cases hnext : ⌊x⌋ + 1 = n
  · -- The number below is odd, so half way counts as above.
    have hcast : (n : ℚ) = ⌊x⌋ + 1 := by
      rw [← hnext]
      push_cast
      ring
    unfold roundEven
    split_ifs with hbelow habove heven
    · exact iff_of_false (by omega) (by linarith)
    · exact iff_of_true (by omega) (by linarith)
    · omega
    · exact iff_of_true (by omega) (by linarith)
  · have hfar : ⌊x⌋ + 2 ≤ n := by omega
    have hcast : (⌊x⌋ : ℚ) + 2 ≤ n := by exact_mod_cast hfar
    refine iff_of_false ?_ (by linarith)
    rcases roundEven_eq x with heq | heq
    · omega
    · omega

/-! ## To 53 bits -/

/-- The exponent of the unit in which a number is rounded. -/
def unit (q : ℚ) : ℤ := max (Int.log 2 |q| - 52) (-1074)

def nearest (q : ℚ) : ℚ := roundEven (q / 2 ^ unit q) * 2 ^ unit q

theorem zpow_pos (e : ℤ) : (0 : ℚ) < 2 ^ e := by positivity

theorem zpow_mono {a b : ℤ} (h : a ≤ b) : (2 : ℚ) ^ a ≤ 2 ^ b :=
  zpow_le_zpow_right₀ (by norm_num) h

/-- A power of two that is a whole number of units. -/
theorem zpow_div {k e : ℤ} (h : e ≤ k) :
    ((2 ^ (k - e).toNat : ℤ) : ℚ) = 2 ^ k / 2 ^ e := by
  rw [← zpow_sub₀ (by norm_num), Int.cast_pow, ← zpow_natCast, Int.toNat_of_nonneg (by omega)]
  norm_num

theorem zpow_le_nearest {k : ℤ} {q : ℚ} (hunit : unit q ≤ k) (h : 2 ^ k ≤ q) : 2 ^ k ≤ nearest q := by
  have hle : ((2 ^ (k - unit q).toNat : ℤ) : ℚ) ≤ q / 2 ^ unit q := by
    rw [zpow_div hunit]
    exact div_le_div_of_nonneg_right h (zpow_pos _).le
  have hround := le_roundEven hle
  have hcast : ((2 ^ (k - unit q).toNat : ℤ) : ℚ) ≤ roundEven (q / 2 ^ unit q) := by
    exact_mod_cast hround
  rw [zpow_div hunit, div_le_iff₀ (zpow_pos _)] at hcast
  exact hcast

theorem nearest_le_zpow {k : ℤ} {q : ℚ} (hunit : unit q ≤ k) (h : q ≤ 2 ^ k) : nearest q ≤ 2 ^ k := by
  have hle : q / 2 ^ unit q ≤ ((2 ^ (k - unit q).toNat : ℤ) : ℚ) := by
    rw [zpow_div hunit]
    exact div_le_div_of_nonneg_right h (zpow_pos _).le
  have hround := roundEven_le hle
  have hcast : (roundEven (q / 2 ^ unit q) : ℚ) ≤ ((2 ^ (k - unit q).toNat : ℤ) : ℚ) := by
    exact_mod_cast hround
  rw [zpow_div hunit, le_div_iff₀ (zpow_pos _)] at hcast
  exact hcast

theorem nearest_nonpos {q : ℚ} (h : q ≤ 0) : nearest q ≤ 0 := by
  have hle : q / 2 ^ unit q ≤ ((0 : ℤ) : ℚ) := by
    rw [Int.cast_zero]
    exact div_nonpos_of_nonpos_of_nonneg h (zpow_pos _).le
  have hcast : (roundEven (q / 2 ^ unit q) : ℚ) ≤ 0 := by exact_mod_cast roundEven_le hle
  exact mul_nonpos_of_nonpos_of_nonneg hcast (zpow_pos _).le

theorem nearest_nonneg {q : ℚ} (h : 0 ≤ q) : 0 ≤ nearest q := by
  have hle : ((0 : ℤ) : ℚ) ≤ q / 2 ^ unit q := by
    rw [Int.cast_zero]
    exact div_nonneg h (zpow_pos _).le
  have hcast : (0 : ℚ) ≤ roundEven (q / 2 ^ unit q) := by exact_mod_cast le_roundEven hle
  exact mul_nonneg hcast (zpow_pos _).le

/-- A whole number, in units of at most one. -/
theorem int_div_unit {q : ℚ} (hunit : unit q ≤ 0) (z : ℤ) :
    ((z * 2 ^ (-unit q).toNat : ℤ) : ℚ) = z / 2 ^ unit q := by
  have hpow := zpow_div hunit
  rw [zero_sub, zpow_zero] at hpow
  rw [Int.cast_mul, hpow, mul_one_div]

theorem nearest_le_int {q : ℚ} (hunit : unit q ≤ 0) {z : ℤ} (h : q ≤ z) : nearest q ≤ z := by
  have hle : q / 2 ^ unit q ≤ ((z * 2 ^ (-unit q).toNat : ℤ) : ℚ) := by
    rw [int_div_unit hunit]
    exact div_le_div_of_nonneg_right h (zpow_pos _).le
  have hcast : (roundEven (q / 2 ^ unit q) : ℚ) ≤ ((z * 2 ^ (-unit q).toNat : ℤ) : ℚ) := by
    exact_mod_cast roundEven_le hle
  rw [int_div_unit hunit, le_div_iff₀ (zpow_pos _)] at hcast
  exact hcast

theorem int_le_nearest {q : ℚ} (hunit : unit q ≤ 0) {z : ℤ} (h : z ≤ q) : z ≤ nearest q := by
  have hle : ((z * 2 ^ (-unit q).toNat : ℤ) : ℚ) ≤ q / 2 ^ unit q := by
    rw [int_div_unit hunit]
    exact div_le_div_of_nonneg_right h (zpow_pos _).le
  have hcast : ((z * 2 ^ (-unit q).toNat : ℤ) : ℚ) ≤ roundEven (q / 2 ^ unit q) := by
    exact_mod_cast le_roundEven hle
  rw [int_div_unit hunit, div_le_iff₀ (zpow_pos _)] at hcast
  exact hcast

theorem unit_le {q : ℚ} (hq : 0 < q) {k : ℤ} (hk : -1021 ≤ k) (h : q < 2 ^ k) :
    unit q ≤ k - 53 := by
  have hlog : Int.log 2 q < k := (Int.lt_zpow_iff_log_lt (by norm_num) hq).mp (by exact_mod_cast h)
  unfold unit
  rw [abs_of_pos hq]
  omega

/-- The whole numbers of 53 bits are doubles. -/
theorem nearest_natCast {n : Nat} (h : n < 2 ^ 53) : nearest n = n := by
  by_cases hzero : n = 0
  · subst hzero
    exact le_antisymm (nearest_nonpos (by norm_num)) (nearest_nonneg (by norm_num))
  · have hunit : unit (n : ℚ) ≤ 0 := by
      have hle := unit_le (k := 53) (show (0 : ℚ) < n by exact_mod_cast Nat.pos_of_ne_zero hzero)
        (by norm_num) (by exact_mod_cast h)
      omega
    have hcast : ((n : ℤ) : ℚ) = n := Int.cast_natCast n
    refine le_antisymm ?_ ?_
    · rw [← hcast] at hunit ⊢
      exact nearest_le_int hunit le_rfl
    · rw [← hcast] at hunit ⊢
      exact int_le_nearest hunit le_rfl

theorem abs_roundEven_sub_le (x : ℚ) : |(roundEven x : ℚ) - x| ≤ 1 / 2 := by
  have hlow := Int.floor_le x
  have hhigh := Int.lt_floor_add_one x
  unfold roundEven
  rw [abs_le]
  split_ifs <;> push_cast <;> constructor <;> linarith

/-- Rounding moves a number by half a unit at most. -/
theorem abs_nearest_sub_le (q : ℚ) : |nearest q - q| ≤ 2 ^ unit q / 2 := by
  have hscaled : nearest q - q = (roundEven (q / 2 ^ unit q) - q / 2 ^ unit q) * 2 ^ unit q := by
    unfold nearest
    rw [sub_mul, div_mul_cancel₀ _ (zpow_pos _).ne']
  calc |nearest q - q| = |(roundEven (q / 2 ^ unit q) : ℚ) - q / 2 ^ unit q| * 2 ^ unit q := by
        rw [hscaled, abs_mul, abs_of_pos (zpow_pos _)]
    _ ≤ 1 / 2 * 2 ^ unit q := mul_le_mul_of_nonneg_right (abs_roundEven_sub_le _) (zpow_pos _).le
    _ = 2 ^ unit q / 2 := by ring

/-- Below a power of two a number moves by `2 ^ (k - 54)` at most. -/
theorem abs_nearest_sub_le_of_lt {q : ℚ} (hq : 0 < q) {k : ℤ} (hk : -1021 ≤ k) (h : q < 2 ^ k) :
    |nearest q - q| ≤ 2 ^ (k - 54) := by
  have hpow : (2 : ℚ) ^ unit q ≤ 2 ^ (k - 53) := zpow_mono (unit_le hq hk h)
  have hhalf : (2 : ℚ) ^ (k - 53) = 2 ^ (k - 54) * 2 := by
    rw [← zpow_add_one₀ (by norm_num)]
    congr 1
    ring
  have herror := abs_nearest_sub_le q
  linarith

/-- Half a unit below a power of two, in the units below it. -/
theorem half_unit_below (k : ℤ) : (2 : ℚ) ^ k - 2 ^ (k - 54) = (2 ^ 53 - 1 / 2) * 2 ^ (k - 53) := by
  have hk : (2 : ℚ) ^ k = 2 ^ (53 : ℤ) * 2 ^ (k - 53) := by
    rw [← zpow_add₀ (by norm_num)]
    congr 1
    ring
  have hhalf : (2 : ℚ) ^ (k - 54) = 2 ^ (-1 : ℤ) * 2 ^ (k - 53) := by
    rw [← zpow_add₀ (by norm_num)]
    congr 1
    ring
  rw [hk, hhalf]
  norm_num
  ring

theorem half_below (k : ℤ) : (2 : ℚ) ^ (k - 1) ≤ 2 ^ k - 2 ^ (k - 54) := by
  have hdouble : (2 : ℚ) ^ k = 2 ^ (k - 1) + 2 ^ (k - 1) := by
    rw [← two_mul, ← zpow_one_add₀ (by norm_num)]
    congr 1
    ring
  have hsmall : (2 : ℚ) ^ (k - 54) ≤ 2 ^ (k - 1) := zpow_mono (by omega)
  linarith

/-- **Where a power of two is reached**: from half a unit below it on, what is half way
being rounded to it. -/
theorem zpow_le_nearest_iff {k : ℤ} (hk : -1021 ≤ k) (q : ℚ) :
    2 ^ k ≤ nearest q ↔ 2 ^ k - 2 ^ (k - 54) ≤ q := by
  have hbelow := half_below k
  by_cases hq : q ≤ 0
  · have hpos := zpow_pos (k - 1)
    have hpow := zpow_pos k
    have hround := nearest_nonpos hq
    exact iff_of_false (by linarith) (by linarith)
  have hqpos : 0 < q := not_le.mp hq
  have hlow : (2 : ℚ) ^ Int.log 2 q ≤ q := by
    exact_mod_cast Int.zpow_log_le_self (by norm_num : 1 < 2) hqpos
  have hhigh : q < (2 : ℚ) ^ (Int.log 2 q + 1) := by
    exact_mod_cast Int.lt_zpow_succ_log_self (by norm_num : 1 < 2) q
  have hunit : unit q = max (Int.log 2 q - 52) (-1074) := by
    unfold unit
    rw [abs_of_pos hqpos]
  generalize Int.log 2 q = l at hlow hhigh hunit
  rcases lt_trichotomy k (l + 1) with hlt | heq | hgt
  · -- The number is at least the power, in units that divide it.
    have hreach : (2 : ℚ) ^ l ≤ nearest q := zpow_le_nearest (by omega) hlow
    have hpow : (2 : ℚ) ^ k ≤ 2 ^ l := zpow_mono (by omega)
    have hless := zpow_pos (k - 54)
    exact iff_of_true (by linarith) (by linarith)
  · -- The last numbers before the power.
    have hexp : unit q = k - 53 := by omega
    have hpower : (2 : ℚ) ^ k = ((2 ^ 53 : ℤ) : ℚ) * 2 ^ (k - 53) := by
      have hunits := zpow_div (show k - 53 ≤ k by omega)
      have hbits : (k - (k - 53)).toNat = 53 := by omega
      rw [hbits] at hunits
      rw [hunits, div_mul_cancel₀ _ (zpow_pos _).ne']
    have hhalf := half_unit_below k
    unfold nearest
    rw [hexp, hhalf, hpower, mul_le_mul_iff_left₀ (zpow_pos _), Int.cast_le,
      le_roundEven_iff (by norm_num), le_div_iff₀ (zpow_pos _)]
    norm_num
  · -- The number is below half of the power.
    have hless : q < 2 ^ (k - 1) := lt_of_lt_of_le hhigh (zpow_mono (by omega))
    have hround : nearest q ≤ 2 ^ (k - 1) := nearest_le_zpow (by omega) hless.le
    have hpow : (2 : ℚ) ^ (k - 1) < 2 ^ k := zpow_lt_zpow_right₀ (by norm_num) (by omega)
    exact iff_of_false (by linarith) (by linarith)

/-! ## Doubles -/

/-- A double, zero without its sign. -/
inductive F64 where
  | finite (q : ℚ)
  | inf (neg : Bool)
  | nan

namespace F64

/-- The double nearest to a number. -/
def ofRat (q : ℚ) : F64 := if 2 ^ (1024 : ℤ) ≤ nearest |q| then inf (q < 0) else finite (nearest q)

def isFinite : F64 → Bool
  | finite _ => true
  | _ => false

/-- The other where one is not a number. -/
def max : F64 → F64 → F64
  | finite a, finite b => finite (Max.max a b)
  | inf false, _ | _, inf false => inf false
  | inf true, b => b
  | a, inf true => a
  | nan, b => b
  | a, nan => a

def sub : F64 → F64 → F64
  | finite a, finite b => ofRat (a - b)
  | finite _, inf neg => inf (!neg)
  | inf neg, finite _ => inf neg
  | inf neg, inf neg' => if neg = neg' then nan else inf neg
  | _, _ => nan

/-- By a number that is not zero. -/
def divRat (a : F64) (b : ℚ) : F64 :=
  match a with
  | finite a => ofRat (a / b)
  | inf neg => inf (if b < 0 then !neg else neg)
  | nan => nan

def geRat (a : F64) (b : ℚ) : Bool :=
  match a with
  | finite a => b ≤ a
  | inf neg => !neg
  | nan => false

end F64

/-- Doubles are infinite from here on. -/
def infinite (q : ℚ) : Prop := 2 ^ (1024 : ℤ) - 2 ^ (970 : ℤ) ≤ q

instance (q : ℚ) : Decidable (infinite q) := inferInstanceAs (Decidable (_ ≤ _))

theorem infinite_iff (q : ℚ) : infinite q ↔ 2 ^ (1024 : ℤ) ≤ nearest q :=
  (zpow_le_nearest_iff (by norm_num) q).symm

theorem ofRat_infinite {q : ℚ} (h : infinite |q|) : F64.ofRat q = .inf (q < 0) :=
  if_pos ((infinite_iff _).mp h)

theorem ofRat_finite {q : ℚ} (h : ¬ infinite |q|) : F64.ofRat q = .finite (nearest q) :=
  if_neg fun hle => h ((infinite_iff _).mpr hle)

theorem not_infinite_of_lt {q : ℚ} (h : q < 2 ^ (1023 : ℤ)) : ¬ infinite q := by
  intro hinf
  exact absurd ((half_below 1024).trans hinf) (not_le.mpr h)

end RapidRouter.Binary64
