import Mathlib.Data.List.Lex
import Mathlib.Tactic.Ring

/-!
# Decimal numbers of a fixed width

What a string of digits is worth (`Nat.ofDigitChars 10`), and numbers written with zeros
in front. Of two strings of one width the one that comes first is worth less
(`lt_of_value_lt`), so numbers written to one width are in the order of strings
(`padded_lt`).
-/

namespace Decimal

def AllDigits (cs : List Char) : Prop := ∀ c ∈ cs, c.isDigit = true

instance (cs : List Char) : Decidable (AllDigits cs) :=
  decidable_of_iff (cs.all Char.isDigit = true) List.all_eq_true

theorem AllDigits.tail {c : Char} {cs : List Char} (h : AllDigits (c :: cs)) : AllDigits cs :=
  fun d hd => h d (List.mem_cons_of_mem c hd)

theorem AllDigits.append {as bs : List Char} (ha : AllDigits as) (hb : AllDigits bs) :
    AllDigits (as ++ bs) := by
  intro c hc
  rcases List.mem_append.mp hc with hc | hc
  · exact ha c hc
  · exact hb c hc

/-- What one digit is worth. -/
def digitValue (c : Char) : Nat := c.toNat - '0'.toNat

theorem digitValue_le {c : Char} (h : c.isDigit = true) : digitValue c ≤ 9 ∧ 48 ≤ c.toNat := by
  unfold Char.isDigit at h
  simp only [ge_iff_le, Bool.and_eq_true, decide_eq_true_eq] at h
  obtain ⟨hlow, hhigh⟩ := h
  have hlow' : 48 ≤ c.toNat := hlow
  have hhigh' : c.toNat ≤ 57 := hhigh
  refine ⟨?_, hlow'⟩
  show c.toNat - 48 ≤ 9
  omega

theorem ofDigits_cons (c : Char) (cs : List Char) (n : Nat) :
    Nat.ofDigitChars 10 (c :: cs) n = Nat.ofDigitChars 10 cs (10 * n + digitValue c) :=
  Nat.ofDigitChars_cons

theorem le_ofDigits (cs : List Char) (n : Nat) :
    n * 10 ^ cs.length ≤ Nat.ofDigitChars 10 cs n := by
  induction cs generalizing n with
  | nil => simp
  | cons c cs ih =>
    have hrest := ih (10 * n + digitValue c)
    have hhead : 10 * n * 10 ^ cs.length ≤ (10 * n + digitValue c) * 10 ^ cs.length :=
      Nat.mul_le_mul_right _ (Nat.le_add_right _ _)
    rw [ofDigits_cons, List.length_cons, pow_succ', ← Nat.mul_assoc, Nat.mul_comm n 10]
    exact Nat.le_trans hhead hrest

theorem ofDigits_lt {cs : List Char} (h : AllDigits cs) (n : Nat) :
    Nat.ofDigitChars 10 cs n < (n + 1) * 10 ^ cs.length := by
  induction cs generalizing n with
  | nil => simp
  | cons c cs ih =>
    have hrest := ih h.tail (10 * n + digitValue c)
    have hdigit := (digitValue_le (h c List.mem_cons_self)).1
    have hhead : (10 * n + digitValue c + 1) * 10 ^ cs.length ≤
        10 * (n + 1) * 10 ^ cs.length := Nat.mul_le_mul_right _ (by omega)
    rw [ofDigits_cons, List.length_cons, pow_succ', ← Nat.mul_assoc, Nat.mul_comm (n + 1) 10]
    exact Nat.lt_of_lt_of_le hrest hhead

theorem value_lt {cs : List Char} (h : AllDigits cs) :
    Nat.ofDigitChars 10 cs 0 < 10 ^ cs.length := by
  have hlt := ofDigits_lt h 0
  rwa [Nat.zero_add, Nat.one_mul] at hlt

/-- What comes first in the digits decides. -/
theorem ofDigits_lt_of_lt {as bs : List Char} (ha : AllDigits as)
    (hlength : as.length = bs.length) {m n : Nat} (h : m < n) :
    Nat.ofDigitChars 10 as m < Nat.ofDigitChars 10 bs n := by
  have hhead : (m + 1) * 10 ^ as.length ≤ n * 10 ^ as.length := Nat.mul_le_mul_right _ h
  refine Nat.lt_of_lt_of_le (ofDigits_lt ha m) (Nat.le_trans hhead ?_)
  rw [hlength]
  exact le_ofDigits bs n

theorem lt_of_ofDigits_lt {as bs : List Char} (ha : AllDigits as) (hb : AllDigits bs)
    (hlength : as.length = bs.length) {n : Nat}
    (h : Nat.ofDigitChars 10 as n < Nat.ofDigitChars 10 bs n) : as < bs := by
  induction as generalizing bs n with
  | nil =>
    rw [List.length_eq_zero_iff.mp hlength.symm] at h
    exact absurd h (Nat.lt_irrefl _)
  | cons a as ih =>
    cases bs with
    | nil => cases hlength
    | cons b bs =>
      have hlength' : as.length = bs.length := Nat.succ.inj hlength
      rw [ofDigits_cons, ofDigits_cons] at h
      have hlow := (digitValue_le (ha a List.mem_cons_self)).2
      have hlow' := (digitValue_le (hb b List.mem_cons_self)).2
      rcases Nat.lt_trichotomy a.toNat b.toNat with hless | heq | hmore
      · exact List.Lex.rel hless
      · obtain rfl : a = b := Char.toNat_inj.mp heq
        exact List.Lex.cons (ih ha.tail hb.tail hlength' h)
      · have hvalue : digitValue b < digitValue a := by
          show b.toNat - 48 < a.toNat - 48
          omega
        have hback := ofDigits_lt_of_lt hb.tail hlength'.symm
          (show 10 * n + digitValue b < 10 * n + digitValue a by omega)
        omega

/-- Strings of one width are in the order of what they are worth. -/
theorem lt_of_value_lt {as bs : List Char} (ha : AllDigits as) (hb : AllDigits bs)
    (hlength : as.length = bs.length)
    (h : Nat.ofDigitChars 10 as 0 < Nat.ofDigitChars 10 bs 0) : as < bs :=
  lt_of_ofDigits_lt ha hb hlength h

/-- Digits one after the other. -/
theorem value_append (as bs : List Char) :
    Nat.ofDigitChars 10 (as ++ bs) 0 =
      Nat.ofDigitChars 10 as 0 * 10 ^ bs.length + Nat.ofDigitChars 10 bs 0 := by
  rw [Nat.ofDigitChars_append, Nat.ofDigitChars_eq_ofDigitChars_zero, Nat.mul_comm]

/-- The first digits of a fraction, with zeros behind where it has too few: it is cut to as
many places. -/
theorem value_places {cs : List Char} (h : AllDigits cs) (places : Nat) :
    Nat.ofDigitChars 10 (cs.take places ++ List.replicate (places - (cs.take places).length) '0')
      0 = Nat.ofDigitChars 10 cs 0 * 10 ^ places / 10 ^ cs.length := by
  rw [Nat.ofDigitChars_append, Nat.ofDigitChars_replicate_zero, List.length_take]
  by_cases hle : cs.length ≤ places
  · have hsplit : 10 ^ places = 10 ^ (places - cs.length) * 10 ^ cs.length := by
      rw [← pow_add, Nat.sub_add_cancel hle]
    rw [List.take_of_length_le hle, Nat.min_eq_right hle, hsplit, ← Nat.mul_assoc,
      Nat.mul_div_cancel _ (Nat.pow_pos (by decide)), Nat.mul_comm]
  · -- What is behind the places is worth less than one of them.
    have hwhole := value_append (cs.take places) (cs.drop places)
    rw [List.take_append_drop, List.length_drop] at hwhole
    have hrest : Nat.ofDigitChars 10 (cs.drop places) 0 < 10 ^ (cs.length - places) := by
      have hlt := value_lt (fun c hc => h c (List.mem_of_mem_drop hc) : AllDigits (cs.drop places))
      rwa [List.length_drop] at hlt
    have hsplit : 10 ^ cs.length = 10 ^ (cs.length - places) * 10 ^ places := by
      rw [← pow_add, Nat.sub_add_cancel (by omega)]
    rw [Nat.min_eq_left (by omega), Nat.sub_self, Nat.pow_zero, Nat.one_mul, hsplit,
      Nat.mul_div_mul_right _ _ (Nat.pow_pos (by decide)), hwhole, Nat.add_comm,
      Nat.add_mul_div_right _ _ (Nat.pow_pos (by decide)), Nat.div_eq_of_lt hrest, Nat.zero_add]

/-! ## Zeros in front -/

/-- A number in at least so many digits. -/
def padded (width n : Nat) : List Char :=
  List.replicate (width - (Nat.toDigits 10 n).length) '0' ++ Nat.toDigits 10 n

theorem allDigits_toDigits (n : Nat) : AllDigits (Nat.toDigits 10 n) :=
  fun _ hc => Nat.isDigit_of_mem_toDigits (by decide) (by decide) hc

theorem allDigits_padded (width n : Nat) : AllDigits (padded width n) := by
  refine AllDigits.append (fun c hc => ?_) (allDigits_toDigits n)
  rw [List.eq_of_mem_replicate hc]
  decide

@[simp] theorem value_padded (width n : Nat) : Nat.ofDigitChars 10 (padded width n) 0 = n := by
  unfold padded
  rw [Nat.ofDigitChars_append, Nat.ofDigitChars_replicate_zero, Nat.mul_zero,
    Nat.ofDigitChars_ten_toDigits]

theorem padded_injective {width : Nat} {m n : Nat} (h : padded width m = padded width n) :
    m = n := by
  rw [← value_padded width m, h, value_padded]

theorem length_padded {width n : Nat} (hwidth : 0 < width) (h : n < 10 ^ width) :
    (padded width n).length = width := by
  have hle := (Nat.length_toDigits_le_iff (b := 10) (n := n) (by decide) hwidth).mpr h
  unfold padded
  rw [List.length_append, List.length_replicate]
  omega

theorem padded_lt {width m n : Nat} (hwidth : 0 < width) (h : m < n) (hn : n < 10 ^ width) :
    padded width m < padded width n := by
  refine lt_of_value_lt (allDigits_padded _ _) (allDigits_padded _ _) ?_ ?_
  · rw [length_padded hwidth (Nat.lt_trans h hn), length_padded hwidth hn]
  · rw [value_padded, value_padded]
    exact h

/-! ## Lists in order -/

/-- Lists of one length that differ stay in order, whatever comes after them. -/
theorem append_lt_append {as bs cs ds : List Char} (hlength : as.length = bs.length)
    (h : as < bs) : as ++ cs < bs ++ ds := by
  induction as generalizing bs with
  | nil =>
    rw [List.length_eq_zero_iff.mp hlength.symm] at h
    exact absurd h (List.lt_irrefl _)
  | cons a as ih =>
    cases bs with
    | nil => cases hlength
    | cons b bs =>
      rcases List.cons_lt_cons_iff.mp h with hless | ⟨rfl, hrest⟩
      · exact List.cons_lt_cons_iff.mpr (Or.inl hless)
      · exact List.cons_lt_cons_iff.mpr (Or.inr ⟨rfl, ih (Nat.succ.inj hlength) hrest⟩)

theorem append_lt_append_left (as : List Char) {bs cs : List Char} (h : bs < cs) :
    as ++ bs < as ++ cs := by
  induction as with
  | nil => exact h
  | cons a as ih => exact List.cons_lt_cons_iff.mpr (Or.inr ⟨rfl, ih⟩)

end Decimal
