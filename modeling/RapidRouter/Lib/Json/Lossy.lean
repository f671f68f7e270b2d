import RapidRouter.Lib.Json.Text

/-!
# Text of arbitrary bytes

What is not UTF-8 is replaced: of a sequence that breaks off, the longest part
that could have begun a character, else a single byte, by U+FFFD each. Text
comes through as it is (`lossy_utf8`).
-/

namespace Json

def isContinuation (c : UInt8) : Bool := 0x80 ≤ c && c ≤ 0xBF

/-- The second byte of a character of three bytes. -/
def isSecondOfThree (a b : UInt8) : Bool :=
  (a == 0xE0 && 0xA0 ≤ b && b ≤ 0xBF) || (0xE1 ≤ a && a ≤ 0xEC && isContinuation b) ||
    (a == 0xED && 0x80 ≤ b && b ≤ 0x9F) || (0xEE ≤ a && a ≤ 0xEF && isContinuation b)

/-- The second byte of a character of four. -/
def isSecondOfFour (a b : UInt8) : Bool :=
  (a == 0xF0 && 0x90 ≤ b && b ≤ 0xBF) || (0xF1 ≤ a && a ≤ 0xF3 && isContinuation b) ||
    (a == 0xF4 && 0x80 ≤ b && b ≤ 0x8F)

/-- U+FFFD. -/
def replacement : Bytes := [0xEF, 0xBF, 0xBD]

/-- `from_utf8_lossy`. -/
def lossy : Bytes → Bytes
  | [] => []
  | a :: rest =>
    if a < 0x80 then a :: lossy rest
    else if 0xC2 ≤ a && a ≤ 0xDF then
      match rest with
      | [] => replacement
      | b :: rest =>
        if isContinuation b then a :: b :: lossy rest else replacement ++ lossy (b :: rest)
    else if 0xE0 ≤ a && a ≤ 0xEF then
      match rest with
      | [] => replacement
      | b :: rest =>
        if isSecondOfThree a b then
          match rest with
          | [] => replacement
          | c :: rest =>
            if isContinuation c then a :: b :: c :: lossy rest
            else replacement ++ lossy (c :: rest)
        else replacement ++ lossy (b :: rest)
    else if 0xF0 ≤ a && a ≤ 0xF4 then
      match rest with
      | [] => replacement
      | b :: rest =>
        if isSecondOfFour a b then
          match rest with
          | [] => replacement
          | c :: rest =>
            if isContinuation c then
              match rest with
              | [] => replacement
              | d :: rest =>
                if isContinuation d then a :: b :: c :: d :: lossy rest
                else replacement ++ lossy (d :: rest)
            else replacement ++ lossy (c :: rest)
        else replacement ++ lossy (b :: rest)
    else replacement ++ lossy rest

section
variable {a b c d : UInt8} (rest : Bytes)

theorem lossy_one (ha : a < 0x80) : lossy (a :: rest) = a :: lossy rest := by
  rw [lossy.eq_def]
  exact if_pos ha

theorem lossy_two (ha : (0xC2 ≤ a && a ≤ 0xDF) = true) (hb : isContinuation b = true) :
    lossy (a :: b :: rest) = a :: b :: lossy rest := by
  have hone : ¬ a < 0x80 := by
    rw [Bool.and_eq_true, decide_eq_true_iff, UInt8.le_iff_toNat_le] at ha
    rw [UInt8.lt_iff_toNat_lt]
    have h80 : (0x80 : UInt8).toNat = 128 := rfl
    have hC2 : (0xC2 : UInt8).toNat = 194 := rfl
    omega
  rw [lossy.eq_def]
  dsimp only
  rw [if_neg hone, if_pos ha, if_pos hb]

theorem lossy_three (ha : (0xE0 ≤ a && a ≤ 0xEF) = true) (hb : isSecondOfThree a b = true)
    (hc : isContinuation c = true) : lossy (a :: b :: c :: rest) = a :: b :: c :: lossy rest := by
  have hshort : ¬ a < 0x80 ∧ ¬ (0xC2 ≤ a && a ≤ 0xDF) = true := by
    rw [Bool.and_eq_true, decide_eq_true_iff, UInt8.le_iff_toNat_le] at ha
    rw [UInt8.lt_iff_toNat_lt, Bool.and_eq_true, decide_eq_true_iff, decide_eq_true_iff,
      UInt8.le_iff_toNat_le, UInt8.le_iff_toNat_le]
    have h80 : (0x80 : UInt8).toNat = 128 := rfl
    have hDF : (0xDF : UInt8).toNat = 223 := rfl
    have hE0 : (0xE0 : UInt8).toNat = 224 := rfl
    omega
  rw [lossy.eq_def]
  dsimp only
  rw [if_neg hshort.1, if_neg hshort.2, if_pos ha, if_pos hb, if_pos hc]

theorem lossy_four (ha : (0xF0 ≤ a && a ≤ 0xF4) = true) (hb : isSecondOfFour a b = true)
    (hc : isContinuation c = true) (hd : isContinuation d = true) :
    lossy (a :: b :: c :: d :: rest) = a :: b :: c :: d :: lossy rest := by
  have hshort : ¬ a < 0x80 ∧ ¬ (0xC2 ≤ a && a ≤ 0xDF) = true ∧ ¬ (0xE0 ≤ a && a ≤ 0xEF) = true := by
    rw [Bool.and_eq_true, decide_eq_true_iff, UInt8.le_iff_toNat_le] at ha
    simp only [UInt8.lt_iff_toNat_lt, Bool.and_eq_true, decide_eq_true_iff,
      UInt8.le_iff_toNat_le]
    have h80 : (0x80 : UInt8).toNat = 128 := rfl
    have hDF : (0xDF : UInt8).toNat = 223 := rfl
    have hEF : (0xEF : UInt8).toNat = 239 := rfl
    have hF0 : (0xF0 : UInt8).toNat = 240 := rfl
    omega
  rw [lossy.eq_def]
  dsimp only
  rw [if_neg hshort.1, if_neg hshort.2.1, if_neg hshort.2.2, if_pos ha, if_pos hb, if_pos hc,
    if_pos hd]

end

/-! ## Text comes through -/

theorem between_ofNat {lo hi : UInt8} {n : Nat} (hn : n < 256) :
    (lo ≤ UInt8.ofNat n && UInt8.ofNat n ≤ hi) = true ↔ lo.toNat ≤ n ∧ n ≤ hi.toNat := by
  have hof : (UInt8.ofNat n).toNat = n := UInt8.toNat_ofNat_of_lt' hn
  rw [Bool.and_eq_true, decide_eq_true_iff, decide_eq_true_iff, UInt8.le_iff_toNat_le,
    UInt8.le_iff_toNat_le, hof]

theorem isContinuation_ofNat {n : Nat} (h : 0x80 ≤ n) (h' : n ≤ 0xBF) :
    isContinuation (UInt8.ofNat n) = true := (between_ofNat (by omega)).mpr ⟨h, h'⟩

theorem isSecondOfThree_ofNat {m n : Nat} (hm : 0xE0 ≤ m) (hm' : m ≤ 0xEF) (hn : 0x80 ≤ n)
    (hn' : n ≤ 0xBF) (hlow : m = 0xE0 → 0xA0 ≤ n) (hsurrogate : m = 0xED → n ≤ 0x9F) :
    isSecondOfThree (UInt8.ofNat m) (UInt8.ofNat n) = true := by
  have hm256 : m < 256 := by omega
  have hcont := isContinuation_ofNat hn hn'
  have hbetween : ∀ {lo hi : UInt8}, (lo ≤ UInt8.ofNat m && UInt8.ofNat m ≤ hi) = true ↔
      lo.toNat ≤ m ∧ m ≤ hi.toNat := between_ofNat hm256
  unfold isSecondOfThree
  rw [Bool.or_eq_true, Bool.or_eq_true, Bool.or_eq_true]
  rcases Nat.lt_or_ge m 0xE1 with h0 | h1
  · have he : m = 0xE0 := by omega
    refine Or.inl (Or.inl (Or.inl ?_))
    rw [Bool.and_assoc, Bool.and_eq_true]
    exact ⟨by rw [he]; rfl, (between_ofNat (by omega)).mpr ⟨hlow he, hn'⟩⟩
  · rcases Nat.lt_or_ge m 0xED with h2 | h3
    · refine Or.inl (Or.inl (Or.inr ?_))
      rw [Bool.and_eq_true]
      exact ⟨hbetween.mpr ⟨h1, Nat.le_of_lt_succ h2⟩, hcont⟩
    · rcases Nat.lt_or_ge m 0xEE with h4 | h5
      · have he : m = 0xED := by omega
        refine Or.inl (Or.inr ?_)
        rw [Bool.and_assoc, Bool.and_eq_true]
        exact ⟨by rw [he]; rfl, (between_ofNat (by omega)).mpr ⟨hn, hsurrogate he⟩⟩
      · refine Or.inr ?_
        rw [Bool.and_eq_true]
        exact ⟨hbetween.mpr ⟨h5, hm'⟩, hcont⟩

theorem isSecondOfFour_ofNat {m n : Nat} (hm : 0xF0 ≤ m) (hm' : m ≤ 0xF4) (hn : 0x80 ≤ n)
    (hn' : n ≤ 0xBF) (hlow : m = 0xF0 → 0x90 ≤ n) (hhigh : m = 0xF4 → n ≤ 0x8F) :
    isSecondOfFour (UInt8.ofNat m) (UInt8.ofNat n) = true := by
  have hcont := isContinuation_ofNat hn hn'
  unfold isSecondOfFour
  rw [Bool.or_eq_true, Bool.or_eq_true]
  rcases Nat.lt_or_ge m 0xF1 with h0 | h1
  · have he : m = 0xF0 := by omega
    refine Or.inl (Or.inl ?_)
    rw [Bool.and_assoc, Bool.and_eq_true]
    exact ⟨by rw [he]; rfl, (between_ofNat (by omega)).mpr ⟨hlow he, hn'⟩⟩
  · rcases Nat.lt_or_ge m 0xF4 with h2 | h3
    · refine Or.inl (Or.inr ?_)
      rw [Bool.and_eq_true]
      exact ⟨(between_ofNat (by omega)).mpr ⟨h1, Nat.le_of_lt_succ h2⟩, hcont⟩
    · have he : m = 0xF4 := by omega
      refine Or.inr ?_
      rw [Bool.and_assoc, Bool.and_eq_true]
      exact ⟨by rw [he]; rfl, (between_ofNat (by omega)).mpr ⟨hn, hhigh he⟩⟩

theorem lossy_char (c : Char) (rest : Bytes) :
    lossy (String.utf8EncodeChar c ++ rest) = String.utf8EncodeChar c ++ lossy rest := by
  have hvalid : c.val.toNat < 0xD800 ∨ (0xDFFF < c.val.toNat ∧ c.val.toNat < 0x110000) := c.valid
  unfold String.utf8EncodeChar
  dsimp only
  generalize c.val.toNat = v at hvalid
  split_ifs with h1 h2 h3
  · refine lossy_one rest ?_
    rw [UInt8.lt_iff_toNat_lt, UInt8.toNat_ofNat_of_lt' (show v < 256 by omega)]
    exact Nat.lt_succ_of_le h1
  · refine lossy_two rest ((between_ofNat (by omega)).mpr ?_) (isContinuation_ofNat (by omega) (by omega))
    show 194 ≤ v / 64 % 32 + 192 ∧ v / 64 % 32 + 192 ≤ 223
    omega
  · refine lossy_three rest ((between_ofNat (by omega)).mpr ?_) (isSecondOfThree_ofNat (by omega)
      (by omega) (by omega) (by omega) (by omega) (by omega)) (isContinuation_ofNat (by omega) (by omega))
    show 224 ≤ v / 4096 % 16 + 224 ∧ v / 4096 % 16 + 224 ≤ 239
    omega
  · refine lossy_four rest ((between_ofNat (by omega)).mpr ?_) (isSecondOfFour_ofNat (by omega)
      (by omega) (by omega) (by omega) (by omega) (by omega)) (isContinuation_ofNat (by omega) (by omega))
      (isContinuation_ofNat (by omega) (by omega))
    show 240 ≤ v / 262144 % 8 + 240 ∧ v / 262144 % 8 + 240 ≤ 244
    omega

/-- Text is what it was. -/
theorem lossy_utf8 (s : String) : lossy (utf8 s) = utf8 s := by
  rw [utf8_eq]
  induction s.toList with
  | nil => rfl
  | cons c l ih => rw [List.flatMap_cons, lossy_char, ih]

end Json
