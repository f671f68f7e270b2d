import RapidRouter.Lib.Json.Print

/-!
# Printed JSON as text

What a program that handles a printed value as text relies on: it is text
(`isText_print`), on one line (`le_of_mem_print`), and the name of every
member is written in it (`printString_infix`).
-/

namespace Json

theorem utf8_ofList (l : List Char) :
    utf8 (String.ofList l) = l.flatMap String.utf8EncodeChar := by
  unfold utf8
  rw [String.toByteArray_ofList, List.utf8Encode, List.data_toByteArray]

theorem utf8_eq (s : String) : utf8 s = s.toList.flatMap String.utf8EncodeChar := by
  conv_lhs => rw [← String.ofList_toList (s := s)]
  exact utf8_ofList s.toList

/-! ## Text -/

def IsText (b : Bytes) : Prop := ∃ s, b = utf8 s

theorem IsText.fromUtf8 {b : Bytes} (h : IsText b) : (fromUtf8? b).isSome = true := by
  obtain ⟨s, rfl⟩ := h
  rw [fromUtf8?_utf8]
  rfl

theorem isText_nil : IsText [] := ⟨"", rfl⟩

theorem IsText.append {a b : Bytes} (ha : IsText a) (hb : IsText b) : IsText (a ++ b) := by
  obtain ⟨s, rfl⟩ := ha
  obtain ⟨t, rfl⟩ := hb
  exact ⟨s ++ t, (utf8_append s t).symm⟩

theorem IsText.flatMap {α : Type} {f : α → Bytes} {l : List α} (h : ∀ a ∈ l, IsText (f a)) :
    IsText (l.flatMap f) := by
  induction l with
  | nil => exact isText_nil
  | cons a l ih =>
    rw [List.flatMap_cons]
    exact (h a List.mem_cons_self).append (ih fun b hb => h b (List.mem_cons_of_mem _ hb))

theorem isText_utf8EncodeChar (c : Char) : IsText (String.utf8EncodeChar c) := by
  refine ⟨String.ofList [c], ?_⟩
  rw [utf8_ofList, List.flatMap_singleton]

theorem isText_byte {c : UInt8} (h : c.toNat < 0x80) : IsText [c] := by
  have hvalid : c.toNat.isValidChar := Or.inl (by omega)
  refine ⟨String.ofList [Char.ofNat c.toNat], ?_⟩
  have hval : (Char.ofNat c.toNat).val.toNat = c.toNat := by
    unfold Char.ofNat
    rw [dif_pos hvalid]
    rfl
  rw [utf8_ofList, List.flatMap_singleton]
  unfold String.utf8EncodeChar
  dsimp only
  rw [hval, if_pos (by omega), UInt8.ofNat_toNat]

theorem isText_ascii {b : Bytes} (h : ∀ c ∈ b, c.toNat < 0x80) : IsText b := by
  have := IsText.flatMap (f := fun c => [c]) fun c hc => isText_byte (h c hc)
  rwa [List.flatMap_singleton'] at this

theorem IsText.cons {c : UInt8} {b : Bytes} (hc : c.toNat < 0x80) (hb : IsText b) :
    IsText (c :: b) :=
  (isText_byte hc).append hb

theorem isText_of_fromUtf8 {b : Bytes} (h : (fromUtf8? b).isSome = true) : IsText b := by
  obtain ⟨s, hs⟩ := Option.isSome_iff_exists.mp h
  refine ⟨s, ?_⟩
  unfold fromUtf8? String.fromUTF8? at hs
  split at hs
  · cases hs
    show b = b.toByteArray.data.toList
    rw [List.data_toByteArray]
  · cases hs

/-! ## Strings -/

theorem le_of_mem_utf8EncodeChar {c : Char} (h : 0x7f < c.val.toNat) {b : UInt8}
    (hb : b ∈ String.utf8EncodeChar c) : 0x80 ≤ b.toNat := by
  have hbyte : ∀ n, 0x80 ≤ n → n < 256 → 0x80 ≤ (UInt8.ofNat n).toNat := by
    intro n h1 h2
    rw [UInt8.toNat_ofNat_of_lt' h2]
    exact h1
  unfold String.utf8EncodeChar at hb
  dsimp only at hb
  rw [if_neg (by omega)] at hb
  have hlt := c.val.toNat_lt
  split_ifs at hb <;> simp only [List.mem_cons, List.not_mem_nil, or_false] at hb
  · rcases hb with rfl | rfl <;> exact hbyte _ (by omega) (by omega)
  · rcases hb with rfl | rfl | rfl <;> exact hbyte _ (by omega) (by omega)
  · rcases hb with rfl | rfl | rfl | rfl <;> exact hbyte _ (by omega) (by omega)

/-- Text may be cut before any ASCII byte. -/
theorem IsText.of_append {a b : Bytes} {c : UInt8} (hc : c.toNat < 0x80)
    (h : IsText (a ++ c :: b)) : IsText a := by
  obtain ⟨s, hs⟩ := h
  rw [utf8_eq] at hs
  generalize s.toList = l at hs
  induction l generalizing a with
  | nil => simp at hs
  | cons x l ih =>
    rw [List.flatMap_cons, List.append_eq_append_iff] at hs
    rcases hs with ⟨m, hm, hrest⟩ | ⟨m, rfl, hrest⟩
    · cases m with
      | nil =>
        rw [List.append_nil] at hm
        rw [← hm]
        exact isText_utf8EncodeChar x
      | cons d m =>
        -- the ASCII byte is inside a character, so it is all of it
        rw [List.cons_append, List.cons.injEq] at hrest
        obtain ⟨rfl, -⟩ := hrest
        by_cases hx : x.val.toNat ≤ 0x7f
        · have hlength : (String.utf8EncodeChar x).length = 1 := by
            unfold String.utf8EncodeChar
            dsimp only
            rw [if_pos hx]
            rfl
          rw [hm, List.length_append, List.length_cons] at hlength
          have hnil : a = [] := List.length_eq_zero_iff.mp (by omega)
          rw [hnil]
          exact isText_nil
        · have hmem : c ∈ String.utf8EncodeChar x := by
            rw [hm]
            exact List.mem_append_right _ List.mem_cons_self
          have hle := le_of_mem_utf8EncodeChar (by omega) hmem
          omega
    · exact (isText_utf8EncodeChar x).append (ih hrest.symm)

theorem escapeByte_of_le {c : UInt8} (h : 0x80 ≤ c.toNat) : escapeByte c = [c] := by
  have hne : ∀ d : UInt8, d.toNat < 0x80 → c ≠ d := by
    intro d hd hc
    rw [hc] at h
    omega
  have hlt : ¬ c < 0x20 := by
    rw [UInt8.lt_iff_toNat_lt, show (0x20 : UInt8).toNat = 0x20 from rfl]
    omega
  unfold escapeByte
  rw [if_neg (hne _ (by decide)), if_neg (hne _ (by decide)), if_neg (hne _ (by decide)),
    if_neg (hne _ (by decide)), if_neg (hne _ (by decide)), if_neg (hne _ (by decide)),
    if_neg (hne _ (by decide)), if_neg hlt]

theorem hexDigit_range {n : Nat} (h : n < 16) :
    0x20 ≤ (hexDigit n).toNat ∧ (hexDigit n).toNat < 0x80 := by
  interval_cases n <;> decide

/-- No escape is a control character, and one of an ASCII character is
ASCII. -/
theorem escapeByte_range (c : UInt8) :
    ∀ d ∈ escapeByte c, 0x20 ≤ d.toNat ∧ (c.toNat < 0x80 → d.toNat < 0x80) := by
  have hpair : ∀ x : Char, 0x20 ≤ (ascii x).toNat → (ascii x).toNat < 0x80 →
      ∀ d ∈ [ascii '\\', ascii x], 0x20 ≤ d.toNat ∧ (c.toNat < 0x80 → d.toNat < 0x80) := by
    intro x h1 h2 d hd
    simp only [List.mem_cons, List.not_mem_nil, or_false] at hd
    rcases hd with rfl | rfl
    · exact ⟨by decide, fun _ => by decide⟩
    · exact ⟨h1, fun _ => h2⟩
  intro d hd
  unfold escapeByte at hd
  split_ifs at hd with _ _ _ _ _ _ _ h8
  · exact hpair _ (by decide) (by decide) d hd
  · exact hpair _ (by decide) (by decide) d hd
  · exact hpair _ (by decide) (by decide) d hd
  · exact hpair _ (by decide) (by decide) d hd
  · exact hpair _ (by decide) (by decide) d hd
  · exact hpair _ (by decide) (by decide) d hd
  · exact hpair _ (by decide) (by decide) d hd
  · rw [UInt8.lt_iff_toNat_lt, show (0x20 : UInt8).toNat = 0x20 from rfl] at h8
    have hhi := hexDigit_range (show c.toNat / 16 < 16 by omega)
    have hlo := hexDigit_range (show c.toNat % 16 < 16 by omega)
    simp only [List.mem_cons, List.not_mem_nil, or_false] at hd
    rcases hd with rfl | rfl | rfl | rfl | rfl | rfl
    · exact ⟨by decide, fun _ => by decide⟩
    · exact ⟨by decide, fun _ => by decide⟩
    · exact ⟨by decide, fun _ => by decide⟩
    · exact ⟨by decide, fun _ => by decide⟩
    · exact ⟨hhi.1, fun _ => hhi.2⟩
    · exact ⟨hlo.1, fun _ => hlo.2⟩
  · rw [UInt8.lt_iff_toNat_lt, show (0x20 : UInt8).toNat = 0x20 from rfl] at h8
    rw [List.mem_singleton] at hd
    subst hd
    exact ⟨by omega, id⟩

theorem isText_escape (s : String) : IsText (escape s) := by
  unfold escape
  rw [utf8_eq, List.flatMap_assoc]
  refine IsText.flatMap fun c _ => ?_
  by_cases hc : c.val.toNat ≤ 0x7f
  · refine isText_ascii fun d hd => ?_
    obtain ⟨b, hb, hd⟩ := List.mem_flatMap.mp hd
    refine (escapeByte_range b d hd).2 ?_
    unfold String.utf8EncodeChar at hb
    dsimp only at hb
    rw [if_pos hc, List.mem_singleton] at hb
    subst hb
    rw [UInt8.toNat_ofNat_of_lt' (show c.val.toNat < UInt8.size from lt_of_le_of_lt hc (by decide))]
    omega
  · have heq : (String.utf8EncodeChar c).flatMap escapeByte = String.utf8EncodeChar c := by
      rw [List.flatMap_congr fun b hb =>
        escapeByte_of_le (le_of_mem_utf8EncodeChar (by omega) hb)]
      exact List.flatMap_singleton' _
    rw [heq]
    exact isText_utf8EncodeChar c

theorem le_of_mem_escape {s : String} {c : UInt8} (h : c ∈ escape s) : 0x20 ≤ c.toNat := by
  obtain ⟨b, _, hc⟩ := List.mem_flatMap.mp h
  exact (escapeByte_range b c hc).1

/-- Printed on one line, as text. -/
structure OneLine (b : Bytes) : Prop where
  isText : IsText b
  printable : ∀ c ∈ b, 0x20 ≤ c.toNat

theorem OneLine.append {a b : Bytes} (ha : OneLine a) (hb : OneLine b) : OneLine (a ++ b) := by
  refine ⟨ha.isText.append hb.isText, fun c hc => ?_⟩
  rcases List.mem_append.mp hc with hc | hc
  · exact ha.printable c hc
  · exact hb.printable c hc

theorem oneLine_ascii {b : Bytes} (h : ∀ c ∈ b, 0x20 ≤ c.toNat ∧ c.toNat < 0x80) : OneLine b :=
  ⟨isText_ascii fun c hc => (h c hc).2, fun c hc => (h c hc).1⟩

theorem OneLine.cons {c : UInt8} {b : Bytes} (hc : 0x20 ≤ c.toNat ∧ c.toNat < 0x80)
    (hb : OneLine b) : OneLine (c :: b) :=
  (oneLine_ascii fun _ hd => List.mem_singleton.mp hd ▸ hc).append hb

theorem oneLine_printString (s : String) : OneLine (printString s) :=
  .cons (by decide)
    (.append ⟨isText_escape s, fun _ hc => le_of_mem_escape hc⟩ (oneLine_ascii (by decide)))

/-! ## Numbers and values -/

theorem isDigit_of_mem_printNat (n : Nat) : ∀ c ∈ printNat n, isDigit c = true := by
  induction n using Nat.strong_induction_on with
  | _ n ih =>
    intro c hc
    rw [printNat_eq] at hc
    split at hc
    · next h =>
      rw [List.mem_singleton] at hc
      exact hc ▸ isDigit_digitByte h
    · rcases List.mem_append.mp hc with hc | hc
      · exact ih (n / 10) (by omega) c hc
      · rw [List.mem_singleton] at hc
        exact hc ▸ isDigit_digitByte (by omega)

theorem oneLine_printNat (n : Nat) : OneLine (printNat n) := by
  refine oneLine_ascii fun c hc => ?_
  have hdigit := isDigit_of_mem_printNat n c hc
  simp only [isDigit, Bool.and_eq_true, decide_eq_true_eq, UInt8.le_iff_toNat_le] at hdigit
  have h0 : (ascii '0').toNat = 48 := rfl
  have h9 : (ascii '9').toNat = 57 := rfl
  omega

theorem oneLine_printFloat (mantissa : Nat) (exponent : Int) :
    OneLine (printFloat mantissa exponent) := by
  cases exponent with
  | ofNat e => exact (oneLine_printNat mantissa).append (.cons (by decide) (oneLine_printNat e))
  | negSucc e =>
    exact (oneLine_printNat mantissa).append
      (.cons (by decide) (.cons (by decide) (oneLine_printNat (e + 1))))

theorem oneLine_number (n : Number) : OneLine n.print := by
  cases n with
  | posInt n _ => exact oneLine_printNat n
  | negInt n _ _ => exact .cons (by decide) (oneLine_printNat n)
  | float neg mantissa exponent _ =>
    refine .append ?_ (oneLine_printFloat mantissa exponent)
    cases neg with
    | false => exact oneLine_ascii (by decide)
    | true => exact oneLine_ascii (by decide)

mutual

theorem oneLine_print : ∀ v : Value, OneLine v.print
  | .null => oneLine_ascii (by decide)
  | .bool true => oneLine_ascii (by decide)
  | .bool false => oneLine_ascii (by decide)
  | .number n => oneLine_number n
  | .string s => oneLine_printString s
  | .array [] => oneLine_ascii (by decide)
  | .array (v :: rest) => .cons (by decide) (.append (oneLine_print v) (oneLine_printItems rest))
  | .object [] => oneLine_ascii (by decide)
  | .object ((k, v) :: rest) =>
    .cons (by decide) (.append (oneLine_printString k)
      (.cons (by decide) (.append (oneLine_print v) (oneLine_printMembers rest))))

theorem oneLine_printItems : ∀ items : List Value, OneLine (Value.printItems items)
  | [] => oneLine_ascii (by decide)
  | v :: rest => .cons (by decide) (.append (oneLine_print v) (oneLine_printItems rest))

theorem oneLine_printMembers : ∀ members : List (String × Value),
    OneLine (Value.printMembers members)
  | [] => oneLine_ascii (by decide)
  | (k, v) :: rest =>
    .cons (by decide) (.append (oneLine_printString k)
      (.cons (by decide) (.append (oneLine_print v) (oneLine_printMembers rest))))

end

/-! ## The members of an object -/

theorem infix_printMembers {k : String} {v : Value} {members : List (String × Value)}
    (h : (k, v) ∈ members) :
    printString k ++ ascii ':' :: v.print <:+: Value.printMembers members := by
  induction members with
  | nil => cases h
  | cons m rest ih =>
    obtain ⟨k', v'⟩ := m
    unfold Value.printMembers
    rcases List.mem_cons.mp h with heq | hrest
    · cases heq
      exact ⟨[ascii ','], Value.printMembers rest, by simp⟩
    · obtain ⟨a, b, hab⟩ := ih hrest
      exact ⟨ascii ',' :: (printString k' ++ ascii ':' :: (v'.print ++ a)), b, by simp [← hab]⟩

/-- Every member of an object is written in it. -/
theorem infix_print {k : String} {v : Value} {members : List (String × Value)}
    (h : (k, v) ∈ members) :
    printString k ++ ascii ':' :: v.print <:+: (Value.object members).print := by
  cases members with
  | nil => cases h
  | cons m rest =>
    obtain ⟨k', v'⟩ := m
    have hprint : (Value.object ((k', v') :: rest)).print =
        ascii '{' :: (printString k' ++ ascii ':' :: (v'.print ++ Value.printMembers rest)) := by
      rw [Value.print]
    rw [hprint]
    rcases List.mem_cons.mp h with heq | hrest
    · cases heq
      exact ⟨[ascii '{'], Value.printMembers rest, by simp⟩
    · obtain ⟨a, b, hab⟩ := infix_printMembers hrest
      exact ⟨ascii '{' :: (printString k' ++ ascii ':' :: (v'.print ++ a)), b, by simp [← hab]⟩

end Json
