import Mathlib.Tactic.IntervalCases
import RapidRouter.Lib.Json.Value

/-!
# Printing JSON, and reading it back

`Value.print` is the compact form: no blanks, control characters escaped,
other text as its UTF-8 bytes. Printed text is one value for the machine
(`parse_print`), and reading it gives the value back unless it is nested
beyond the reader's limit (`fromSlice_print`).
-/

namespace Json

def hexDigit (n : Nat) : UInt8 := (Nat.digitChar n).toUInt8

/-- One byte of a string as it is printed. -/
def escapeByte (c : UInt8) : Bytes :=
  if c = ascii '"' then [ascii '\\', ascii '"']
  else if c = ascii '\\' then [ascii '\\', ascii '\\']
  else if c = 0x08 then [ascii '\\', ascii 'b']
  else if c = 0x09 then [ascii '\\', ascii 't']
  else if c = 0x0A then [ascii '\\', ascii 'n']
  else if c = 0x0C then [ascii '\\', ascii 'f']
  else if c = 0x0D then [ascii '\\', ascii 'r']
  else if c < 0x20 then
    [ascii '\\', ascii 'u', ascii '0', ascii '0', hexDigit (c.toNat / 16), hexDigit (c.toNat % 16)]
  else [c]

def escape (s : String) : Bytes := (utf8 s).flatMap escapeByte

def printString (s : String) : Bytes := ascii '"' :: (escape s ++ [ascii '"'])

def printNat (n : Nat) : Bytes := (Nat.toDigits 10 n).map Char.toUInt8

/-- A float is printed with an exponent. -/
def printFloat (mantissa : Nat) : Int → Bytes
  | .ofNat e => printNat mantissa ++ ascii 'e' :: printNat e
  | .negSucc e => printNat mantissa ++ ascii 'e' :: ascii '-' :: printNat (e + 1)

def printSign (neg : Bool) : Bytes := if neg then [ascii '-'] else []

def Number.print : Number → Bytes
  | .posInt n _ => printNat n
  | .negInt n _ _ => ascii '-' :: printNat n
  | .float neg mantissa exponent _ => printSign neg ++ printFloat mantissa exponent

mutual

/-- `to_string`. -/
def Value.print : Value → Bytes
  | .null => [ascii 'n', ascii 'u', ascii 'l', ascii 'l']
  | .bool true => [ascii 't', ascii 'r', ascii 'u', ascii 'e']
  | .bool false => [ascii 'f', ascii 'a', ascii 'l', ascii 's', ascii 'e']
  | .number n => n.print
  | .string s => printString s
  | .array [] => [ascii '[', ascii ']']
  | .array (v :: rest) => ascii '[' :: (Value.print v ++ Value.printItems rest)
  | .object [] => [ascii '{', ascii '}']
  | .object ((k, v) :: rest) =>
    ascii '{' :: (printString k ++ ascii ':' :: (Value.print v ++ Value.printMembers rest))

/-- The items after the first, and the end of the array. -/
def Value.printItems : List Value → Bytes
  | [] => [ascii ']']
  | v :: rest => ascii ',' :: (Value.print v ++ Value.printItems rest)

def Value.printMembers : List (String × Value) → Bytes
  | [] => [ascii '}']
  | (k, v) :: rest =>
    ascii ',' :: (printString k ++ ascii ':' :: (Value.print v ++ Value.printMembers rest))

end

/-! ## The text the machine sees -/

def Number.toLit : Number → NumLit
  | .posInt n _ => ⟨false, n, 0, false, 0, true⟩
  | .negInt n _ _ => ⟨true, n, 0, false, 0, true⟩
  | .float neg mantissa exponent _ => ⟨neg, mantissa, 0, exponent < 0, exponent.natAbs, false⟩

mutual

/-- A value as `print` writes it. -/
def Value.toRaw : Value → Raw
  | .null => .null
  | .bool b => .bool b
  | .number n => .number n.toLit
  | .string s => .string (escape s)
  | .array items => .array (Value.itemsToRaw items)
  | .object members => .object (Value.membersToRaw members)

def Value.itemsToRaw : List Value → List Raw
  | [] => []
  | v :: rest => v.toRaw :: Value.itemsToRaw rest

def Value.membersToRaw : List (String × Value) → List (Bytes × Raw)
  | [] => []
  | (k, v) :: rest => (escape k, v.toRaw) :: Value.membersToRaw rest

end

/-! ## Strings -/

theorem isSome_hexVal_hexDigit {n : Nat} (h : n < 16) : (hexVal (hexDigit n)).isSome = true := by
  interval_cases n <;> decide

theorem run_escapeByte (dest : Option (List (Bytes × Raw))) (acc : Bytes) (stack : List Frame)
    (c : UInt8) : run ⟨.string dest acc, stack⟩ (escapeByte c) =
      some ⟨.string dest ((escapeByte c).reverse ++ acc), stack⟩ := by
  unfold escapeByte
  split_ifs with h1 h2 h3 h4 h5 h6 h7 h8
  · rfl
  · rfl
  · rfl
  · rfl
  · rfl
  · rfl
  · rfl
  · have hhigh := isSome_hexVal_hexDigit (n := c.toNat / 16) (by have := c.toNat_lt; omega)
    have hlow := isSome_hexVal_hexDigit (n := c.toNat % 16) (by omega)
    have hstart : run ⟨.string dest acc, stack⟩
        [ascii '\\', ascii 'u', ascii '0', ascii '0', hexDigit (c.toNat / 16),
          hexDigit (c.toNat % 16)] =
        run ⟨.hex dest (ascii '0' :: ascii '0' :: ascii 'u' :: ascii '\\' :: acc) 2, stack⟩
          [hexDigit (c.toNat / 16), hexDigit (c.toNat % 16)] := rfl
    rw [hstart, run_cons, step_hex hhigh, Option.bind_some, if_neg (by omega), run_cons,
      step_hex hlow, Option.bind_some, if_pos (by omega)]
    rfl
  · rw [run_cons, step_string h1 h2 h8]
    rfl

theorem run_escape (dest : Option (List (Bytes × Raw))) (stack : List Frame) (s : Bytes) :
    ∀ acc, run ⟨.string dest acc, stack⟩ (s.flatMap escapeByte) =
      some ⟨.string dest ((s.flatMap escapeByte).reverse ++ acc), stack⟩ := by
  induction s with
  | nil => exact fun _ => rfl
  | cons c rest ih =>
    intro acc
    rw [List.flatMap_cons, run_append, run_escapeByte, Option.bind_some, ih]
    rw [List.reverse_append, List.append_assoc]

/-- A printed string, from the byte after its quote on. -/
theorem run_string_tail (dest : Option (List (Bytes × Raw))) (stack : List Frame) (s : String) :
    run ⟨.string dest [], stack⟩ (escape s ++ [ascii '"']) =
      some (endString (escape s).reverse stack dest) := by
  unfold escape
  rw [run_append, run_escape, Option.bind_some, List.append_nil]
  rfl

theorem unescape_escapeByte (c : UInt8) (rest : Bytes) :
    unescape (escapeByte c ++ rest) = (unescape rest).map (c :: ·) := by
  unfold escapeByte
  split_ifs with h1 h2 h3 h4 h5 h6 h7 h8
  · rw [h1]
    rw [unescape.eq_def]
    rfl
  · rw [h2]
    rw [unescape.eq_def]
    rfl
  · rw [h3]
    rw [unescape.eq_def]
    rfl
  · rw [h4]
    rw [unescape.eq_def]
    rfl
  · rw [h5]
    rw [unescape.eq_def]
    rfl
  · rw [h6]
    rw [unescape.eq_def]
    rfl
  · rw [h7]
    rw [unescape.eq_def]
    rfl
  · have hcode : ∀ n : Fin 32, hex4 (ascii '0') (ascii '0') (hexDigit (n / 16)) (hexDigit (n % 16)) =
        some n.val ∧ encodeCodePoint n = [UInt8.ofNat n] := by decide
    have hlt : c.toNat < 32 := h8
    obtain ⟨hhex, hencode⟩ := hcode ⟨c.toNat, hlt⟩
    have hlow : isLowSurrogate c.toNat = false := by
      simp only [isLowSurrogate, Bool.and_eq_false_iff, decide_eq_false_iff_not]
      omega
    have hhigh : isHighSurrogate c.toNat = false := by
      simp only [isHighSurrogate, Bool.and_eq_false_iff, decide_eq_false_iff_not]
      omega
    rw [UInt8.ofNat_toNat] at hencode
    rw [unescape.eq_def]
    simp only [List.cons_append, List.nil_append, ne_eq, not_true_eq_false, if_false,
      show (¬ascii 'u' = ascii 'u') = False by decide, hhex, hlow, hhigh, hencode, bind,
      Option.bind, Bool.false_eq_true]
  · rw [List.singleton_append]
    conv_lhs => unfold unescape
    rw [if_pos h2]

theorem unescape_escape (s : Bytes) : unescape (s.flatMap escapeByte) = some s := by
  induction s with
  | nil => rfl
  | cons c rest ih =>
    rw [List.flatMap_cons, unescape_escapeByte, ih]
    rfl

theorem decodeString_escape (s : String) : decodeString (escape s) = some s := by
  unfold decodeString escape
  rw [unescape_escape]
  exact fromUtf8?_utf8 s

/-! ## Numbers -/

def digitByte (d : Nat) : UInt8 := (Nat.digitChar d).toUInt8

theorem isDigit_digitByte {d : Nat} (h : d < 10) : isDigit (digitByte d) = true := by
  interval_cases d <;> decide

theorem digitVal_digitByte {d : Nat} (h : d < 10) : digitVal (digitByte d) = d := by
  interval_cases d <;> decide

theorem digitByte_ne_zero {d : Nat} (h : d < 10) (hd : d ≠ 0) : digitByte d ≠ ascii '0' := by
  interval_cases d
  · exact absurd rfl hd
  all_goals decide

/-- A digit is none of the bytes that have a meaning of their own. -/
theorem isDigit_ne {c : UInt8} (h : isDigit c = true) {x : Char} (hx : isDigit (ascii x) = false) :
    c ≠ ascii x := by
  intro hc
  rw [hc, hx] at h
  exact Bool.false_ne_true h

theorem printNat_eq (n : Nat) :
    printNat n = if n < 10 then [digitByte n] else printNat (n / 10) ++ [digitByte (n % 10)] := by
  unfold printNat digitByte
  rw [Nat.toDigits_eq_if (by decide)]
  split
  · rfl
  · rw [List.map_append]
    rfl

/-- The digits of `k`, in a phase that takes them one after the other. -/
theorem run_printNat {phase rest : NumPhase} {n : NumLit} {stack : List Frame} (push : Nat → NumLit)
    (hfirst : ∀ d, d < 10 → d ≠ 0 → numStep n (digitByte d) phase = some (rest, push d))
    (hrest : ∀ m d, d < 10 → numStep (push m) (digitByte d) rest = some (rest, push (m * 10 + d)))
    (k : Nat) (hk : k ≠ 0) :
    run ⟨.number phase n, stack⟩ (printNat k) = some ⟨.number rest (push k), stack⟩ := by
  induction k using Nat.strong_induction_on with
  | _ k ih =>
    rw [printNat_eq]
    by_cases h : k < 10
    · rw [if_pos h, run_cons, step_number (hfirst k h hk)]
      rfl
    · have hdiv : k / 10 * 10 + k % 10 = k := by omega
      rw [if_neg h, run_append, ih (k / 10) (by omega) (by omega), Option.bind_some, run_cons,
        step_number (hrest (k / 10) (k % 10) (by omega)), hdiv]
      rfl

/-- A value without its sign starts as one with it. -/
theorem startValue_digit {stack : List Frame} {d : Nat} (h : d < 10) :
    startValue stack (digitByte d) = step ⟨.number .minus (.start false), stack⟩ (digitByte d) := by
  interval_cases d <;> rfl

/-- The machine has a whole value and waits for what follows it. -/
def State.Holds (s : State) (v : Raw) : Prop :=
  s.mode = .after v ∨
    ∃ phase n, s.mode = .number phase n ∧ phase.accepting = true ∧ v = .number n

theorem State.Holds.finish {s : State} {v : Raw} (h : s.Holds v) (hstack : s.stack = []) :
    s.finish = some v := by
  obtain ⟨mode, stack⟩ := s
  cases hstack
  rcases h with hmode | ⟨phase, n, hmode, hacc, rfl⟩
  · cases hmode
    rfl
  · cases hmode
    simp [State.finish, hacc]

theorem numStep_separator {n : NumLit} {phase : NumPhase} {c : UInt8}
    (hc : c = ascii ',' ∨ c = ascii ']' ∨ c = ascii '}') : numStep n c phase = none := by
  rcases hc with rfl | rfl | rfl <;> cases phase <;> rfl

theorem State.Holds.step {s : State} {v : Raw} (h : s.Holds v) {c : UInt8}
    (hc : c = ascii ',' ∨ c = ascii ']' ∨ c = ascii '}') :
    Json.step s c = afterValue v c s.stack := by
  obtain ⟨mode, stack⟩ := s
  have hws : isWs c = false := by
    rcases hc with rfl | rfl | rfl <;> decide
  rcases h with hmode | ⟨phase, n, hmode, hacc, rfl⟩
  · cases hmode
    simp [Json.step, hws]
  · cases hmode
    simp [Json.step, numStep_separator hc, hacc, hws]

/-- An unsigned number, after its sign if it has one. -/
theorem run_mantissa (neg : Bool) (k : Nat) (stack : List Frame) :
    ∃ phase, run ⟨.number .minus (.start neg), stack⟩ (printNat k) =
      some ⟨.number phase ⟨neg, k, 0, false, 0, true⟩, stack⟩ ∧ (phase = .zero ∨ phase = .int) := by
  by_cases hk : k = 0
  · subst hk
    exact ⟨.zero, rfl, Or.inl rfl⟩
  · refine ⟨.int, run_printNat (fun m => ⟨neg, m, 0, false, 0, true⟩) ?_ ?_ k hk,
      Or.inr rfl⟩
    · intro d hd hd0
      simp [numStep, digitByte_ne_zero hd hd0, isDigit_digitByte hd, NumLit.pushDigit,
        NumLit.start, digitVal_digitByte hd]
    · intro m d hd
      simp [numStep, isDigit_digitByte hd, NumLit.pushDigit, digitVal_digitByte hd]

/-- The digits of an exponent. -/
theorem run_exponent {phase : NumPhase} (hphase : phase = .exp ∨ phase = .expSign) {n : NumLit}
    (hn : n.exp = 0) (k : Nat) (stack : List Frame) :
    run ⟨.number phase n, stack⟩ (printNat k) =
      some ⟨.number .expDigits { n with exp := k }, stack⟩ := by
  have hstep : ∀ d, d < 10 →
      numStep n (digitByte d) phase = some (.expDigits, { n with exp := d }) := by
    intro d hd
    have hminus : digitByte d ≠ ascii '-' := isDigit_ne (isDigit_digitByte hd) (by decide)
    have hplus : digitByte d ≠ ascii '+' := isDigit_ne (isDigit_digitByte hd) (by decide)
    rcases hphase with rfl | rfl
    · simp [numStep, hminus, hplus, isDigit_digitByte hd, NumLit.pushExp, hn,
        digitVal_digitByte hd]
    · simp [numStep, isDigit_digitByte hd, NumLit.pushExp, hn, digitVal_digitByte hd]
  by_cases hk : k = 0
  · subst hk
    rw [printNat_eq, if_pos (by decide), run_cons, step_number (hstep 0 (by decide))]
    rfl
  · refine run_printNat (fun m => { n with exp := m }) (fun d hd _ => hstep d hd) ?_ k hk
    intro m d hd
    simp [numStep, isDigit_digitByte hd, NumLit.pushExp, digitVal_digitByte hd]

/-- A place where a value may begin. -/
def Mode.Begins (m : Mode) : Prop := m = .value ∨ m = .firstItem

theorem step_begins {m : Mode} (hm : m.Begins) {stack : List Frame} {c : UInt8}
    (hws : isWs c = false) (hc : c ≠ ascii ']') : step ⟨m, stack⟩ c = startValue stack c := by
  rcases hm with rfl | rfl
  · exact step_value hws
  · simp [step, hws, hc]

theorem run_unsigned {m : Mode} (hm : m.Begins) (stack : List Frame) (k : Nat) (rest : Bytes) :
    run ⟨m, stack⟩ (printNat k ++ rest) =
      run ⟨.number .minus (.start false), stack⟩ (printNat k ++ rest) := by
  have hcons : ∃ d ds, d < 10 ∧ printNat k = digitByte d :: ds := by
    induction k using Nat.strong_induction_on with
    | _ k ih =>
      rw [printNat_eq]
      by_cases h : k < 10
      · exact ⟨k, [], h, by rw [if_pos h]⟩
      · obtain ⟨d, ds, hd, hds⟩ := ih (k / 10) (by omega)
        exact ⟨d, ds ++ [digitByte (k % 10)], hd, by rw [if_neg h, hds, List.cons_append]⟩
  obtain ⟨d, ds, hd, hds⟩ := hcons
  have hws : isWs (digitByte d) = false := by interval_cases d <;> decide
  have hclose : digitByte d ≠ ascii ']' := isDigit_ne (isDigit_digitByte hd) (by decide)
  rw [hds, List.cons_append, run_cons, run_cons, step_begins hm hws hclose, startValue_digit hd]

/-- `e` and the exponent, after a mantissa. -/
theorem run_floatTail {phase : NumPhase} (hphase : phase = .zero ∨ phase = .int) (neg : Bool)
    (mantissa : Nat) (stack : List Frame) (e : Nat) :
    run ⟨.number phase ⟨neg, mantissa, 0, false, 0, true⟩, stack⟩ (ascii 'e' :: printNat e) =
        some ⟨.number .expDigits ⟨neg, mantissa, 0, false, e, false⟩, stack⟩ ∧
      run ⟨.number phase ⟨neg, mantissa, 0, false, 0, true⟩, stack⟩
          (ascii 'e' :: ascii '-' :: printNat e) =
        some ⟨.number .expDigits ⟨neg, mantissa, 0, true, e, false⟩, stack⟩ := by
  have hmark : step ⟨.number phase ⟨neg, mantissa, 0, false, 0, true⟩, stack⟩ (ascii 'e') =
      some ⟨.number .exp ⟨neg, mantissa, 0, false, 0, false⟩, stack⟩ := by
    rcases hphase with rfl | rfl <;> rfl
  constructor
  · rw [run_cons, hmark, Option.bind_some, run_exponent (Or.inl rfl) rfl]
  · have hsign : step ⟨.number .exp ⟨neg, mantissa, 0, false, 0, false⟩, stack⟩ (ascii '-') =
        some ⟨.number .expSign ⟨neg, mantissa, 0, true, 0, false⟩, stack⟩ := rfl
    rw [run_cons, hmark, Option.bind_some, run_cons, hsign, Option.bind_some,
      run_exponent (Or.inr rfl) rfl]

theorem run_float {neg : Bool} {stack : List Frame} {mantissa : Nat} (exponent : Int) :
    run ⟨.number .minus (.start neg), stack⟩ (printFloat mantissa exponent) =
      some ⟨.number .expDigits
        ⟨neg, mantissa, 0, exponent < 0, exponent.natAbs, false⟩, stack⟩ := by
  obtain ⟨phase, hrun, hphase⟩ := run_mantissa neg mantissa stack
  cases exponent with
  | ofNat e =>
    have hsign : decide (Int.ofNat e < 0) = false := decide_eq_false (by simp)
    unfold printFloat
    rw [run_append, hrun, Option.bind_some, hsign]
    exact (run_floatTail hphase neg mantissa stack e).1
  | negSucc e =>
    have hsign : decide (Int.negSucc e < 0) = true := decide_eq_true (Int.negSucc_lt_zero e)
    unfold printFloat
    rw [run_append, hrun, Option.bind_some, hsign]
    exact (run_floatTail hphase neg mantissa stack (e + 1)).2

theorem step_minus {m : Mode} (hm : m.Begins) (stack : List Frame) :
    step ⟨m, stack⟩ (ascii '-') = some ⟨.number .minus (.start true), stack⟩ := by
  rw [step_begins hm (by decide) (by decide)]
  rfl

theorem run_number {m : Mode} (hm : m.Begins) (stack : List Frame) (n : Number) :
    ∃ s, run ⟨m, stack⟩ n.print = some s ∧ s.stack = stack ∧ s.Holds (.number n.toLit) := by
  cases n with
  | posInt n h =>
    obtain ⟨phase, hrun, hphase⟩ := run_mantissa false n stack
    have hbegin := run_unsigned hm stack n []
    rw [List.append_nil, hrun] at hbegin
    refine ⟨_, hbegin, rfl, Or.inr ⟨phase, _, rfl, ?_, rfl⟩⟩
    rcases hphase with rfl | rfl <;> rfl
  | negInt n hpos h =>
    obtain ⟨phase, hrun, hphase⟩ := run_mantissa true n stack
    have hsigned : run ⟨m, stack⟩ (ascii '-' :: printNat n) =
        some ⟨.number phase ⟨true, n, 0, false, 0, true⟩, stack⟩ := by
      rw [run_cons, step_minus hm, Option.bind_some, hrun]
    refine ⟨_, hsigned, rfl, Or.inr ⟨phase, _, rfl, ?_, rfl⟩⟩
    rcases hphase with rfl | rfl <;> rfl
  | float neg mantissa exponent h =>
    have hsigned : run ⟨m, stack⟩ (printSign neg ++ printFloat mantissa exponent) =
        some ⟨.number .expDigits
          ⟨neg, mantissa, 0, exponent < 0, exponent.natAbs, false⟩, stack⟩ := by
      cases neg with
      | true =>
        show run ⟨m, stack⟩ (ascii '-' :: printFloat mantissa exponent) = _
        rw [run_cons, step_minus hm, Option.bind_some, run_float]
      | false =>
        have hcons : printFloat mantissa exponent = printNat mantissa ++
            (printFloat mantissa exponent).drop (printNat mantissa).length := by
          cases exponent <;> simp [printFloat]
        show run ⟨m, stack⟩ (printFloat mantissa exponent) = _
        rw [hcons, run_unsigned hm, ← hcons, run_float]
    exact ⟨_, hsigned, rfl, Or.inr ⟨_, _, rfl, rfl, rfl⟩⟩

/-- A number reads back as itself. -/
theorem toNumber_toLit (n : Number) : n.toLit.toNumber = some n := by
  cases n with
  | posInt n h => exact dif_pos h
  | negInt n hpos h => exact dif_pos ⟨hpos, h⟩
  | float neg mantissa exponent h =>
    have hexp : (Number.float neg mantissa exponent h).toLit.exponent = exponent := by
      simp only [Number.toLit, NumLit.exponent, decide_eq_true_eq]
      split <;> omega
    have hfloat : (Number.float neg mantissa exponent h).toLit.toNumber =
        (Number.float neg mantissa exponent h).toLit.toFloat := rfl
    rw [hfloat]
    unfold NumLit.toFloat
    simp only [hexp]
    exact dif_pos h

/-! ## Values -/

theorem run_key (done : List (Bytes × Raw)) (stack : List Frame) (k : String) (rest : Bytes) :
    run ⟨.key done, stack⟩ (printString k ++ ascii ':' :: rest) =
      run ⟨.value, .members done (escape k) :: stack⟩ rest := by
  have hquote : step ⟨.key done, stack⟩ (ascii '"') = some ⟨.string (some done) [], stack⟩ := rfl
  have hcolon : step ⟨.colon done (escape k), stack⟩ (ascii ':') =
      some ⟨.value, .members done (escape k) :: stack⟩ := rfl
  unfold printString
  rw [List.cons_append, run_cons, hquote, Option.bind_some, run_append, run_string_tail,
    Option.bind_some]
  unfold endString
  rw [List.reverse_reverse, run_cons, hcolon]
  rfl

mutual

/-- From where a value may begin, its print leads to where it is held. -/
theorem run_print {m : Mode} (hm : m.Begins) (stack : List Frame) : ∀ v : Value,
    ∃ s, run ⟨m, stack⟩ v.print = some s ∧ s.stack = stack ∧ s.Holds v.toRaw
  | .null => by
    refine ⟨⟨.after .null, stack⟩, ?_, rfl, Or.inl rfl⟩
    unfold Value.print
    rw [run_cons, step_begins hm (by decide) (by decide)]
    rfl
  | .bool true => by
    refine ⟨⟨.after (.bool true), stack⟩, ?_, rfl, Or.inl rfl⟩
    unfold Value.print
    rw [run_cons, step_begins hm (by decide) (by decide)]
    rfl
  | .bool false => by
    refine ⟨⟨.after (.bool false), stack⟩, ?_, rfl, Or.inl rfl⟩
    unfold Value.print
    rw [run_cons, step_begins hm (by decide) (by decide)]
    rfl
  | .number n => by
    unfold Value.print Value.toRaw
    exact run_number hm stack n
  | .string s => by
    have hquote : startValue stack (ascii '"') = some ⟨.string none [], stack⟩ := rfl
    refine ⟨⟨.after (.string (escape s)), stack⟩, ?_, rfl, Or.inl rfl⟩
    unfold Value.print printString
    rw [run_cons, step_begins hm (by decide) (by decide), hquote, Option.bind_some,
      run_string_tail]
    unfold endString
    rw [List.reverse_reverse]
  | .array [] => by
    refine ⟨⟨.after (.array []), stack⟩, ?_, rfl, Or.inl rfl⟩
    unfold Value.print
    rw [run_cons, step_begins hm (by decide) (by decide)]
    rfl
  | .array (v :: rest) => by
    have hopen : startValue stack (ascii '[') = some ⟨.firstItem, .items [] :: stack⟩ := rfl
    obtain ⟨s, hrun, hstack, hholds⟩ := run_print (Or.inr rfl) (.items [] :: stack) v
    refine ⟨⟨.after (.array (v.toRaw :: Value.itemsToRaw rest)), stack⟩, ?_, rfl, Or.inl ?_⟩
    swap
    · rw [Value.toRaw, Value.itemsToRaw]
    unfold Value.print
    rw [run_cons, step_begins hm (by decide) (by decide), hopen, Option.bind_some, run_append,
      hrun, Option.bind_some, run_printItems rest hholds hstack]
    rfl
  | .object [] => by
    refine ⟨⟨.after (.object []), stack⟩, ?_, rfl, Or.inl rfl⟩
    unfold Value.print
    rw [run_cons, step_begins hm (by decide) (by decide)]
    rfl
  | .object ((k, v) :: rest) => by
    have hopen : startValue stack (ascii '{') = some ⟨.key [], stack⟩ := rfl
    obtain ⟨s, hrun, hstack, hholds⟩ :=
      run_print (Or.inl rfl) (.members [] (escape k) :: stack) v
    refine ⟨⟨.after (.object ((escape k, v.toRaw) :: Value.membersToRaw rest)), stack⟩, ?_, rfl,
      Or.inl ?_⟩
    swap
    · rw [Value.toRaw, Value.membersToRaw]
    unfold Value.print
    rw [run_cons, step_begins hm (by decide) (by decide), hopen, Option.bind_some, run_key,
      run_append, hrun, Option.bind_some, run_printMembers rest hholds hstack]
    rfl

theorem run_printItems {done : List Raw} {stack : List Frame} :
    ∀ (rest : List Value) {s : State} {v : Raw}, s.Holds v → s.stack = .items done :: stack →
      run s (Value.printItems rest) =
        some ⟨.after (.array (done.reverse ++ v :: Value.itemsToRaw rest)), stack⟩
  | [], s, v, hholds, hstack => by
    have hclose : afterValue v (ascii ']') (.items done :: stack) =
        some ⟨.after (.array (v :: done).reverse), stack⟩ := rfl
    unfold Value.printItems Value.itemsToRaw
    rw [run_cons, hholds.step (by simp), hstack, hclose, List.reverse_cons]
    rfl
  | w :: rest, s, v, hholds, hstack => by
    obtain ⟨s', hrun, hstack', hholds'⟩ := run_print (Or.inl rfl) (.items (v :: done) :: stack) w
    have hcomma : afterValue v (ascii ',') (.items done :: stack) =
        some ⟨.value, .items (v :: done) :: stack⟩ := rfl
    unfold Value.printItems Value.itemsToRaw
    rw [run_cons, hholds.step (Or.inl rfl), hstack, hcomma, Option.bind_some, run_append, hrun,
      Option.bind_some, run_printItems rest hholds' hstack', List.reverse_cons, List.append_assoc]
    rfl

theorem run_printMembers {done : List (Bytes × Raw)} {key : Bytes} {stack : List Frame} :
    ∀ (rest : List (String × Value)) {s : State} {v : Raw}, s.Holds v →
      s.stack = .members done key :: stack →
      run s (Value.printMembers rest) =
        some ⟨.after (.object (done.reverse ++ (key, v) :: Value.membersToRaw rest)), stack⟩
  | [], s, v, hholds, hstack => by
    have hclose : afterValue v (ascii '}') (.members done key :: stack) =
        some ⟨.after (.object ((key, v) :: done).reverse), stack⟩ := rfl
    unfold Value.printMembers Value.membersToRaw
    rw [run_cons, hholds.step (by simp), hstack, hclose, List.reverse_cons]
    rfl
  | (k, w) :: rest, s, v, hholds, hstack => by
    obtain ⟨s', hrun, hstack', hholds'⟩ :=
      run_print (Or.inl rfl) (.members ((key, v) :: done) (escape k) :: stack) w
    have hcomma : afterValue v (ascii ',') (.members done key :: stack) =
        some ⟨.key ((key, v) :: done), stack⟩ := rfl
    unfold Value.printMembers Value.membersToRaw
    rw [run_cons, hholds.step (Or.inl rfl), hstack, hcomma, Option.bind_some, run_key, run_append,
      hrun, Option.bind_some, run_printMembers rest hholds' hstack', List.reverse_cons,
      List.append_assoc]
    rfl

end

/-- Printed text is one value. -/
theorem parse_print (v : Value) : parse v.print = some v.toRaw := by
  obtain ⟨s, hrun, hstack, hholds⟩ := run_print (Or.inl rfl) [] v
  unfold parse State.init
  rw [hrun]
  exact hholds.finish hstack

/-- How deep a value is nested. -/
def Value.depth (v : Value) : Nat := v.toRaw.depth

mutual

theorem toValue_toRaw {depth : Nat} (hd : 0 < depth) : ∀ {v : Value}, v.WF →
    v.toRaw.toValue depth = if v.toRaw.depth < depth then some v else none
  | .null, _ => by simp [Value.toRaw, Raw.toValue, Raw.depth, hd]
  | .bool _, _ => by simp [Value.toRaw, Raw.toValue, Raw.depth, hd]
  | .number n, _ => by simp [Value.toRaw, Raw.toValue, Raw.depth, hd, toNumber_toLit]
  | .string s, _ => by simp [Value.toRaw, Raw.toValue, Raw.depth, hd, decodeString_escape]
  | .array items, h => by
    unfold Value.toRaw Raw.toValue Raw.depth
    by_cases hle : depth ≤ 1
    · rw [if_pos hle, if_neg (by omega)]
    · rw [if_neg hle, toItems_itemsToRaw (Nat.sub_pos_of_lt (not_le.mp hle)) h]
      by_cases hlt : Raw.itemsDepth (Value.itemsToRaw items) < depth - 1
      · rw [if_pos hlt, if_pos (by omega)]
        rfl
      · rw [if_neg hlt, if_neg (by omega)]
        rfl
  | .object members, h => by
    unfold Value.toRaw Raw.toValue Raw.depth
    by_cases hle : depth ≤ 1
    · rw [if_pos hle, if_neg (by omega)]
    · rw [if_neg hle, toMembers_membersToRaw (Nat.sub_pos_of_lt (not_le.mp hle)) members [] h.1 h.2]
      by_cases hlt : Raw.membersDepth (Value.membersToRaw members) < depth - 1
      · rw [if_pos hlt, if_pos (by omega)]
        rfl
      · rw [if_neg hlt, if_neg (by omega)]
        rfl

theorem toItems_itemsToRaw {depth : Nat} (hd : 0 < depth) : ∀ {items : List Value},
    Value.ItemsWF items → Raw.toItems depth (Value.itemsToRaw items) =
      if Raw.itemsDepth (Value.itemsToRaw items) < depth then some items else none
  | [], _ => by simp [Value.itemsToRaw, Raw.toItems, Raw.itemsDepth, hd]
  | v :: rest, h => by
    unfold Value.itemsToRaw Raw.toItems Raw.itemsDepth
    rw [toValue_toRaw hd h.1, toItems_itemsToRaw hd h.2]
    by_cases hv : v.toRaw.depth < depth
    · by_cases hrest : Raw.itemsDepth (Value.itemsToRaw rest) < depth
      · simp [hv, hrest]
      · simp [hv, hrest]
    · simp [hv]

theorem toMembers_membersToRaw {depth : Nat} (hd : 0 < depth) :
    ∀ members acc, Entries.Sorted (acc ++ members) → Value.MembersWF members →
    Raw.toMembers depth acc (Value.membersToRaw members) =
      if Raw.membersDepth (Value.membersToRaw members) < depth then some (acc ++ members) else none
  | [], acc, _, _ => by simp [Value.membersToRaw, Raw.toMembers, Raw.membersDepth, hd]
  | (k, v) :: rest, acc, hsorted, h => by
    have hinsert : Entries.insert k v acc = acc ++ [(k, v)] :=
      Entries.insert_eq_append v fun e he =>
        (List.pairwise_append.mp hsorted).2.2 e he (k, v) List.mem_cons_self
    have happend : acc ++ (k, v) :: rest = acc ++ [(k, v)] ++ rest := by simp
    have hrest := toMembers_membersToRaw hd rest _ (happend ▸ hsorted) h.2
    unfold Value.membersToRaw Raw.toMembers Raw.membersDepth
    rw [toValue_toRaw hd h.1, decodeString_escape]
    by_cases hv : v.toRaw.depth < depth
    · by_cases hlt : Raw.membersDepth (Value.membersToRaw rest) < depth
      · simp [hv, hlt, hinsert, hrest]
      · simp [hv, hlt, hinsert, hrest]
    · simp [hv]

end

/-- Reading a print gives the value back, up to the reader's nesting limit. -/
theorem fromSlice_print {v : Value} (h : v.WF) :
    fromSlice v.print = if v.depth < depthLimit then some v else none := by
  unfold fromSlice
  rw [parse_print]
  exact toValue_toRaw (by decide) h

end Json
