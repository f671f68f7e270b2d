import RapidRouter.Core.VKey
import RapidRouter.Lib.Decimal
import RapidRouter.Lib.Gregorian
import RapidRouter.Lib.Joined

/-!
# Timestamps

What `parse_rfc3339_utc_ms` takes for a timestamp, against the timestamps that its comment
promises. Each number is read by `str::parse`, which takes a sign and any width; a month has
31 days; a fraction may be empty, and is not looked at after its third digit. `parse_iff` is
the parser in these terms, `strict_iff` says which of its inputs are those of the comment.
-/

namespace RapidRouter.Core.Rfc3339

open Decimal Gregorian

/-! ## What is written -/

/-- The fields of a timestamp as they are written. -/
structure Stamp where
  year : List Char
  month : List Char
  day : List Char
  hour : List Char
  minute : List Char
  second : List Char
  fraction : Option (List Char)
  deriving DecidableEq

namespace Stamp

/-- The fields that are numbers. -/
def numerals (t : Stamp) : List (List Char) :=
  [t.year, t.month, t.day, t.hour, t.minute, t.second]

def date (t : Stamp) : List Char := ['-'].intercalate [t.year, t.month, t.day]

def time (t : Stamp) : List Char := [':'].intercalate [t.hour, t.minute, t.second]

def point (t : Stamp) : List Char := (t.fraction.map (List.cons '.')).getD []

def write (t : Stamp) : String :=
  String.ofList (t.date ++ 'T' :: (t.time ++ t.point ++ ['Z']))

end Stamp

/-- What digits are worth. -/
def value (cs : List Char) : Nat := Nat.ofDigitChars 10 cs 0

/-- The fraction of a second in whole milliseconds. -/
def fractionMs (t : Stamp) : Nat :=
  (t.fraction.map fun cs => value cs * 10 ^ 3 / 10 ^ cs.length).getD 0

/-- Unix time in milliseconds. -/
def unixMs (t : Stamp) : Nat :=
  unixDay (value t.year) (value t.month) (value t.day) * 86400000 + value t.hour * 3600000 +
    value t.minute * 60000 + value t.second * 1000 + fractionMs t

/-- `YYYY-MM-DDTHH:MM:SSZ` with an optional fraction. -/
structure Strict (t : Stamp) : Prop where
  widths : t.numerals.map List.length = [4, 2, 2, 2, 2, 2]
  digits : ∀ field ∈ t.numerals, AllDigits field
  fraction : ∀ cs ∈ t.fraction, cs ≠ [] ∧ AllDigits cs
  date : IsDate (value t.year) (value t.month) (value t.day)
  epoch : 1970 ≤ value t.year
  hour : value t.hour ≤ 23
  minute : value t.minute ≤ 59
  second : value t.second ≤ 60

/-! ## What is read -/

/-- A number as `str::parse` reads it: behind a plus sign, if there is one. -/
def unsigned : List Char → List Char
  | '+' :: cs => cs
  | cs => cs

def IsNumeral (cs : List Char) : Prop := unsigned cs ≠ [] ∧ AllDigits (unsigned cs)

instance (cs : List Char) : Decidable (IsNumeral cs) := inferInstanceAs (Decidable (_ ∧ _))

/-- What a number is read as. -/
def number (cs : List Char) : Nat := value (unsigned cs)

/-- The timestamps that have the parser's shape. -/
structure Loose (t : Stamp) : Prop where
  numerals : ∀ field ∈ t.numerals, IsNumeral field
  year : number t.year < 2 ^ 63
  month : 1 ≤ number t.month ∧ number t.month ≤ 12
  day : 1 ≤ number t.day ∧ number t.day ≤ 31
  hour : number t.hour ≤ 23
  minute : number t.minute ≤ 59
  second : number t.second ≤ 60
  fraction : ∀ cs ∈ t.fraction, AllDigits (cs.take 3)

/-- The number of the day, in a machine word. -/
def dayWord (t : Stamp) : Int :=
  (dayNumber (number t.year) (number t.month) (number t.day)).bmod (2 ^ 64)

/-- What a fraction is read as. -/
def placesMs (cs : List Char) : Nat :=
  value (cs.take 3 ++ List.replicate (3 - (cs.take 3).length) '0')

/-- What a timestamp of the shape is read as. -/
def readMs (t : Stamp) : Nat :=
  ((dayWord t).toNat * 86400000 + number t.hour * 3600000 + number t.minute * 60000 +
    number t.second * 1000 + placesMs (t.fraction.getD [])) % 2 ^ 64

/-- What a timestamp of the shape must be besides, to be one of the comment's: no sign, no
other width, no day that its month does not have, and a fraction of digits, one at least. -/
structure Exact (t : Stamp) : Prop where
  unsigned : ∀ field ∈ t.numerals, field.head? ≠ some '+'
  widths : t.numerals.map List.length = [4, 2, 2, 2, 2, 2]
  day : number t.day ≤ monthLength (number t.year) (number t.month)
  fraction : ∀ cs ∈ t.fraction, cs ≠ [] ∧ AllDigits cs

/-- The parser does what its comment says: it reads the strict timestamps of a string, and
nothing else. -/
def Meets (s : String) : Prop :=
  ∀ ms, parseRfc3339UtcMs s = some ms ↔ ∃ t, Strict t ∧ t.write = s ∧ unixMs t = ms

/-! ## Days -/

/-- Truncated after a shift, a quotient is that of Euclid. -/
theorem shifted_tdiv {k : Int} (hk : 0 < k) (z : Int) :
    (if 0 ≤ z then z else z - (k - 1)).tdiv k = z / k := by
  split
  · next hz => exact Int.tdiv_eq_ediv_of_nonneg hz
  · next hz =>
    have hneg : z - (k - 1) = -(k - 1 - z) := by omega
    have hsplit : k - 1 - z = (k - 1 - z % k) + k * -(z / k) := by
      have hdivision := Int.mul_ediv_add_emod z k
      rw [Int.mul_neg]
      omega
    have hlow := Int.emod_nonneg z (Int.ne_of_gt hk)
    have hhigh := Int.emod_lt_of_pos z hk
    rw [hneg, Int.neg_tdiv, Int.tdiv_eq_ediv_of_nonneg (by omega), hsplit,
      Int.add_mul_ediv_left _ _ (Int.ne_of_gt hk), Int.ediv_eq_zero_of_lt (by omega) (by omega),
      Int.zero_add, Int.neg_neg]

theorem daysFromCivil_eq (y : Int) (m : Nat) {d : Nat} (hd : 1 ≤ d) :
    daysFromCivil y m d = dayNumber y m d := by
  have hera := shifted_tdiv (show (0 : Int) < 400 by decide) (marchYear y m)
  unfold daysFromCivil dayNumber
  dsimp only
  rw [show (if m ≤ 2 then y - 1 else y) = marchYear y m from rfl,
    show (399 : Int) = 400 - 1 from rfl, hera]
  have hmonth : ((if m > 2 then m - 3 else m + 9 : Nat) : Int) = fromMarch m := by
    unfold fromMarch
    split <;> split <;> omega
  unfold marchDays marchDay
  rw [hmonth]
  generalize marchYear y m = w
  generalize fromMarch m = k
  omega

/-! ## Numbers -/

theorem parseUnsigned_eq {bits n : Nat} {s : String} :
    Text.parseUnsigned bits s = some n ↔
      IsNumeral s.toList ∧ number s.toList < 2 ^ bits ∧ number s.toList = n := by
  have hdigits : (unsigned s.toList).all Char.isDigit = true ↔ AllDigits (unsigned s.toList) :=
    List.all_eq_true
  show (if (unsigned s.toList = [] || !(unsigned s.toList).all Char.isDigit) = true then none
    else if number s.toList < 2 ^ bits then some (number s.toList) else none) = some n ↔ _
  by_cases hnumeral : IsNumeral s.toList
  · rw [if_neg]
    · by_cases hfits : number s.toList < 2 ^ bits
      · rw [if_pos hfits, Option.some.injEq]
        exact ⟨fun h => ⟨hnumeral, hfits, h⟩, fun h => h.2.2⟩
      · rw [if_neg hfits]
        exact ⟨fun h => (nomatch h), fun h => absurd h.2.1 hfits⟩
    · rw [hdigits.mpr hnumeral.2]
      simpa using hnumeral.1
  · rw [if_pos]
    · exact ⟨fun h => (nomatch h), fun h => absurd h.1 hnumeral⟩
    · by_cases hnil : unsigned s.toList = []
      · simp [hnil]
      · have hall : (unsigned s.toList).all Char.isDigit = false :=
          Bool.eq_false_iff.mpr fun hall => hnumeral ⟨hnil, hdigits.mp hall⟩
        rw [hall]
        simp

/-- No separator stands in a number. -/
theorem IsNumeral.not_mem {cs : List Char} (h : IsNumeral cs) {c : Char}
    (hdigit : c.isDigit = false) (hplus : c ≠ '+') : c ∉ cs := by
  intro hc
  have hrest : c ∈ unsigned cs := by
    unfold unsigned
    split
    · exact (List.mem_cons.mp hc).resolve_left hplus
    · exact hc
  rw [h.2 c hrest] at hdigit
  cases hdigit

/-- Without a sign a number is what it is. -/
theorem unsigned_digits {cs : List Char} (h : AllDigits cs) : unsigned cs = cs := by
  unfold unsigned
  split
  · have hplus := h '+' List.mem_cons_self
    cases hplus
  · rfl

/-! ## Fields -/

/-- Text up to the first separator, and the text behind it. -/
theorem append_cons_inj {c d : Char} {as bs cs ds : List Char} (ha : d ∉ as) (hb : c ∉ bs)
    (h : as ++ c :: cs = bs ++ d :: ds) : as = bs ∧ c = d ∧ cs = ds := by
  induction as generalizing bs with
  | nil =>
    cases bs with
    | nil =>
      obtain ⟨hc, hcs⟩ := List.cons.inj h
      exact ⟨rfl, hc, hcs⟩
    | cons b bs => exact absurd ((List.cons.inj h).1 ▸ List.mem_cons_self) hb
  | cons a as ih =>
    cases bs with
    | nil => exact absurd ((List.cons.inj h).1 ▸ List.mem_cons_self) ha
    | cons b bs =>
      obtain ⟨rfl, hrest⟩ := List.cons.inj h
      obtain ⟨rfl, hc, hcs⟩ := ih (fun hd => ha (List.mem_cons_of_mem _ hd))
        (fun hc => hb (List.mem_cons_of_mem _ hc)) hrest
      exact ⟨rfl, hc, hcs⟩

theorem toList_of_split {c : Char} {s x y z : String} (h : Text.split c s = [x, y, z]) :
    s.toList = [c].intercalate [x.toList, y.toList, z.toList] := by
  have hlists := congrArg (List.map String.toList) h
  unfold Text.split at hlists
  rw [List.map_map, show String.toList ∘ String.ofList = id from funext fun _ =>
    String.toList_ofList, List.map_id] at hlists
  have hjoined : [c].intercalate (s.toList.splitOn c) = s.toList := List.intercalate_splitOn c
  rw [hlists] at hjoined
  exact hjoined.symm

theorem split_ofList {c : Char} {fields : List (List Char)} (hplain : Joined.Plain c fields)
    (hne : fields ≠ []) :
    Text.split c (String.ofList ([c].intercalate fields)) = fields.map String.ofList := by
  unfold Text.split
  rw [String.toList_ofList, List.splitOn_intercalate c hplain hne]

/-- The time of day, cut at its fraction. -/
def cutFraction (time : String) : String × String := (Text.splitOnce '.' time).getD (time, "")

theorem toList_of_cutFraction {time hms frac : String} (h : cutFraction time = (hms, frac)) :
    ∃ fraction : Option (List Char), frac.toList = fraction.getD [] ∧
      time.toList = hms.toList ++ (fraction.map (List.cons '.')).getD [] := by
  unfold cutFraction at h
  cases hcut : Text.splitOnce '.' time with
  | none =>
    rw [hcut] at h
    obtain ⟨rfl, rfl⟩ := Prod.mk.inj h
    exact ⟨none, rfl, (List.append_nil _).symm⟩
  | some halves =>
    rw [hcut] at h
    obtain rfl : halves = (hms, frac) := h
    exact ⟨some frac.toList, rfl, (Text.splitOnce_eq.mp hcut).1⟩

theorem cutFraction_ofList {time : List Char} (h : '.' ∉ time) (fraction : Option (List Char)) :
    cutFraction (String.ofList (time ++ (fraction.map (List.cons '.')).getD [])) =
      (String.ofList time, String.ofList (fraction.getD [])) := by
  unfold cutFraction
  cases fraction with
  | none =>
    have hnone : Text.splitOnce '.' (String.ofList (time ++ [])) = none := by
      rw [List.append_nil]
      cases hcut : Text.splitOnce '.' (String.ofList time) with
      | none => rfl
      | some halves =>
        have heq := (Text.splitOnce_eq.mp hcut).1
        rw [String.toList_ofList] at heq
        rw [heq] at h
        exact absurd (List.mem_append_right _ List.mem_cons_self) h
    show (Text.splitOnce '.' (String.ofList (time ++ []))).getD (String.ofList (time ++ []), "") = _
    rw [hnone, List.append_nil]
    rfl
  | some cs =>
    have hsome : Text.splitOnce '.' (String.ofList (time ++ '.' :: cs)) =
        some (String.ofList time, String.ofList cs) := by
      rw [Text.splitOnce_eq, String.toList_ofList, String.toList_ofList, String.toList_ofList]
      exact ⟨rfl, h⟩
    show (Text.splitOnce '.' (String.ofList (time ++ '.' :: cs))).getD _ = _
    rw [hsome]
    rfl

/-! ## The parser -/

/-- What is read of a date. -/
def readDate (date : String) : Option (Nat × Nat × Nat) :=
  match Text.split '-' date with
  | [year, month, day] => do
    let year ← Text.parseUnsigned 63 year
    let month ← Text.parseUnsigned 32 month
    let day ← Text.parseUnsigned 32 day
    if month < 1 || 12 < month || day < 1 || 31 < day then none else some (year, month, day)
  | _ => none

/-- What is read of a time of day without its fraction, in milliseconds. -/
def readTime (hms : String) : Option Nat :=
  match Text.split ':' hms with
  | [hour, minute, second] => do
    let hour ← Text.parseUnsigned 64 hour
    let minute ← Text.parseUnsigned 64 minute
    let second ← Text.parseUnsigned 64 second
    if 23 < hour || 59 < minute || 60 < second then none
    else some (hour * 3600000 + minute * 60000 + second * 1000)
  | _ => none

def readFraction (frac : String) : Option Nat :=
  if !(frac.toList.take 3).all Char.isDigit then none else some (placesMs frac.toList)

/-- The milliseconds of a date and what is behind it. -/
def stampMs (date : Nat × Nat × Nat) (time millis : Nat) : Option Nat :=
  let days := (daysFromCivil date.1 date.2.1 date.2.2).bmod (2 ^ 64)
  if days < 0 then none else some ((days.toNat * 86400000 + time + millis) % 2 ^ 64)

/-- What is read of a time of day and a fraction, for a date that is read. -/
def readRest (date : Nat × Nat × Nat) (cut : String × String) : Option Nat :=
  (readTime cut.1).bind fun time => (readFraction cut.2).bind fun millis =>
    stampMs date time millis

theorem readRest_eq (y m d : Nat) (hms frac : String) :
    (match Text.split ':' hms with
      | [hour, minute, second] => do
        let hour ← Text.parseUnsigned 64 hour
        let minute ← Text.parseUnsigned 64 minute
        let second ← Text.parseUnsigned 64 second
        if 23 < hour || 59 < minute || 60 < second then none
        else
          let digits := frac.toList.take 3
          if !digits.all Char.isDigit then none
          else
            let millis := Text.digitsValue (digits ++ List.replicate (3 - digits.length) '0')
            let days := (daysFromCivil y m d).bmod (2 ^ 64)
            if days < 0 then none
            else
              some ((days.toNat * 86400000 + hour * 3600000 + minute * 60000 + second * 1000
                + millis) % 2 ^ 64)
      | _ => none) = readRest (y, m, d) (hms, frac) := by
  unfold readRest readTime
  dsimp only
  split
  · next hour minute second hsplit =>
    cases Text.parseUnsigned 64 hour with
    | none => rfl
    | some h =>
      cases Text.parseUnsigned 64 minute with
      | none => rfl
      | some mi =>
        cases Text.parseUnsigned 64 second with
        | none => rfl
        | some sec =>
          show (if _ then _ else _) = (if _ then _ else _ : Option Nat).bind _
          split
          · rfl
          · show (if _ then _ else _) = (readFraction frac).bind _
            unfold readFraction
            split
            · rfl
            · show (if _ then _ else _) = stampMs _ _ _
              unfold stampMs
              dsimp only
              split
              · rfl
              · rw [← Nat.add_assoc, ← Nat.add_assoc]
                rfl
  · rfl

/-- The parser by the parts of a timestamp. -/
theorem parse_eq (s : String) : parseRfc3339UtcMs s =
    (Text.stripSuffix "Z" s).bind fun body =>
      (Text.splitOnce 'T' body).bind fun halves =>
        (readDate halves.1).bind fun date => readRest date (cutFraction halves.2) := by
  unfold parseRfc3339UtcMs
  refine congrArg _ (funext fun body => congrArg _ (funext fun ⟨date, time⟩ => ?_))
  unfold readDate
  dsimp only
  -- A date is of three fields, and of any other number of them there is none.
  obtain _ | ⟨year, _ | ⟨month, _ | ⟨day, _ | ⟨more, rest⟩⟩⟩⟩ := Text.split '-' date
  · rfl
  · rfl
  · rfl
  · dsimp only
    cases Text.parseUnsigned 63 year with
    | none => rfl
    | some y =>
      cases Text.parseUnsigned 32 month with
      | none => rfl
      | some m =>
        cases Text.parseUnsigned 32 day with
        | none => rfl
        | some d =>
          show (if _ then _ else _) = (if _ then _ else _ : Option (Nat × Nat × Nat)).bind _
          split
          · rfl
          · exact readRest_eq y m d (cutFraction time).1 (cutFraction time).2
  · rfl

/-! ## The parts -/

/-- No separator stands in a field that is a number. -/
theorem Loose.plain {t : Stamp} (h : Loose t) {fields : List (List Char)}
    (hsub : fields ⊆ t.numerals) {c : Char} (hdigit : c.isDigit = false) (hplus : c ≠ '+') :
    Joined.Plain c fields :=
  fun field hfield => (h.numerals field (hsub hfield)).not_mem hdigit hplus

theorem Loose.not_mem_date {t : Stamp} (h : Loose t) {c : Char} (hdigit : c.isDigit = false)
    (hplus : c ≠ '+') (hminus : c ≠ '-') : c ∉ t.date :=
  Joined.not_mem_joined hminus (h.plain (List.subset_append_left _ _) hdigit hplus)

theorem Loose.not_mem_time {t : Stamp} (h : Loose t) {c : Char} (hdigit : c.isDigit = false)
    (hplus : c ≠ '+') (hcolon : c ≠ ':') : c ∉ t.time :=
  Joined.not_mem_joined hcolon (h.plain (List.subset_append_right [t.year, t.month, t.day] _) hdigit hplus)

theorem parseUnsigned_ofList {cs : List Char} (h : IsNumeral cs) {bits : Nat}
    (hfits : number cs < 2 ^ bits) :
    Text.parseUnsigned bits (String.ofList cs) = some (number cs) := by
  rw [parseUnsigned_eq, String.toList_ofList]
  exact ⟨h, hfits, rfl⟩

theorem readDate_write {t : Stamp} (h : Loose t) :
    readDate (String.ofList t.date) = some (number t.year, number t.month, number t.day) := by
  have hmonth := h.month
  have hday := h.day
  unfold readDate Stamp.date
  rw [split_ofList (h.plain (List.subset_append_left _ _) (by decide) (by decide))
    (List.cons_ne_nil _ _)]
  show (Text.parseUnsigned 63 _).bind _ = _
  rw [parseUnsigned_ofList (h.numerals _ (by simp [Stamp.numerals])) h.year]
  show (Text.parseUnsigned 32 _).bind _ = _
  rw [parseUnsigned_ofList (h.numerals _ (by simp [Stamp.numerals])) (by omega)]
  show (Text.parseUnsigned 32 _).bind _ = _
  rw [parseUnsigned_ofList (h.numerals _ (by simp [Stamp.numerals])) (by omega)]
  exact if_neg (by simp only [Bool.or_eq_true, decide_eq_true_eq]; omega)

theorem readTime_write {t : Stamp} (h : Loose t) : readTime (String.ofList t.time) =
    some (number t.hour * 3600000 + number t.minute * 60000 + number t.second * 1000) := by
  have hhour := h.hour
  have hminute := h.minute
  have hsecond := h.second
  unfold readTime Stamp.time
  rw [split_ofList (h.plain (List.subset_append_right [t.year, t.month, t.day] _) (by decide) (by decide))
    (List.cons_ne_nil _ _)]
  show (Text.parseUnsigned 64 _).bind _ = _
  rw [parseUnsigned_ofList (h.numerals _ (by simp [Stamp.numerals])) (by omega)]
  show (Text.parseUnsigned 64 _).bind _ = _
  rw [parseUnsigned_ofList (h.numerals _ (by simp [Stamp.numerals])) (by omega)]
  show (Text.parseUnsigned 64 _).bind _ = _
  rw [parseUnsigned_ofList (h.numerals _ (by simp [Stamp.numerals])) (by omega)]
  exact if_neg (by simp only [Bool.or_eq_true, decide_eq_true_eq]; omega)

theorem readFraction_eq {frac : String} {ms : Nat} :
    readFraction frac = some ms ↔ AllDigits (frac.toList.take 3) ∧ placesMs frac.toList = ms := by
  have hdigits : (frac.toList.take 3).all Char.isDigit = true ↔ AllDigits (frac.toList.take 3) :=
    List.all_eq_true
  unfold readFraction
  by_cases hall : AllDigits (frac.toList.take 3)
  · rw [if_neg (by rw [hdigits.mpr hall]; simp), Option.some.injEq]
    exact ⟨fun h => ⟨hall, h⟩, fun h => h.2⟩
  · rw [if_pos (by rw [Bool.eq_false_iff.mpr fun h => hall (hdigits.mp h)]; rfl)]
    exact ⟨fun h => (nomatch h), fun h => absurd h.1 hall⟩

/-! ## Which strings are read -/

/-- What a timestamp of the parser's shape is read as. -/
theorem parse_write {t : Stamp} (h : Loose t) :
    parseRfc3339UtcMs t.write = if dayWord t < 0 then none else some (readMs t) := by
  have hsuffix : Text.stripSuffix "Z" t.write =
      some (String.ofList (t.date ++ 'T' :: (t.time ++ t.point))) := by
    rw [Text.stripSuffix_eq, ← String.toList_inj]
    simp [Stamp.write]
  have hT : 'T' ∉ t.date := h.not_mem_date (by decide) (by decide) (by decide)
  have hhalves : Text.splitOnce 'T' (String.ofList (t.date ++ 'T' :: (t.time ++ t.point))) =
      some (String.ofList t.date, String.ofList (t.time ++ t.point)) := by
    rw [Text.splitOnce_eq, String.toList_ofList, String.toList_ofList, String.toList_ofList]
    exact ⟨rfl, hT⟩
  have hpoint : '.' ∉ t.time := h.not_mem_time (by decide) (by decide) (by decide)
  have hfraction : readFraction (String.ofList (t.fraction.getD [])) =
      some (placesMs (t.fraction.getD [])) := by
    rw [readFraction_eq, String.toList_ofList]
    refine ⟨?_, rfl⟩
    cases hcs : t.fraction with
    | none =>
      intro c hc
      cases hc
    | some cs => exact h.fraction cs hcs
  have hword : (daysFromCivil (number t.year) (number t.month) (number t.day)).bmod (2 ^ 64) =
      dayWord t := by
    rw [daysFromCivil_eq _ _ h.day.1]
    rfl
  rw [parse_eq, hsuffix, Option.bind_some, hhalves, Option.bind_some, readDate_write h,
    Option.bind_some]
  unfold readRest Stamp.point
  rw [cutFraction_ofList hpoint, readTime_write h, Option.bind_some, hfraction, Option.bind_some]
  unfold stampMs readMs
  dsimp only
  rw [hword, ← Nat.add_assoc, ← Nat.add_assoc]

theorem of_readDate {date : String} {p : Nat × Nat × Nat} (h : readDate date = some p) :
    ∃ year month day : List Char, date.toList = ['-'].intercalate [year, month, day] ∧
      (IsNumeral year ∧ IsNumeral month ∧ IsNumeral day) ∧ number year < 2 ^ 63 ∧
      (1 ≤ number month ∧ number month ≤ 12) ∧ 1 ≤ number day ∧ number day ≤ 31 := by
  unfold readDate at h
  split at h
  · next year month day hsplit =>
    obtain ⟨y, hyear, h⟩ := Option.bind_eq_some_iff.mp h
    obtain ⟨m, hmonth, h⟩ := Option.bind_eq_some_iff.mp h
    obtain ⟨d, hday, h⟩ := Option.bind_eq_some_iff.mp h
    obtain ⟨hyear', hfits, rfl⟩ := parseUnsigned_eq.mp hyear
    obtain ⟨hmonth', _, rfl⟩ := parseUnsigned_eq.mp hmonth
    obtain ⟨hday', _, rfl⟩ := parseUnsigned_eq.mp hday
    split at h
    · cases h
    · next hrange =>
      simp only [Bool.or_eq_true, decide_eq_true_eq] at hrange
      exact ⟨year.toList, month.toList, day.toList, toList_of_split hsplit,
        ⟨hyear', hmonth', hday'⟩, hfits, by omega, by omega⟩
  · cases h

theorem of_readTime {hms : String} {ms : Nat} (h : readTime hms = some ms) :
    ∃ hour minute second : List Char, hms.toList = [':'].intercalate [hour, minute, second] ∧
      (IsNumeral hour ∧ IsNumeral minute ∧ IsNumeral second) ∧ number hour ≤ 23 ∧
      number minute ≤ 59 ∧ number second ≤ 60 := by
  unfold readTime at h
  split at h
  · next hour minute second hsplit =>
    obtain ⟨_, hhour, h⟩ := Option.bind_eq_some_iff.mp h
    obtain ⟨_, hminute, h⟩ := Option.bind_eq_some_iff.mp h
    obtain ⟨_, hsecond, h⟩ := Option.bind_eq_some_iff.mp h
    obtain ⟨hhour', _, rfl⟩ := parseUnsigned_eq.mp hhour
    obtain ⟨hminute', _, rfl⟩ := parseUnsigned_eq.mp hminute
    obtain ⟨hsecond', _, rfl⟩ := parseUnsigned_eq.mp hsecond
    split at h
    · cases h
    · next hrange =>
      simp only [Bool.or_eq_true, decide_eq_true_eq] at hrange
      exact ⟨hour.toList, minute.toList, second.toList, toList_of_split hsplit,
        ⟨hhour', hminute', hsecond'⟩, by omega, by omega, by omega⟩
  · cases h

/-- What is read has the parser's shape. -/
theorem exists_of_parse {s : String} {ms : Nat} (h : parseRfc3339UtcMs s = some ms) :
    ∃ t, Loose t ∧ t.write = s := by
  rw [parse_eq] at h
  obtain ⟨body, hbody, h⟩ := Option.bind_eq_some_iff.mp h
  obtain ⟨⟨date, time⟩, hhalves, h⟩ := Option.bind_eq_some_iff.mp h
  obtain ⟨_, hdate, h⟩ := Option.bind_eq_some_iff.mp h
  unfold readRest at h
  cases hcut : cutFraction time with
  | mk hms frac =>
    rw [hcut] at h
    obtain ⟨_, htime, h⟩ := Option.bind_eq_some_iff.mp h
    obtain ⟨_, hfrac, _⟩ := Option.bind_eq_some_iff.mp h
    obtain ⟨year, month, day, hdateText, ⟨hyear, hmonth, hday⟩, hfits, hmonthRange, hdayRange⟩ :=
      of_readDate hdate
    obtain ⟨hour, minute, second, htimeText, ⟨hhour, hminute, hsecond⟩, hhourRange,
      hminuteRange, hsecondRange⟩ := of_readTime htime
    obtain ⟨fraction, hfraction, hcutText⟩ := toList_of_cutFraction hcut
    have hplaces := (readFraction_eq.mp hfrac).1
    refine ⟨⟨year, month, day, hour, minute, second, fraction⟩,
      ⟨?_, hfits, hmonthRange, hdayRange, hhourRange, hminuteRange, hsecondRange, ?_⟩, ?_⟩
    · intro field hfield
      simp only [Stamp.numerals, List.mem_cons, List.not_mem_nil, or_false] at hfield
      rcases hfield with rfl | rfl | rfl | rfl | rfl | rfl <;> assumption
    · intro cs hcs
      obtain rfl : fraction = some cs := hcs
      rw [hfraction] at hplaces
      exact hplaces
    · rw [Text.stripSuffix_eq.mp hbody, ← String.toList_inj, String.toList_append,
        (Text.splitOnce_eq.mp hhalves).1, hcutText, hdateText, htimeText]
      simp [Stamp.write, Stamp.date, Stamp.time, Stamp.point]

/-- A string is of one shape. -/
theorem write_injective {t u : Stamp} (ht : Loose t) (hu : Loose u) (h : t.write = u.write) :
    t = u := by
  have hlists := String.ofList_injective h
  obtain ⟨hdate, -, hrest⟩ := append_cons_inj
    (ht.not_mem_date (by decide) (by decide) (by decide))
    (hu.not_mem_date (by decide) (by decide) (by decide)) hlists
  -- Behind the time of day is either a point or the last letter.
  have htime : t.time = u.time ∧ t.fraction = u.fraction := by
    unfold Stamp.point at hrest
    rw [List.append_assoc, List.append_assoc] at hrest
    have hfree {v : Stamp} (hv : Loose v) : 'Z' ∉ v.time ∧ '.' ∉ v.time :=
      ⟨hv.not_mem_time (by decide) (by decide) (by decide),
        hv.not_mem_time (by decide) (by decide) (by decide)⟩
    cases htf : t.fraction with
    | none =>
      cases huf : u.fraction with
      | none =>
        rw [htf, huf] at hrest
        exact ⟨(append_cons_inj (hfree ht).1 (hfree hu).1 hrest).1, rfl⟩
      | some ds =>
        rw [htf, huf] at hrest
        exact absurd (append_cons_inj (hfree ht).2 (hfree hu).1 hrest).2.1 (by decide)
    | some cs =>
      cases huf : u.fraction with
      | none =>
        rw [htf, huf] at hrest
        exact absurd (append_cons_inj (hfree ht).1 (hfree hu).2 hrest).2.1 (by decide)
      | some ds =>
        rw [htf, huf] at hrest
        obtain ⟨htime, -, hcs⟩ := append_cons_inj (hfree ht).2 (hfree hu).2 hrest
        exact ⟨htime, congrArg some (List.append_cancel_right hcs)⟩
  have hdates : [t.year, t.month, t.day] = [u.year, u.month, u.day] :=
    Joined.joined_inj (ht.plain (List.subset_append_left _ _) (show '-'.isDigit = false by decide)
      (by decide)) rfl hdate
  have htimes : [t.hour, t.minute, t.second] = [u.hour, u.minute, u.second] :=
    Joined.joined_inj (ht.plain (List.subset_append_right [t.year, t.month, t.day] _)
      (show ':'.isDigit = false by decide) (by decide)) rfl htime.1
  simp only [List.cons.injEq, and_true] at hdates htimes
  obtain ⟨hyear, hmonth, hday⟩ := hdates
  obtain ⟨hhour, hminute, hsecond⟩ := htimes
  cases t
  cases u
  simp_all

/-! ## Strict timestamps -/

theorem number_eq_value {cs : List Char} (h : cs.head? ≠ some '+') : number cs = value cs := by
  unfold number unsigned
  split
  · exact absurd rfl h
  · rfl

theorem allDigits_of_unsigned {cs : List Char} (h : cs.head? ≠ some '+') (hnum : IsNumeral cs) :
    AllDigits cs := by
  have hdigits := hnum.2
  unfold unsigned at hdigits
  split at hdigits
  · exact absurd rfl h
  · exact hdigits

theorem head?_of_digits {cs : List Char} (h : AllDigits cs) : cs.head? ≠ some '+' := by
  intro hhead
  have hplus := h '+' (List.mem_of_head? hhead)
  cases hplus

/-- Without signs the numbers are what is written. -/
theorem numbers_eq {t : Stamp} (h : ∀ field ∈ t.numerals, field.head? ≠ some '+') :
    number t.year = value t.year ∧ number t.month = value t.month ∧
      number t.day = value t.day ∧ number t.hour = value t.hour ∧
      number t.minute = value t.minute ∧ number t.second = value t.second := by
  simp only [Stamp.numerals, List.mem_cons, List.not_mem_nil, or_false, forall_eq_or_imp,
    forall_eq] at h
  obtain ⟨hyear, hmonth, hday, hhour, hminute, hsecond⟩ := h
  exact ⟨number_eq_value hyear, number_eq_value hmonth, number_eq_value hday,
    number_eq_value hhour, number_eq_value hminute, number_eq_value hsecond⟩

/-- The day of a year of four digits is in a word. -/
theorem dayWord_eq {t : Stamp} (h : Loose t) (hyear : number t.year < 10000) :
    dayWord t = dayNumber (number t.year) (number t.month) (number t.day) := by
  obtain ⟨hlow, hhigh⟩ := dayNumber_bounds hyear h.month.2 h.day.2
  unfold dayWord
  exact Int.bmod_eq_of_le (by omega) (by omega)

theorem Strict.year_lt {t : Stamp} (h : Strict t) : value t.year < 10000 := by
  have hlt := value_lt (h.digits t.year List.mem_cons_self)
  have hlength : t.year.length = 4 := (List.cons.inj h.widths).1
  rwa [hlength] at hlt

theorem Strict.unsigned {t : Stamp} (h : Strict t) :
    ∀ field ∈ t.numerals, field.head? ≠ some '+' :=
  fun field hfield => head?_of_digits (h.digits field hfield)

theorem Strict.loose {t : Stamp} (h : Strict t) : Loose t := by
  have hyear := h.year_lt
  have hdate := h.date
  obtain ⟨hy, hm, hd, hh, hmi, hs⟩ := numbers_eq h.unsigned
  refine ⟨fun field hfield => ⟨?_, ?_⟩, by omega, ?_, ?_, ?_, ?_, ?_, fun cs hcs => ?_⟩
  · rw [unsigned_digits (h.digits field hfield)]
    intro hnil
    have hlength := List.mem_map_of_mem (f := List.length) hfield
    rw [h.widths, hnil] at hlength
    simp at hlength
  · rw [unsigned_digits (h.digits field hfield)]
    exact h.digits field hfield
  · rw [hm]
    exact ⟨hdate.month_pos, hdate.month_le⟩
  · rw [hd]
    exact ⟨hdate.day_pos, hdate.day_le_31⟩
  · rw [hh]
    exact h.hour
  · rw [hmi]
    exact h.minute
  · rw [hs]
    exact h.second
  · exact fun c hc => (h.fraction cs hcs).2 c (List.mem_of_mem_take hc)

/-- The day of a strict timestamp is counted from the epoch. -/
theorem Strict.dayWord_eq {t : Stamp} (h : Strict t) :
    dayWord t = unixDay (value t.year) (value t.month) (value t.day) := by
  obtain ⟨hyear, hmonth, hday, -⟩ := numbers_eq h.unsigned
  rw [Rfc3339.dayWord_eq h.loose (by rw [hyear]; exact h.year_lt), hyear, hmonth, hday]
  exact dayNumber_eq h.epoch h.date

theorem strict_iff {t : Stamp} : Strict t ↔ Loose t ∧ 0 ≤ dayWord t ∧ Exact t := by
  constructor
  · intro h
    refine ⟨h.loose, ?_, h.unsigned, h.widths, ?_, h.fraction⟩
    · rw [h.dayWord_eq]
      exact Int.natCast_nonneg _
    · obtain ⟨hyear, hmonth, hday, -⟩ := numbers_eq h.unsigned
      rw [hyear, hmonth, hday]
      exact h.date.day_le
  · rintro ⟨hloose, hword, hexact⟩
    obtain ⟨hyear, hmonth, hday, hhour, hminute, hsecond⟩ := numbers_eq hexact.unsigned
    have hdigits : ∀ field ∈ t.numerals, AllDigits field := fun field hfield =>
      allDigits_of_unsigned (hexact.unsigned field hfield) (hloose.numerals field hfield)
    have hfour : number t.year < 10000 := by
      have hlt := value_lt (hdigits t.year List.mem_cons_self)
      have hlength : t.year.length = 4 := (List.cons.inj hexact.widths).1
      rw [hlength] at hlt
      rw [hyear]
      exact hlt
    refine ⟨hexact.widths, hdigits, hexact.fraction, ?_, ?_, ?_, ?_, ?_⟩
    · rw [← hyear, ← hmonth, ← hday]
      exact ⟨hloose.month.1, hloose.month.2, hloose.day.1, hexact.day⟩
    · -- A year before 1970 has a negative day.
      by_contra hbefore
      have hneg := dayNumber_neg (show (number t.year : Int) < 1970 by omega) hloose.month.1
        hloose.month.2 hloose.day.2
      rw [dayWord_eq hloose hfour] at hword
      omega
    · rw [← hhour]
      exact hloose.hour
    · rw [← hminute]
      exact hloose.minute
    · rw [← hsecond]
      exact hloose.second

theorem Strict.placesMs_eq {t : Stamp} (h : Strict t) :
    placesMs (t.fraction.getD []) = fractionMs t ∧ fractionMs t < 1000 := by
  unfold fractionMs
  cases hcs : t.fraction with
  | none => exact ⟨rfl, by decide⟩
  | some cs =>
    have hdigits := (h.fraction cs hcs).2
    refine ⟨value_places hdigits 3, ?_⟩
    rw [Option.map_some, Option.getD_some, Nat.div_lt_iff_lt_mul (Nat.pow_pos (by decide)),
      Nat.mul_comm]
    exact Nat.mul_lt_mul_of_pos_left (value_lt hdigits) (by decide)

/-- A strict timestamp is read as the Unix time that it stands for. -/
theorem Strict.readMs_eq {t : Stamp} (h : Strict t) : readMs t = unixMs t := by
  obtain ⟨hyear, hmonth, hday, hhour, hminute, hsecond⟩ := numbers_eq h.unsigned
  obtain ⟨hplaces, hfraction⟩ := h.placesMs_eq
  have hword := h.dayWord_eq
  have hbound := (dayNumber_bounds (y := value t.year) h.year_lt h.date.month_le
    h.date.day_le_31).2
  rw [dayNumber_eq h.epoch h.date] at hbound
  have hclock := h.hour
  have hminutes := h.minute
  have hseconds := h.second
  unfold readMs unixMs
  rw [hword, Int.toNat_natCast, hplaces, hhour, hminute, hsecond]
  refine Nat.mod_eq_of_lt ?_
  omega

/-! ## Against the comment -/

/-- The parser reads a string as its comment says exactly when no timestamp of the parser's
shape is written there, or it is one whose day comes out negative, or one with no sign, no
other width, no day past its month's end and no fraction but of digits. -/
theorem meets_iff (s : String) :
    Meets s ↔ ∀ t, Loose t → t.write = s → 0 ≤ dayWord t → Exact t := by
  constructor
  · intro hmeets t hloose hwrite hword
    have hparse := parse_write hloose
    rw [hwrite, if_neg (by omega)] at hparse
    obtain ⟨u, hstrict, hwritten, -⟩ := (hmeets _).mp hparse
    obtain rfl := write_injective hstrict.loose hloose (hwritten.trans hwrite.symm)
    exact (strict_iff.mp hstrict).2.2
  · intro hexact ms
    constructor
    · intro hparse
      obtain ⟨t, hloose, hwrite⟩ := exists_of_parse hparse
      have hread := parse_write hloose
      rw [hwrite, hparse] at hread
      by_cases hword : dayWord t < 0
      · rw [if_pos hword] at hread
        cases hread
      · have hstrict := strict_iff.mpr ⟨hloose, by omega, hexact t hloose hwrite (by omega)⟩
        rw [if_neg hword, Option.some.injEq, hstrict.readMs_eq] at hread
        exact ⟨t, hstrict, hwrite, hread.symm⟩
    · rintro ⟨t, hstrict, rfl, rfl⟩
      have hword := (strict_iff.mp hstrict).2.1
      rw [parse_write hstrict.loose, if_neg (by omega), hstrict.readMs_eq]

/-- The 31st of February. -/
def february : Stamp :=
  ⟨"2024".toList, "02".toList, "31".toList, "00".toList, "00".toList, "00".toList, none⟩

/-- It is read, as the second of March. -/
theorem february_31_read : ¬ Meets "2024-02-31T00:00:00Z" := by
  intro hmeets
  have hloose : Loose february :=
    ⟨by decide, by decide, by decide, by decide, by decide, by decide, by decide,
      fun cs hcs => absurd hcs (Option.not_mem_none cs)⟩
  have hparse : parseRfc3339UtcMs february.write = some 1709337600000 := by
    rw [parse_write hloose]
    decide
  obtain ⟨t, hstrict, hwrite, -⟩ := (hmeets _).mp hparse
  obtain rfl := write_injective hstrict.loose hloose hwrite
  exact absurd hstrict.date (by decide)

end RapidRouter.Core.Rfc3339
