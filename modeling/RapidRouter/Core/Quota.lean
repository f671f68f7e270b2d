import RapidRouter.Core.Router
import RapidRouter.Core.Text
import RapidRouter.Lib.Binary64
import RapidRouter.Lib.Json.Value
import RapidRouter.Lib.Lists

/-!
# What a provider says about its quota

`router-core/src/quota.rs`: how long to wait, read from a `retry-after` header or from
the body of an error, and the windows that a subscription's headers report. What may go
wrong on the way is a `Fault`; `windows_iff` says which responses are read without one.
-/

namespace RapidRouter.Core.Limits

open Json Binary64

/-! ## Numbers in text -/

/-- A text that is read as a double. -/
inductive Reading where
  | decimal (neg : Bool) (mantissa : Nat) (exponent : Int)
  | inf (neg : Bool)
  | nan
  deriving DecidableEq

namespace Reading

/-- `± mantissa · 10 ^ exponent`. -/
def value (neg : Bool) (mantissa : Nat) (exponent : Int) : ℚ :=
  (if neg then -1 else 1) * (mantissa * 10 ^ exponent)

def toF64 : Reading → F64
  | decimal neg mantissa exponent => .ofRat (value neg mantissa exponent)
  | inf neg => .inf neg
  | nan => .nan

/-- The number itself, when it is one that a double can hold. -/
def number : Reading → Option ℚ
  | decimal neg mantissa exponent =>
    let q := value neg mantissa exponent
    if infinite |q| then none else some q
  | _ => none

end Reading

/-- A sign, if there is one. -/
def signOf : List Char → Bool × List Char
  | '-' :: cs => (true, cs)
  | '+' :: cs => (false, cs)
  | cs => (false, cs)

def readExponent : List Char → Option Int
  | [] => some 0
  | c :: cs =>
    if c = 'e' ∨ c = 'E' then
      let (neg, digits) := signOf cs
      if digits = [] ∨ ¬ digits.all Char.isDigit then none
      else some (if neg then -(Text.digitsValue digits : Int) else Text.digitsValue digits)
    else none

/-- Digits, a point among them or not, and an exponent. -/
def readNumber (cs : List Char) : Option (Nat × Int) :=
  let (whole, rest) := cs.span Char.isDigit
  let (frac, rest) :=
    match rest with
    | '.' :: rest => rest.span Char.isDigit
    | rest => ([], rest)
  if whole = [] ∧ frac = [] then none
  else (readExponent rest).map fun e => (Text.digitsValue (whole ++ frac), e - frac.length)

/-- What `str::parse::<f64>` reads. -/
def readFloat (s : String) : Option Reading :=
  let (neg, cs) := signOf s.toList
  let name := String.ofList (cs.map Text.asciiLower)
  if name = "inf" ∨ name = "infinity" then some (.inf neg)
  else if name = "nan" then some .nan
  else (readNumber cs).map fun d => .decimal neg d.1 d.2

def parseF64 (s : String) : Option F64 := (readFloat s).map Reading.toF64

/-- A JSON number, which is never infinite. -/
def readingOf : Number → Reading
  | .posInt n _ => .decimal false n 0
  | .negInt n _ _ => .decimal true n 0
  | .float neg mantissa exponent _ => .decimal neg mantissa exponent

/-! ## Durations -/

inductive Fault where
  /-- `Duration::from_secs_f64` panics. -/
  | duration
  /-- An integer overflows. -/
  | overflow
  deriving DecidableEq

structure Duration where
  nanos : Nat
  deriving DecidableEq

def Duration.fromSecs (secs : Nat) : Duration := ⟨secs * 10 ^ 9⟩

/-- `Duration::from_secs_f64`, which panics outside the range. -/
def fromSecsF64 : F64 → Except Fault Duration
  | .finite q =>
    if q < 0 ∨ 2 ^ (64 : ℤ) ≤ q then .error .duration
    else .ok ⟨(roundEven (q * 10 ^ 9)).toNat⟩
  | _ => .error .duration

/-- A product of two `u64`. -/
def mulU64 (a b : Nat) : Except Fault Nat := if a * b < 2 ^ 64 then .ok (a * b) else .error .overflow

/-! ## How long to wait -/

def retryAfterHeader (value : String) : Except Fault (Option Duration) :=
  match parseF64 (Text.trim value) with
  | none => .ok none
  | some secs =>
    if secs.isFinite then (fromSecsF64 (secs.max (.finite 0))).map some else .ok none

/-- `RELATIVE_KEYS` -/
def relativeKeys : List String := ["resets_in_seconds", "retry_after_seconds", "retry_after"]

/-- `ABSOLUTE_KEYS` -/
def absoluteKeys : List String := ["resets_at", "reset_at"]

def finiteNumber (value : Value) : Option F64 :=
  (match value with
    | .number n => some (readingOf n).toF64
    | .string s => parseF64 (Text.trim s)
    | _ => none).filter F64.isFinite

/-- The seconds that one scope gives, the relative keys first. -/
def scopeSecs (now : UInt64) (scope : Value) : Option F64 :=
  (relativeKeys.findSome? fun key =>
      ((scope.get? key).bind finiteNumber).map fun secs => secs.max (.finite 0)).or
    (absoluteKeys.findSome? fun key =>
      ((scope.get? key).bind finiteNumber).map fun at_ =>
        (at_.sub (.ofRat now.toNat)).max (.finite 0))

def retryAfterBody (body : Value) (now : UInt64) : Except Fault (Option Duration) :=
  match [body, (body.get? "error").getD .null].findSome? (scopeSecs now) with
  | some secs => (fromSecsF64 secs).map some
  | none => .ok none

/-! ## Windows -/

structure Window where
  utilization : F64
  resetsIn : Option Duration
  length : Option Duration
  rejected : Bool

structure Quota where
  primary : Option Window
  secondary : Option Window

section
variable (header : String → Option String)

def anthropicWindow (now : UInt64) (span : String) (length : Duration) : Option Window :=
  ((header ("anthropic-ratelimit-unified-" ++ span ++ "-utilization")).bind fun v =>
    parseF64 (Text.trim v)).map fun utilization =>
    { utilization := utilization
      resetsIn :=
        ((header ("anthropic-ratelimit-unified-" ++ span ++ "-reset")).bind fun v =>
          Text.parseUnsigned 64 (Text.trim v)).map fun at_ => .fromSecs (at_ - now.toNat)
      length := some length
      rejected := (header ("anthropic-ratelimit-unified-" ++ span ++ "-status")).any fun s =>
        Text.eqIgnoreAsciiCase (Text.trim s) "rejected" }

/-- `anthropic_quota` -/
def anthropicQuota (now : UInt64) : Quota where
  primary := anthropicWindow header now "5h" (.fromSecs (5 * 3600))
  secondary := anthropicWindow header now "7d" (.fromSecs (7 * 24 * 3600))

def nonEmpty (value : String) : Option String :=
  if Text.trim value = "" then none else some (Text.trim value)

def codexUsed (span : String) : Option F64 :=
  ((header ("x-codex-" ++ span ++ "-used-percent")).bind nonEmpty).bind parseF64

def codexMinutes (span : String) : Option Nat :=
  (((header ("x-codex-" ++ span ++ "-window-minutes")).bind nonEmpty).bind
    (Text.parseUnsigned 64)).filter (0 < ·)

def codexLength (span : String) : Except Fault (Option Duration) :=
  match codexMinutes header span with
  | some m => (mulU64 m 60).map fun secs => some (.fromSecs secs)
  | none => .ok none

def codexWindow (span : String) : Except Fault (Option Window) :=
  match codexUsed header span with
  | none => .ok none
  | some used =>
    let resetsIn :=
      (((header ("x-codex-" ++ span ++ "-reset-after-seconds")).bind nonEmpty).bind
        (Text.parseUnsigned 64)).map Duration.fromSecs
    (codexLength header span).map fun length =>
      some ⟨used.divRat 100, resetsIn, length, used.geRat 100⟩

/-- `codex_quota` -/
def codexQuota : Except Fault Quota := do
  let primary ← codexWindow header "primary"
  let secondary ← codexWindow header "secondary"
  return ⟨primary, secondary⟩

def quotaOf (kind : ProviderKind) (now : UInt64) : Except Fault Quota :=
  if kind = .claudeSubscription then .ok (anthropicQuota header now) else codexQuota header

def headerWait : Except Fault (Option Duration) :=
  match header "retry-after" with
  | some v => retryAfterHeader v
  | none => .ok none

/-- When the window rolls that refuses requests. -/
def Quota.refusedUntil (quota : Quota) : Option Duration :=
  ((quota.primary.filter Window.rejected).bind Window.resetsIn).or
    ((quota.secondary.filter Window.rejected).bind Window.resetsIn)

/-- What `bench_exhausted_seat` reads of a response: the windows, and of a refusal how long
to wait. -/
def exhaustedWindow (kind : ProviderKind) (status : Nat) (now : UInt64) :
    Except Fault (Quota × Option Duration) := do
  let quota ← quotaOf header kind now
  if status ≠ 429 then return (quota, none)
  else return (quota, (← headerWait header).or quota.refusedUntil)

end

/-! ## What can be read -/

/-- The seconds of a text, as they stand there. -/
def secondsIn (text : String) : Option ℚ := (readFloat (Text.trim text)).bind Reading.number

def secondsOf : Value → Option ℚ
  | .number n => (readingOf n).number
  | .string s => secondsIn s
  | _ => none

/-- Below `2 ^ 64` as a double, which rounds up from half a unit below. -/
def Fits (q : ℚ) : Prop := q < 2 ^ (64 : ℤ) - 2 ^ (10 : ℤ)

/-- What a body says: how long from now, or when. -/
inductive Hint where
  | relative (secs : ℚ)
  | absolute (at_ : ℚ)

def hintIn (scope : Value) : Option Hint :=
  (relativeKeys.findSome? fun key => ((scope.get? key).bind secondsOf).map .relative).or
    (absoluteKeys.findSome? fun key => ((scope.get? key).bind secondsOf).map .absolute)

/-- The first hint of a body, in it or in its error. -/
def hintOf (body : Value) : Option Hint :=
  [body, (body.get? "error").getD .null].findSome? hintIn

def Hint.Fits (now : UInt64) : Hint → Prop
  | relative secs => Limits.Fits secs
  | absolute at_ => Limits.Fits (nearest at_ - nearest now.toNat)

/-- What is read of a response is within the range of what it is read into. -/
structure Bounded (header : String → Option String) (kind : ProviderKind) (status : Nat)
    (now : UInt64) (body : Bytes) : Prop where
  minutes : kind ≠ .claudeSubscription → ∀ span ∈ ["primary", "secondary"],
    codexUsed header span ≠ none → ∀ m, codexMinutes header span = some m → m * 60 < 2 ^ 64
  header : status = 429 → ∀ v, header "retry-after" = some v → ∀ q, secondsIn v = some q → Fits q
  body : ∀ v, fromSlice body = some v → ∀ hint, hintOf v = some hint → hint.Fits now

/-- No fault. -/
def Succeeds {α : Type} (x : Except Fault α) : Prop := ∃ a, x = .ok a

/-! ## Doubles and durations -/

/-- A finite double of a text is the text's number, rounded. -/
theorem filter_toF64 (r : Reading) :
    (some r.toF64).filter F64.isFinite = r.number.map fun q => .finite (nearest q) := by
  cases r with
  | decimal neg mantissa exponent =>
    unfold Reading.toF64 Reading.number
    dsimp only
    by_cases hinf : infinite |Reading.value neg mantissa exponent|
    · rw [ofRat_infinite hinf, if_pos hinf]
      rfl
    · rw [ofRat_finite hinf, if_neg hinf]
      rfl
  | inf neg => rfl
  | nan => rfl

theorem fromSecsF64_finite (q : ℚ) : fromSecsF64 (.finite q) =
    if q < 0 ∨ 2 ^ (64 : ℤ) ≤ q then .error .duration
    else .ok ⟨(roundEven (q * 10 ^ 9)).toNat⟩ := rfl

theorem fromSecs_iff (q : ℚ) : Succeeds (fromSecsF64 (.finite q)) ↔ 0 ≤ q ∧ q < 2 ^ (64 : ℤ) := by
  rw [fromSecsF64_finite]
  constructor
  · intro h
    by_contra hout
    obtain ⟨d, hd⟩ := h
    have hrange : q < 0 ∨ 2 ^ (64 : ℤ) ≤ q := by
      rw [not_and_or, not_le, not_lt] at hout
      exact hout
    rw [if_pos hrange] at hd
    cases hd
  · intro hin
    have hrange : ¬ (q < 0 ∨ 2 ^ (64 : ℤ) ≤ q) := by
      rw [not_or, not_lt, not_le]
      exact hin
    rw [if_neg hrange]
    exact ⟨_, rfl⟩

theorem not_fits_iff (q : ℚ) : ¬ Fits q ↔ 2 ^ (64 : ℤ) ≤ nearest q := by
  rw [zpow_le_nearest_iff (by norm_num)]
  exact not_lt

/-- Nothing below zero is left, so only large numbers are out of range. -/
theorem fromSecs_nearest_iff (q : ℚ) :
    Succeeds (fromSecsF64 ((F64.finite (nearest q)).max (.finite 0))) ↔ Fits q := by
  show Succeeds (fromSecsF64 (.finite (Max.max (nearest q) 0))) ↔ Fits q
  rw [fromSecs_iff, and_iff_right (le_max_right _ _), max_lt_iff,
    and_iff_left (zpow_pos 64), ← not_le, ← not_fits_iff, not_not]

theorem not_infinite_now (now : UInt64) : ¬ infinite |((now.toNat : ℕ) : ℚ)| := by
  apply not_infinite_of_lt
  have hlt : ((now.toNat : ℕ) : ℚ) < 2 ^ (64 : ℤ) := by exact_mod_cast now.toNat_lt
  rw [abs_of_nonneg (Nat.cast_nonneg _)]
  exact hlt.trans_le (zpow_mono (by norm_num))

/-- A difference is rounded again. -/
theorem fromSecs_sub_iff (a : ℚ) (now : UInt64) :
    Succeeds (fromSecsF64 (((F64.finite a).sub (.ofRat now.toNat)).max (.finite 0))) ↔
      Fits (a - nearest now.toNat) := by
  rw [ofRat_finite (not_infinite_now now)]
  show Succeeds (fromSecsF64 ((F64.ofRat (a - nearest now.toNat)).max (.finite 0))) ↔ _
  generalize a - nearest now.toNat = d
  by_cases hinf : infinite |d|
  · rw [ofRat_infinite hinf]
    by_cases hneg : d < 0
    · -- Minus infinity is less than zero.
      rw [decide_eq_true hneg]
      refine iff_of_true ((fromSecs_iff 0).mpr ⟨le_refl _, zpow_pos 64⟩) ?_
      exact hneg.trans (lt_of_lt_of_le (zpow_pos 63) (half_below 64))
    · rw [decide_eq_false hneg]
      refine iff_of_false ?_ ?_
      · rintro ⟨duration, hduration⟩
        cases hduration
      · have hlarge : (2 : ℚ) ^ (64 : ℤ) ≤ 2 ^ (1024 - 1 : ℤ) := zpow_mono (by norm_num)
        have hunit := zpow_pos 10
        have hbelow := half_below 1024
        unfold infinite at hinf
        rw [abs_of_nonneg (not_lt.mp hneg)] at hinf
        unfold Fits
        rw [not_lt]
        exact (sub_le_self _ hunit.le).trans (hlarge.trans (hbelow.trans hinf))
  · rw [ofRat_finite hinf]
    exact fromSecs_nearest_iff d

/-! ## The functions -/

theorem succeeds_map {α β : Type} {f : α → β} {x : Except Fault α} :
    Succeeds (x.map f) ↔ Succeeds x := by
  cases x with
  | error e =>
    refine iff_of_false ?_ ?_
    · rintro ⟨a, ha⟩
      cases ha
    · rintro ⟨a, ha⟩
      cases ha
  | ok a => exact iff_of_true ⟨f a, rfl⟩ ⟨a, rfl⟩

theorem succeeds_bind {α β : Type} {f : α → Except Fault β} {x : Except Fault α} :
    Succeeds (x >>= f) ↔ ∃ a, x = .ok a ∧ Succeeds (f a) := by
  cases x with
  | error e =>
    refine iff_of_false ?_ ?_
    · rintro ⟨b, hb⟩
      cases hb
    · rintro ⟨a, ha, -⟩
      cases ha
  | ok a =>
    show Succeeds (f a) ↔ _
    refine ⟨fun h => ⟨a, rfl, h⟩, ?_⟩
    rintro ⟨a', ha, h⟩
    cases ha
    exact h

theorem header_iff (value : String) :
    Succeeds (retryAfterHeader value) ↔ ∀ q, secondsIn value = some q → Fits q := by
  unfold retryAfterHeader parseF64 secondsIn
  cases hread : readFloat (Text.trim value) with
  | none => exact iff_of_true ⟨none, rfl⟩ fun q hq => by cases hq
  | some r =>
    have hfinite := filter_toF64 r
    rw [Option.map_some, Option.bind_some]
    dsimp only
    cases hnumber : r.number with
    | none =>
      rw [hnumber, Option.map_none, Option.filter_eq_none_iff] at hfinite
      have hnot := hfinite _ rfl
      rw [if_neg hnot]
      exact iff_of_true ⟨none, rfl⟩ fun q hq => by cases hq
    | some q =>
      rw [hnumber, Option.map_some, Option.filter_eq_some_iff] at hfinite
      obtain ⟨hvalue, hfinite⟩ := hfinite
      rw [Option.some.inj hvalue, if_pos hfinite, succeeds_map, fromSecs_nearest_iff]
      refine ⟨fun h q' hq' => ?_, fun h => h q rfl⟩
      cases hq'
      exact h

theorem finiteNumber_eq (v : Value) :
    finiteNumber v = (secondsOf v).map fun q => .finite (nearest q) := by
  unfold finiteNumber secondsOf
  cases v with
  | number n => exact filter_toF64 (readingOf n)
  | string s =>
    unfold parseF64 secondsIn
    dsimp only
    cases readFloat (Text.trim s) with
    | none => rfl
    | some r => exact filter_toF64 r
  | null | bool _ | array _ | object _ => rfl

/-- The seconds that a hint stands for. -/
def Hint.secs (now : UInt64) : Hint → F64
  | relative q => (F64.finite (nearest q)).max (.finite 0)
  | absolute at_ => ((F64.finite (nearest at_)).sub (.ofRat now.toNat)).max (.finite 0)

theorem Hint.secs_iff (now : UInt64) (hint : Hint) :
    Succeeds (fromSecsF64 (hint.secs now)) ↔ hint.Fits now := by
  cases hint with
  | relative q => exact fromSecs_nearest_iff q
  | absolute at_ => exact fromSecs_sub_iff (nearest at_) now

theorem scopeSecs_eq (now : UInt64) (scope : Value) :
    scopeSecs now scope = (hintIn scope).map (Hint.secs now) := by
  unfold scopeSecs hintIn
  have hrelative : ∀ key, (((scope.get? key).bind finiteNumber).map fun secs =>
      secs.max (.finite 0)) =
      (((scope.get? key).bind secondsOf).map Hint.relative).map (Hint.secs now) := by
    intro key
    cases scope.get? key with
    | none => rfl
    | some v =>
      rw [Option.bind_some, Option.bind_some, finiteNumber_eq, Option.map_map, Option.map_map]
      rfl
  have habsolute : ∀ key, (((scope.get? key).bind finiteNumber).map fun at_ =>
      (at_.sub (.ofRat now.toNat)).max (.finite 0)) =
      (((scope.get? key).bind secondsOf).map Hint.absolute).map (Hint.secs now) := by
    intro key
    cases scope.get? key with
    | none => rfl
    | some v =>
      rw [Option.bind_some, Option.bind_some, finiteNumber_eq, Option.map_map, Option.map_map]
      rfl
  rw [funext hrelative, funext habsolute, Lists.findSome?_map, Lists.findSome?_map _ (Hint.secs now),
    ← Option.map_or]

theorem body_iff (body : Value) (now : UInt64) :
    Succeeds (retryAfterBody body now) ↔ ∀ hint, hintOf body = some hint → hint.Fits now := by
  have hsecs : [body, (body.get? "error").getD .null].findSome? (scopeSecs now) =
      (hintOf body).map (Hint.secs now) := by
    unfold hintOf
    rw [← Lists.findSome?_map, funext (scopeSecs_eq now)]
  unfold retryAfterBody
  rw [hsecs]
  cases hintOf body with
  | none => exact iff_of_true ⟨none, rfl⟩ fun hint hhint => by cases hhint
  | some hint =>
    show Succeeds ((fromSecsF64 (hint.secs now)).map some) ↔ _
    rw [succeeds_map, hint.secs_iff]
    refine ⟨fun h other hother => ?_, fun h => h hint rfl⟩
    cases hother
    exact h

section
variable (header : String → Option String)

theorem codexLength_iff (span : String) :
    Succeeds (codexLength header span) ↔
      ∀ m, codexMinutes header span = some m → m * 60 < 2 ^ 64 := by
  unfold codexLength
  cases codexMinutes header span with
  | none => exact iff_of_true ⟨none, rfl⟩ fun m hm => by cases hm
  | some m =>
    show Succeeds ((mulU64 m 60).map _) ↔ _
    rw [succeeds_map]
    unfold mulU64
    by_cases hfits : m * 60 < 2 ^ 64
    · rw [if_pos hfits]
      refine iff_of_true ⟨_, rfl⟩ fun m' hm' => ?_
      cases hm'
      exact hfits
    · rw [if_neg hfits]
      refine iff_of_false ?_ fun h => hfits (h m rfl)
      rintro ⟨secs, hsecs⟩
      cases hsecs

theorem codexWindow_iff (span : String) :
    Succeeds (codexWindow header span) ↔ (codexUsed header span ≠ none →
      ∀ m, codexMinutes header span = some m → m * 60 < 2 ^ 64) := by
  unfold codexWindow
  cases codexUsed header span with
  | none => exact iff_of_true ⟨none, rfl⟩ fun hne => absurd rfl hne
  | some used =>
    show Succeeds ((codexLength header span).map _) ↔ _
    rw [succeeds_map, codexLength_iff]
    exact ⟨fun h _ => h, fun h => h (Option.some_ne_none used)⟩

theorem codexQuota_iff :
    Succeeds (codexQuota header) ↔ ∀ span ∈ ["primary", "secondary"],
      codexUsed header span ≠ none → ∀ m, codexMinutes header span = some m → m * 60 < 2 ^ 64 := by
  unfold codexQuota
  rw [succeeds_bind]
  constructor
  · rintro ⟨primary, hprimary, hrest⟩
    obtain ⟨secondary, hsecondary, -⟩ := succeeds_bind.mp hrest
    intro span hspan
    rw [← codexWindow_iff]
    rcases List.mem_cons.mp hspan with rfl | hspan
    · exact ⟨primary, hprimary⟩
    · rw [List.mem_singleton.mp hspan]
      exact ⟨secondary, hsecondary⟩
  · intro h
    obtain ⟨primary, hprimary⟩ := (codexWindow_iff header "primary").mpr (h _ List.mem_cons_self)
    obtain ⟨secondary, hsecondary⟩ := (codexWindow_iff header "secondary").mpr
      (h _ (List.mem_cons_of_mem _ List.mem_cons_self))
    exact ⟨primary, hprimary, succeeds_bind.mpr ⟨secondary, hsecondary, _, rfl⟩⟩

theorem quotaOf_iff (kind : ProviderKind) (now : UInt64) :
    Succeeds (quotaOf header kind now) ↔
      (kind ≠ .claudeSubscription → Succeeds (codexQuota header)) := by
  unfold quotaOf
  by_cases hkind : kind = .claudeSubscription
  · rw [if_pos hkind]
    exact iff_of_true ⟨_, rfl⟩ fun hne => absurd hkind hne
  · rw [if_neg hkind]
    exact ⟨fun h _ => h, fun h => h hkind⟩

theorem headerWait_iff :
    Succeeds (headerWait header) ↔ ∀ v, header "retry-after" = some v →
      ∀ q, secondsIn v = some q → Fits q := by
  unfold headerWait
  cases header "retry-after" with
  | none => exact iff_of_true ⟨none, rfl⟩ fun v hv => by cases hv
  | some v =>
    show Succeeds (retryAfterHeader v) ↔ _
    rw [header_iff]
    refine ⟨fun h v' hv' => ?_, fun h => h v rfl⟩
    cases hv'
    exact h

theorem exhaustedWindow_iff (kind : ProviderKind) (status : Nat) (now : UInt64) :
    Succeeds (exhaustedWindow header kind status now) ↔
      Succeeds (quotaOf header kind now) ∧ (status = 429 → Succeeds (headerWait header)) := by
  unfold exhaustedWindow
  rw [succeeds_bind]
  by_cases hstatus : status = 429
  · have hrefusal : ¬ status ≠ 429 := not_not.mpr hstatus
    simp only [if_neg hrefusal]
    constructor
    · rintro ⟨quota, hquota, hrest⟩
      obtain ⟨wait, hwait, -⟩ := succeeds_bind.mp hrest
      exact ⟨⟨quota, hquota⟩, fun _ => ⟨wait, hwait⟩⟩
    · rintro ⟨⟨quota, hquota⟩, hwait⟩
      obtain ⟨wait, hwait⟩ := hwait hstatus
      exact ⟨quota, hquota, succeeds_bind.mpr ⟨wait, hwait, _, rfl⟩⟩
  · simp only [if_pos hstatus]
    constructor
    · rintro ⟨quota, hquota, -⟩
      exact ⟨⟨quota, hquota⟩, fun h => absurd h hstatus⟩
    · rintro ⟨⟨quota, hquota⟩, -⟩
      exact ⟨quota, hquota, _, rfl⟩

end

/-- **Reading a response.** The windows and the waits of a response are read without a panic
and without an overflow as long as no number of seconds reaches `2 ^ 64` and no number of
minutes is more than that many seconds. -/
theorem windows_iff (header : String → Option String) (kind : ProviderKind) (status : Nat)
    (now : UInt64) (body : Bytes) :
    (Succeeds (exhaustedWindow header kind status now) ∧
        ∀ v, fromSlice body = some v → Succeeds (retryAfterBody v now)) ↔
      Bounded header kind status now body := by
  rw [exhaustedWindow_iff, quotaOf_iff, codexQuota_iff, headerWait_iff]
  constructor
  · rintro ⟨⟨hminutes, hheader⟩, hbody⟩
    exact ⟨hminutes, hheader, fun v hv => (body_iff v now).mp (hbody v hv)⟩
  · intro h
    exact ⟨⟨h.minutes, h.header⟩, fun v hv => (body_iff v now).mpr (h.body v hv)⟩

/-- A refusal that asks to wait for longer than the world stands. -/
def longWait : String → Option String := fun name =>
  if name = "retry-after" then some "1e20" else none

/-- The process is gone with it. -/
theorem longWait_panics : ¬ Succeeds (exhaustedWindow longWait .codexSubscription 429 0) := by
  rw [exhaustedWindow_iff, headerWait_iff]
  rintro ⟨-, hheader⟩
  have hfits := hheader rfl "1e20" rfl (10 ^ 20)
  have hread : readFloat (Text.trim "1e20") = some (.decimal false 1 20) := by decide +kernel
  have hvalue : Reading.value false 1 20 = 10 ^ 20 := by
    unfold Reading.value
    norm_num
  have hsmall : ¬ infinite |(10 : ℚ) ^ 20| := by
    apply not_infinite_of_lt
    have hlt : |(10 : ℚ) ^ 20| < 2 ^ (67 : ℤ) := by norm_num
    exact hlt.trans_le (zpow_mono (by norm_num))
  have hseconds : secondsIn "1e20" = some (10 ^ 20) := by
    unfold secondsIn
    rw [hread, Option.bind_some]
    unfold Reading.number
    dsimp only
    rw [hvalue, if_neg hsmall]
  have hlarge := hfits hseconds
  unfold Fits at hlarge
  norm_num at hlarge

end RapidRouter.Core.Limits
