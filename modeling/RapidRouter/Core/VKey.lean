import RapidRouter.Core.Text
import RapidRouter.Lib.OrdMap

/-!
# Virtual key definitions

The persisted form of a virtual key, `VirtualKeyDef` of
`router-core/src/vkey.rs`, and its model allowlist. An empty `models` list
is an unrestricted key, not a useless one. When a key expires is written as a
moment in UTC, read by `parseRfc3339UtcMs`.
-/

namespace RapidRouter.Core

structure PrevSecret where
  secretHash : String
  validUntilMs : Nat
  deriving DecidableEq

inductive BudgetPeriod where
  | daily
  | weekly
  | monthly
  deriving DecidableEq, Repr

structure Budget where
  usd : Rat
  period : BudgetPeriod
  deriving DecidableEq

structure RateLimit where
  rpm : Option Nat
  tpm : Option Nat
  deriving DecidableEq

structure VirtualKeyDef where
  id : String
  name : String
  secretHash : String
  prevSecret : Option PrevSecret
  models : List String
  tenant : Option String
  budget : Option Budget
  rate : Option RateLimit
  expiresMs : Option Nat
  tags : OrdMap String String
  enabled : Bool
  createdMs : Nat
  deriving DecidableEq

/-- `days_from_civil`, before it is cut to a machine word. -/
def daysFromCivil (year : Int) (m d : Nat) : Int :=
  let y := if m ≤ 2 then year - 1 else year
  let era := (if 0 ≤ y then y else y - 399).tdiv 400
  let yoe := y - era * 400
  let doy : Int := (153 * (if m > 2 then m - 3 else m + 9) + 2) / 5 + d - 1
  let doe := yoe * 365 + yoe / 4 - yoe / 100 + doy
  era * 146097 + doe - 719468

/-- `parse_rfc3339_utc_ms`. A year with a minus sign falls apart at its `-`,
so none is negative; of one too large for the calendar the words wrap. -/
def parseRfc3339UtcMs (s : String) : Option Nat := do
  let s ← Text.stripSuffix "Z" s
  let (date, time) ← Text.splitOnce 'T' s
  match Text.split '-' date with
  | [year, month, day] =>
    let year ← Text.parseUnsigned 63 year
    let month ← Text.parseUnsigned 32 month
    let day ← Text.parseUnsigned 32 day
    if month < 1 || 12 < month || day < 1 || 31 < day then none
    else
      let (hms, frac) := (Text.splitOnce '.' time).getD (time, "")
      match Text.split ':' hms with
      | [hour, minute, second] =>
        let hour ← Text.parseUnsigned 64 hour
        let minute ← Text.parseUnsigned 64 minute
        let second ← Text.parseUnsigned 64 second
        if 23 < hour || 59 < minute || 60 < second then none
        else
          let digits := frac.toList.take 3
          if !digits.all Char.isDigit then none
          else
            let millis := Text.digitsValue (digits ++ List.replicate (3 - digits.length) '0')
            let days := (daysFromCivil year month day).bmod (2 ^ 64)
            if days < 0 then none
            else
              some ((days.toNat * 86400000 + hour * 3600000 + minute * 60000 + second * 1000
                + millis) % 2 ^ 64)
      | _ => none
  | _ => none

namespace VirtualKeyDef

/-- `VkRuntime::allows_model`. -/
def allowsModel (d : VirtualKeyDef) (requested : String) (resolved : Option String) : Bool :=
  if d.models = [] then true
  else d.models.any fun m => m = requested || resolved.any fun r => m = r

theorem allowsModel_eq {d : VirtualKeyDef} {requested : String} {resolved : Option String} :
    d.allowsModel requested resolved = true ↔
      d.models = [] ∨ requested ∈ d.models ∨ ∃ r, resolved = some r ∧ r ∈ d.models := by
  unfold allowsModel
  split
  next h => simp [h]
  next h =>
    cases resolved with
    | none => simp [h]
    | some r =>
      simp only [List.any_eq_true, Option.any_some, Bool.or_eq_true, decide_eq_true_eq, h,
        false_or, Option.some.injEq]
      constructor
      · rintro ⟨m, hm, rfl | rfl⟩
        · exact Or.inl hm
        · exact Or.inr ⟨m, rfl, hm⟩
      · rintro (hm | ⟨_, rfl, hm⟩)
        · exact ⟨_, hm, Or.inl rfl⟩
        · exact ⟨_, hm, Or.inr rfl⟩

end VirtualKeyDef

end RapidRouter.Core
