import RapidRouter.Core.Bucket
import RapidRouter.Core.Reload
import RapidRouter.Core.Resolves

/-!
# The words a bucket counts in

`token_bucket.rs` keeps thousandths of a token in 64 bits and takes any limit
validation lets through, which is any but zero. `new` multiplies the limit by a
thousand, and a refill adds the credit for the time passed to the balance
before it clamps the sum. `bucket_exact_iff` says for which limits and which
clock readings all of it stays in range: a thousandfold limit and the credit of
every pause between two readings have to fit beside each other.
-/

namespace RapidRouter.Core.TokenBucket

namespace Bucket

/-- A call, as far as the bucket goes. -/
def call (b : Bucket) : Call → Bucket
  | .tryConsume tokens now => (b.tryConsume tokens now).1
  | .refill now => b.refill now
  | .debitSaturating tokens now => b.debitSaturating tokens now

/-- The sum of a refill does not leave the word. -/
def RefillFits (b : Bucket) (now : Nat) : Prop :=
  b.lastRefillMs < now →
    b.available + saturatingMul (now - b.lastRefillMs) b.limits.refillMilliPerMs < 2 ^ 64

/-- No arithmetic of a call does. A difference is only taken of what a
comparison has put in order. -/
def Fits (b : Bucket) : Call → Prop
  | .tryConsume tokens now => b.RefillFits now ∧ tokens * 1000 < 2 ^ 64
  | .refill now => b.RefillFits now
  | .debitSaturating _ now => b.RefillFits now

/-- What a refill is to leave, in exact arithmetic. -/
def refilled (capacity : Nat) (b : Bucket) (now : Nat) : Nat :=
  if now ≤ b.lastRefillMs then b.available
  else min (capacity * 1000) (b.available + b.limits.refillMilliPerMs * (now - b.lastRefillMs))

/-- A run in which every call is exact. -/
def Exact (capacity : Nat) : Bucket → List Call → Prop
  | _, [] => True
  | b, c :: rest =>
    b.Fits c ∧ (b.refill c.now).available = refilled capacity b c.now ∧ Exact capacity (b.call c) rest

@[simp] theorem call_limits (b : Bucket) (c : Call) : (b.call c).limits = b.limits := by
  cases c with
  | tryConsume tokens now =>
    unfold call tryConsume
    dsimp only
    split
    · exact refill_limits b now
    · exact refill_limits b now
  | refill now => exact refill_limits b now
  | debitSaturating tokens now => exact refill_limits b now

theorem refill_last (b : Bucket) (now : Nat) :
    (b.refill now).lastRefillMs = max b.lastRefillMs now := by
  unfold refill
  split
  · next h => exact (max_eq_left h).symm
  · next h =>
    show now = max b.lastRefillMs now
    omega

@[simp] theorem call_last (b : Bucket) (c : Call) :
    (b.call c).lastRefillMs = max b.lastRefillMs c.now := by
  cases c with
  | tryConsume tokens now =>
    unfold call tryConsume
    dsimp only
    split
    · exact refill_last b now
    · exact refill_last b now
  | refill now => exact refill_last b now
  | debitSaturating tokens now => exact refill_last b now

/-- A call takes from what the refill left. -/
theorem call_le_refill (b : Bucket) (c : Call) :
    (b.call c).available ≤ (b.refill c.now).available := by
  cases c with
  | tryConsume tokens now =>
    unfold call tryConsume
    dsimp only [Call.now]
    split
    · exact le_rfl
    · exact Nat.sub_le _ _
  | refill now => exact le_rfl
  | debitSaturating tokens now => exact Nat.sub_le _ _

end Bucket

/-! ## The calls that are made -/

/-- The code takes one token or none at a time. -/
def Call.Made : Call → Prop
  | .tryConsume tokens _ => tokens ≤ 1
  | _ => True

/-- The pauses between readings that are later than all before them. -/
def pauses (last : Nat) : List Nat → List Nat
  | [] => []
  | now :: rest => (now - last) :: pauses (max last now) rest

/-- A bucket that starts full is exact, whatever is called at these readings. -/
def ExactFrom (capacity perSecond : Nat) (readings : List Nat) : Prop :=
  ∀ calls : List Call, calls.map Call.now = readings → (∀ c ∈ calls, c.Made) →
    capacity * 1000 < 2 ^ 64 ∧ (Bucket.new capacity perSecond).Exact capacity calls

/-- What is credited for a pause fits beside a full balance. -/
def PauseFits (capacity perSecond pause : Nat) : Prop :=
  capacity * 1000 + saturatingMul pause perSecond < 2 ^ 64

/-- What a bucket keeps of how it was made. -/
structure Sized (capacity perSecond : Nat) (b : Bucket) : Prop where
  size : b.limits.capacityMilli = capacity * 1000
  rate : b.limits.refillMilliPerMs = perSecond
  held : b.available ≤ capacity * 1000

variable {capacity perSecond : Nat}

theorem sized_new (hfits : capacity * 1000 < 2 ^ 64) :
    Sized capacity perSecond (Bucket.new capacity perSecond) where
  size := Nat.mod_eq_of_lt hfits
  rate := rfl
  held := Nat.mod_le _ _

/-- A refill whose sum fits is exact. -/
theorem Sized.refilled {b : Bucket} (h : Sized capacity perSecond b)
    (hcapacity : capacity * 1000 < 2 ^ 64) {now : Nat} (hfits : b.RefillFits now) :
    (b.refill now).available = b.refilled capacity now := by
  unfold Bucket.refill Bucket.refilled
  by_cases hreached : now ≤ b.lastRefillMs
  · rw [if_pos hreached, if_pos hreached]
  · rw [if_neg hreached, if_neg hreached]
    have hsum := hfits (not_le.mp hreached)
    dsimp only
    unfold credited
    rw [Nat.mod_eq_of_lt hsum, h.size]
    unfold saturatingMul
    rw [Nat.mul_comm b.limits.refillMilliPerMs]
    -- A credit that saturates is more than the bucket holds either way.
    omega

theorem refilled_le {b : Bucket} (h : Sized capacity perSecond b) (now : Nat) :
    b.refilled capacity now ≤ capacity * 1000 := by
  unfold Bucket.refilled
  split
  · exact h.held
  · exact Nat.min_le_left _ _

theorem Sized.call {b : Bucket} (h : Sized capacity perSecond b)
    (hcapacity : capacity * 1000 < 2 ^ 64) {c : Call} (hfits : b.RefillFits c.now) :
    Sized capacity perSecond (b.call c) where
  size := by rw [Bucket.call_limits, h.size]
  rate := by rw [Bucket.call_limits, h.rate]
  held := by
    have hleft := b.call_le_refill c
    rw [h.refilled hcapacity hfits] at hleft
    exact hleft.trans (refilled_le h c.now)

/-- The step: a pause that fits beside a full balance fits beside any. -/
theorem Sized.refillFits {b : Bucket} (h : Sized capacity perSecond b) {now : Nat}
    (hpause : PauseFits capacity perSecond (now - b.lastRefillMs)) : b.RefillFits now := by
  intro _
  rw [h.rate]
  have hheld := h.held
  unfold PauseFits at hpause
  omega

theorem fits_of_made {b : Bucket} {c : Call} (hmade : c.Made) (hfits : b.RefillFits c.now) :
    b.Fits c := by
  cases c with
  | tryConsume tokens now =>
    refine ⟨hfits, ?_⟩
    have hone : tokens ≤ 1 := hmade
    omega
  | refill now => exact hfits
  | debitSaturating tokens now => exact hfits

/-- The run. -/
theorem exact_of_pauses (hcapacity : capacity * 1000 < 2 ^ 64) (calls : List Call) :
    ∀ b, Sized capacity perSecond b → (∀ c ∈ calls, c.Made) →
      (∀ pause ∈ pauses b.lastRefillMs (calls.map Call.now), PauseFits capacity perSecond pause) →
      b.Exact capacity calls := by
  induction calls with
  | nil =>
    intro b _ _ _
    exact trivial
  | cons c rest ih =>
    intro b h hmade hpauses
    have hfits : b.RefillFits c.now := h.refillFits (hpauses _ List.mem_cons_self)
    refine ⟨fits_of_made (hmade c List.mem_cons_self) hfits, h.refilled hcapacity hfits, ?_⟩
    refine ih (b.call c) (h.call hcapacity hfits) (fun d hd => hmade d (List.mem_cons_of_mem _ hd)) ?_
    intro pause hpause
    rw [Bucket.call_last] at hpause
    exact hpauses pause (List.mem_cons_of_mem _ hpause)

/-! ## The calls that need the room -/

/-- Nothing is taken at any of the readings. -/
def idle (readings : List Nat) : List Call := readings.map (Call.tryConsume 0)

theorem now_idle (readings : List Nat) : (idle readings).map Call.now = readings := by
  unfold idle
  rw [List.map_map]
  exact List.map_id readings

theorem made_idle (readings : List Nat) : ∀ c ∈ idle readings, c.Made := by
  intro c hc
  obtain ⟨now, -, rfl⟩ := List.mem_map.mp hc
  exact Nat.zero_le 1

/-- A full bucket nobody takes from stays full, so every pause is credited
beside a full balance. -/
theorem pauses_of_exact (hcapacity : capacity * 1000 < 2 ^ 64) (readings : List Nat) :
    ∀ b, Sized capacity perSecond b → b.available = capacity * 1000 →
      b.Exact capacity (idle readings) →
      ∀ pause ∈ pauses b.lastRefillMs readings, PauseFits capacity perSecond pause := by
  induction readings with
  | nil =>
    intro b _ _ _ pause hpause
    cases hpause
  | cons now rest ih =>
    intro b h hfull hexact pause hpause
    obtain ⟨⟨hfits, -⟩, hrefilled, hrest⟩ := hexact
    rcases List.mem_cons.mp hpause with rfl | hlater
    · unfold PauseFits
      by_cases hreached : now ≤ b.lastRefillMs
      · have hnone : now - b.lastRefillMs = 0 := by omega
        have hnothing : saturatingMul 0 perSecond = 0 := by
          unfold saturatingMul
          rw [Nat.zero_mul]
          exact Nat.zero_min _
        rw [hnone, hnothing, Nat.add_zero]
        exact hcapacity
      · have hsum := hfits (not_le.mp hreached)
        rw [hfull, h.rate] at hsum
        exact hsum
    · have hstill : (b.call (.tryConsume 0 now)).available = capacity * 1000 := by
        show (b.tryConsume 0 now).1.available = capacity * 1000
        rw [Bucket.tryConsume_zero]
        dsimp only [Call.now] at hrefilled
        rw [hrefilled]
        unfold Bucket.refilled
        split
        · exact hfull
        · rw [hfull]
          omega
      refine ih _ (h.call (c := .tryConsume 0 now) hcapacity hfits) hstill hrest pause ?_
      rw [Bucket.call_last]
      exact hlater

/-- Which buckets are exact. Of a capacity and a rate, and clock readings
in any order: the thousandfold capacity, and beside it what is credited for
each pause, fit a word. A pool key has a limit for its capacity and a sixtieth
of it, rounded up, for its rate. -/
theorem bucket_exact_iff (capacity perSecond : Nat) (readings : List Nat) :
    ExactFrom capacity perSecond readings ↔
      capacity * 1000 < 2 ^ 64 ∧ ∀ pause ∈ pauses 0 readings, PauseFits capacity perSecond pause := by
  constructor
  · intro hexact
    obtain ⟨hcapacity, hrun⟩ := hexact (idle readings) (now_idle readings) (made_idle readings)
    refine ⟨hcapacity, ?_⟩
    exact pauses_of_exact hcapacity readings _ (sized_new hcapacity) (Nat.mod_eq_of_lt hcapacity) hrun
  · rintro ⟨hcapacity, hpauses⟩ calls rfl hmade
    exact ⟨hcapacity, exact_of_pauses hcapacity calls _ (sized_new hcapacity) hmade hpauses⟩

/-! ## A document that loads -/

open Document

/-- A key with a limit whose thousandfold does not fit a word. -/
def boundless : Document.RawConfig :=
  { chained with
    providers := .ofList
      [("anthropic", { keys := [literalKey "seat" none (some "agi")] }),
        ("openai", { keys := [{ literalKey "one" (some ["gpt-4o"]) none with
          limits := { rpm := some 18446744073709552 } }] })] }

def boundlessLoaded : Document.Config :=
  { chainedLoaded with
    providers := .ofList
      [("anthropic", loadedProvider .anthropic "https://api.anthropic.com"
          (loadedKey "seat" none (some "agi"))),
        ("openai", loadedProvider .openAi "https://api.openai.com/v1"
          { loadedKey "one" (some ["gpt-4o"]) none with
            limits := { rpm := some 18446744073709552 } })] }

/-- **A limit that loads is too large for its bucket**, which would hold
384 thousandths of a token. -/
theorem accepted_limit_overflows :
    ¬ ∀ (src : Sources) (raw : Document.RawConfig) (c : Document.Config),
      Document.validate src raw = .ok c → ∀ name p, c.providers.get? name = some p →
        ∀ key ∈ p.keys, ∀ limit, (key.limits.rpm = some limit ∨ key.limits.tpm = some limit) →
          ∀ readings, ExactFrom limit ((limit + 59) / 60) readings := by
  intro h
  have hloads : Document.validate noSources boundless = .ok boundlessLoaded := by decide +kernel
  have hexact := h noSources boundless boundlessLoaded hloads "openai" _ rfl _ List.mem_cons_self
    18446744073709552 (Or.inl rfl) []
  have hnone : ∀ c ∈ ([] : List Call), c.Made := fun c hc => by cases hc
  exact absurd (hexact [] rfl hnone).1 (by decide)

end RapidRouter.Core.TokenBucket
