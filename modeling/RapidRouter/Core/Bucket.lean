import RapidRouter.Core.TokenBucket

/-!
# A token bucket, one caller at a time

The operations of `token_bucket.rs` as they are when no other thread comes
between their steps: `Bucket` is the balance, the refill timestamp and the
limits, and each operation is a function of it. `alone_tryConsume` and
`alone_debitSaturating` say that this is what the steps of the concurrent
bucket come to.

A refill to a reading already reached does nothing (`refill_refill`), so what
a bucket can give at a reading is a matter of its refilled state, however
often it has been asked.
-/

namespace RapidRouter.Core.TokenBucket

open Interleave

structure Bucket where
  limits : Limits
  available : Nat
  lastRefillMs : Nat
  deriving DecidableEq

namespace Bucket

/-- `TokenBucket::new`. -/
def new (capacity perSecond : Nat) : Bucket :=
  ⟨.new capacity perSecond, wrappingMul capacity 1000, 0⟩

def refill (b : Bucket) (now : Nat) : Bucket :=
  if now ≤ b.lastRefillMs then b
  else
    { b with
      available := credited b.limits
        (saturatingMul (now - b.lastRefillMs) b.limits.refillMilliPerMs) b.available
      lastRefillMs := now }

def tryConsume (b : Bucket) (tokens now : Nat) : Bucket × Bool :=
  let b := b.refill now
  if b.available < wrappingMul tokens 1000 then (b, false)
  else ({ b with available := b.available - wrappingMul tokens 1000 }, true)

def debitSaturating (b : Bucket) (tokens now : Nat) : Bucket :=
  let b := b.refill now
  { b with available := b.available - saturatingMul tokens 1000 }

def availableTokens (b : Bucket) : Nat := b.available / 1000

/-- `clone_state`. -/
def cloneState (b : Bucket) : Bucket := ⟨b.limits, b.available, b.lastRefillMs⟩

@[simp] theorem refill_limits (b : Bucket) (now : Nat) : (b.refill now).limits = b.limits := by
  unfold refill
  split <;> rfl

theorem le_refill (b : Bucket) (now : Nat) : now ≤ (b.refill now).lastRefillMs := by
  unfold refill
  split
  · next h => exact h
  · exact le_rfl

theorem refill_of_le {b : Bucket} {now : Nat} (h : now ≤ b.lastRefillMs) : b.refill now = b :=
  if_pos h

@[simp] theorem refill_refill (b : Bucket) (now : Nat) :
    (b.refill now).refill now = b.refill now := refill_of_le (le_refill b now)

/-- Asking for nothing only refills. -/
theorem tryConsume_zero (b : Bucket) (now : Nat) : b.tryConsume 0 now = (b.refill now, true) := by
  have hzero : wrappingMul 0 1000 = 0 := rfl
  unfold tryConsume
  dsimp only
  rw [hzero, if_neg (Nat.not_lt_zero _), Nat.sub_zero]

/-! ### What a bucket can give -/

/-- What a bucket would hold, refilled to a reading. -/
def room (b : Bucket) (now : Nat) : Nat :=
  min b.limits.capacityMilli (b.available + b.limits.refillMilliPerMs * (now - b.lastRefillMs))

theorem room_le (b : Bucket) (now : Nat) : b.room now ≤ b.limits.capacityMilli := Nat.min_le_left ..

theorem room_add_le (b : Bucket) (now ms : Nat) :
    b.room (now + ms) ≤ b.room now + b.limits.refillMilliPerMs * ms := by
  have hpassed : now + ms - b.lastRefillMs ≤ now - b.lastRefillMs + ms := by omega
  have hcredit := Nat.mul_le_mul_left b.limits.refillMilliPerMs hpassed
  rw [Nat.mul_add] at hcredit
  unfold room
  omega

/-- A bucket that holds no more than its capacity is refilled to its room at
most: a product that saturates and a sum that wraps only lower it. -/
theorem available_refill_le {b : Bucket} (h : b.available ≤ b.limits.capacityMilli) (now : Nat) :
    (b.refill now).available ≤ b.room now := by
  unfold refill room
  by_cases hreached : now ≤ b.lastRefillMs
  · rw [if_pos hreached]
    omega
  · rw [if_neg hreached]
    dsimp only
    have hcredit : saturatingMul (now - b.lastRefillMs) b.limits.refillMilliPerMs ≤
        b.limits.refillMilliPerMs * (now - b.lastRefillMs) := by
      rw [Nat.mul_comm b.limits.refillMilliPerMs]
      exact Nat.min_le_left ..
    have hwrap := Nat.mod_le (b.available +
      saturatingMul (now - b.lastRefillMs) b.limits.refillMilliPerMs) (2 ^ 64)
    unfold credited
    omega

/-- A call leaves the limits, and a balance within them. What it takes is
taken of the room. -/
theorem tryConsume_one_room {b : Bucket} (h : b.available ≤ b.limits.capacityMilli) (now : Nat) :
    (b.tryConsume 1 now).1.limits = b.limits ∧
      (b.tryConsume 1 now).1.available ≤ b.limits.capacityMilli ∧
      (b.tryConsume 1 now).1.room now + (if (b.tryConsume 1 now).2 then 1000 else 0) ≤
        b.room now := by
  have hrefilled := available_refill_le h now
  have hfull := b.room_le now
  have hlast := le_refill b now
  have hnothing : now - (b.refill now).lastRefillMs = 0 := by omega
  have hone : wrappingMul 1 1000 = 1000 := rfl
  unfold tryConsume
  dsimp only
  rw [hone]
  by_cases hshort : (b.refill now).available < 1000
  · rw [if_pos hshort]
    refine ⟨refill_limits b now, by dsimp only; omega, ?_⟩
    unfold room at hrefilled ⊢
    dsimp only
    rw [hnothing]
    simp only [Bool.false_eq_true, if_false]
    omega
  · rw [if_neg hshort]
    refine ⟨refill_limits b now, by dsimp only; omega, ?_⟩
    unfold room at hrefilled ⊢
    dsimp only
    rw [hnothing]
    simp only [if_true]
    omega

end Bucket

/-! ## The steps of a call on its own -/

variable {limits : Limits}

/-- The words of a bucket. -/
def Shared.bucket (limits : Limits) (s : Shared) : Bucket := ⟨limits, s.available, s.lastRefillMs⟩

def alone (limits : Limits) (s : Shared) (call : Call) : Option (Shared × Ret) :=
  (machine limits).finish false 6 s (start call)

/-- A refill takes a call at most four steps, to the load of the balance. -/
theorem finish_refill (s : Shared) {call : Call} (hcall : afterRefill call = .goes (.load call)) :
    ∃ (s' : Shared) (steps : Nat), steps ≤ 4 ∧
      s'.bucket limits = (s.bucket limits).refill call.now ∧
      ∀ fuel, (machine limits).finish false (fuel + steps) s (.loadLast call) =
        (machine limits).finish false fuel s' (.load call) := by
  by_cases hreached : call.now ≤ s.lastRefillMs
  · have hload : (machine limits).step s (.loadLast call) false = some (s, .goes (.load call)) := by
      show some (s, if call.now ≤ s.lastRefillMs then afterRefill call else _) = _
      rw [if_pos hreached, hcall]
    exact ⟨s, 1, by omega, (Bucket.refill_of_le hreached).symm,
      fun fuel => Machine.finish_goes hload⟩
  · have hload : (machine limits).step s (.loadLast call) false =
        some (s, .goes (.swapLast call s.lastRefillMs)) := by
      show some (s, if call.now ≤ s.lastRefillMs then _ else _) = _
      rw [if_neg hreached]
    let credit := saturatingMul (call.now - s.lastRefillMs) limits.refillMilliPerMs
    let claimed : Shared := { s with
      lastRefillMs := call.now
      ledger := { s.ledger with intervals := (s.lastRefillMs, call.now) :: s.ledger.intervals } }
    have hswap : (machine limits).step s (.swapLast call s.lastRefillMs) false =
        some (claimed, .goes (.loadForCredit call credit)) := if_pos rfl
    have hrefill : (s.bucket limits).refill call.now =
        ⟨limits, credited limits credit s.available, call.now⟩ := if_neg hreached
    by_cases hnothing : credited limits credit s.available = s.available
    · have hcredit : (machine limits).step claimed (.loadForCredit call credit) false =
          some (claimed, .goes (.load call)) := by
        show some (claimed, if credited limits credit s.available = s.available then _ else _) = _
        rw [if_pos hnothing, hcall]
      refine ⟨claimed, 3, by omega, ?_, fun fuel => ?_⟩
      · rw [hrefill, hnothing]
        rfl
      · rw [Machine.finish_goes hload, Machine.finish_goes hswap, Machine.finish_goes hcredit]
    · have hcredit : (machine limits).step claimed (.loadForCredit call credit) false =
          some (claimed, .goes (.swapCredit call credit s.available)) := by
        show some (claimed, if credited limits credit s.available = s.available then _ else _) = _
        rw [if_neg hnothing]
      have hdeposit : (machine limits).step claimed (.swapCredit call credit s.available) false =
          some ({ claimed with available := credited limits credit s.available },
            .goes (.load call)) := by
        show (if (!false && decide (s.available = s.available)) = true then _ else _) = _
        rw [if_pos (by rw [decide_eq_true rfl]; rfl), hcall]
      refine ⟨{ claimed with available := credited limits credit s.available }, 4, le_rfl,
        hrefill.symm, fun fuel => ?_⟩
      rw [Machine.finish_goes hload, Machine.finish_goes hswap, Machine.finish_goes hcredit,
        Machine.finish_goes hdeposit]

/-- The exchange of the balance just read. -/
theorem step_swap (s : Shared) (call : Call) :
    (machine limits).step s (.swap call s.available) false =
      some (exchange s call s.available) := by
  show (if (!false && decide (s.available = s.available)) = true then _ else _) = _
  rw [if_pos (by rw [decide_eq_true rfl]; rfl)]

theorem alone_tryConsume (s : Shared) (tokens now : Nat) :
    ∃ s', alone limits s (.tryConsume tokens now) =
        some (s', .took ((s.bucket limits).tryConsume tokens now).2) ∧
      s'.bucket limits = ((s.bucket limits).tryConsume tokens now).1 := by
  obtain ⟨t, steps, hsteps, hbucket, hfinish⟩ :=
    @finish_refill limits s (.tryConsume tokens now) rfl
  have hfuel : 6 = (6 - steps - 2 + 2) + steps := by omega
  have htake : (s.bucket limits).tryConsume tokens now =
      if t.available < wrappingMul tokens 1000 then (t.bucket limits, false)
      else (⟨limits, t.available - wrappingMul tokens 1000, t.lastRefillMs⟩, true) := by
    unfold Bucket.tryConsume
    rw [show (s.bucket limits).refill now = t.bucket limits from hbucket.symm]
    rfl
  unfold alone
  show ∃ s', (machine limits).finish false 6 s (.loadLast _) = _ ∧ _
  rw [hfuel, hfinish, htake]
  by_cases hshort : t.available < wrappingMul tokens 1000
  · have hload : (machine limits).step t (.load (.tryConsume tokens now)) false =
        some (t, .returns (.took false)) := by
      show some (t, if t.available < wrappingMul tokens 1000 then _ else _) = _
      rw [if_pos hshort]
    rw [if_pos hshort, Machine.finish_returns hload]
    exact ⟨t, rfl, rfl⟩
  · have hload : (machine limits).step t (.load (.tryConsume tokens now)) false =
        some (t, .goes (.swap (.tryConsume tokens now) t.available)) := by
      show some (t, if t.available < wrappingMul tokens 1000 then _ else _) = _
      rw [if_neg hshort]
    rw [if_neg hshort, Machine.finish_goes hload, Machine.finish_returns (step_swap t _)]
    exact ⟨_, rfl, rfl⟩

theorem alone_debitSaturating (s : Shared) (tokens now : Nat) :
    ∃ s', alone limits s (.debitSaturating tokens now) = some (s', .done) ∧
      s'.bucket limits = (s.bucket limits).debitSaturating tokens now := by
  obtain ⟨t, steps, hsteps, hbucket, hfinish⟩ :=
    @finish_refill limits s (.debitSaturating tokens now) rfl
  have hfuel : 6 = (6 - steps - 2 + 2) + steps := by omega
  have hdebit : (s.bucket limits).debitSaturating tokens now =
      ⟨limits, t.available - saturatingMul tokens 1000, t.lastRefillMs⟩ := by
    unfold Bucket.debitSaturating
    rw [show (s.bucket limits).refill now = t.bucket limits from hbucket.symm]
    rfl
  unfold alone
  show ∃ s', (machine limits).finish false 6 s (.loadLast _) = _ ∧ _
  rw [hfuel, hfinish, hdebit]
  by_cases hnothing : t.available - saturatingMul tokens 1000 = t.available
  · have hload : (machine limits).step t (.load (.debitSaturating tokens now)) false =
        some (t, .returns .done) := by
      show some (t, if t.available - saturatingMul tokens 1000 = t.available then _ else _) = _
      rw [if_pos hnothing]
    rw [Machine.finish_returns hload]
    exact ⟨t, rfl, by rw [hnothing]; rfl⟩
  · have hload : (machine limits).step t (.load (.debitSaturating tokens now)) false =
        some (t, .goes (.swap (.debitSaturating tokens now) t.available)) := by
      show some (t, if t.available - saturatingMul tokens 1000 = t.available then _ else _) = _
      rw [if_neg hnothing]
    rw [Machine.finish_goes hload, Machine.finish_returns (step_swap t _)]
    exact ⟨_, rfl, rfl⟩

end RapidRouter.Core.TokenBucket
