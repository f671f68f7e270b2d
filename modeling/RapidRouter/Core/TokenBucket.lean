import RapidRouter.Lib.Interleave

/-!
# The token bucket

`router-core/src/token_bucket.rs`: a balance of millitokens and the timestamp
of the last refill, two atomic words any number of threads work on. A call
first refills: it moves the timestamp forward to its own clock reading with a
compare-and-swap, which makes the time passed its to credit, and then adds
the credit to the balance in a loop of its own. Then it takes from the
balance, or drains it.

Between the two halves of a refill the credit is in no word: it is claimed
and not deposited. With these credits counted (`outstanding`), nothing is
ever made: `step_flow` says so of every step, and `conserved` of every run.
What a window of time can let through is another matter. A balance is clamped
to the capacity when a credit is deposited, so a credit deposited late is
clamped against a balance others have drained meanwhile (`late_deposit`), and
`window_bound` holds of the runs in which units are only taken while no
credit is on its way.

A ghost `Ledger` records what was taken, drained and credited.
-/

namespace RapidRouter.Core.TokenBucket

open Interleave Lts

/-- Products of `u64` wrap, and saturate where the source says so. -/
def wrappingMul (a b : Nat) : Nat := a * b % 2 ^ 64

def saturatingMul (a b : Nat) : Nat := min (a * b) (2 ^ 64 - 1)

/-- The fields that never change. -/
structure Limits where
  capacityMilli : Nat
  refillMilliPerMs : Nat
  deriving DecidableEq

/-- `TokenBucket::new`. -/
def Limits.new (capacity perSecond : Nat) : Limits := ⟨wrappingMul capacity 1000, perSecond⟩

/-- One take of a call that succeeded. -/
structure Take where
  now : Nat
  units : Nat
  deriving DecidableEq

/-- What happened so far, the latest first. -/
structure Ledger where
  takes : List Take
  debited : Nat
  /-- The intervals credited: after the first time, up to the second. -/
  intervals : List (Nat × Nat)
  deriving DecidableEq

structure Shared where
  available : Nat
  lastRefillMs : Nat
  ledger : Ledger

/-- A bucket starts full. -/
def Shared.new (limits : Limits) : Shared := ⟨limits.capacityMilli, 0, ⟨[], 0, []⟩⟩

inductive Call where
  | tryConsume (tokens now : Nat)
  | refill (now : Nat)
  | debitSaturating (tokens now : Nat)

def Call.now : Call → Nat
  | .tryConsume _ now | .refill now | .debitSaturating _ now => now

inductive Ret where
  | took (ok : Bool)
  | done

/-- Which atomic operation a call performs next, with what it has read. -/
inductive Pc where
  | loadLast (call : Call)
  | swapLast (call : Call) (last : Nat)
  | loadForCredit (call : Call) (credit : Nat)
  | swapCredit (call : Call) (credit current : Nat)
  | load (call : Call)
  | swap (call : Call) (current : Nat)

def start (call : Call) : Pc := .loadLast call

/-- The rest of a call, once its refill is over. -/
def afterRefill : Call → Outcome Pc Ret
  | .refill _ => .returns .done
  | call => .goes (.load call)

variable (limits : Limits)

def credited (credit current : Nat) : Nat := min ((current + credit) % 2 ^ 64) limits.capacityMilli

/-- With the balance read: add the credit, unless that changes nothing. -/
def depositFrom (call : Call) (credit current : Nat) : Outcome Pc Ret :=
  if credited limits credit current = current then afterRefill call
  else .goes (.swapCredit call credit current)

/-- With the balance read: refuse, leave it, or exchange it. -/
def takeFrom (call : Call) (current : Nat) : Outcome Pc Ret :=
  match call with
  | .tryConsume tokens _ =>
    if current < wrappingMul tokens 1000 then .returns (.took false) else .goes (.swap call current)
  | .debitSaturating tokens _ =>
    if current - saturatingMul tokens 1000 = current then .returns .done
    else .goes (.swap call current)
  | .refill _ => .returns .done

/-- The exchange of the balance a call has read. -/
def exchange (s : Shared) (call : Call) (current : Nat) : Shared × Outcome Pc Ret :=
  match call with
  | .tryConsume tokens now =>
    ({ s with
        available := current - wrappingMul tokens 1000
        ledger := { s.ledger with takes := ⟨now, tokens * 1000⟩ :: s.ledger.takes } },
      .returns (.took true))
  | .debitSaturating tokens _ =>
    let next := current - saturatingMul tokens 1000
    ({ s with
        available := next
        ledger := { s.ledger with debited := s.ledger.debited + (current - next) } },
      .returns .done)
  | .refill _ => (s, .returns .done)

/-- One atomic step. A weak exchange may fail without a reason; a failed one
goes round with the value it found. -/
def step (s : Shared) (p : Pc) (spurious : Bool) : Option (Shared × Outcome Pc Ret) :=
  match p with
  | .loadLast call =>
    some (s, if call.now ≤ s.lastRefillMs then afterRefill call
      else .goes (.swapLast call s.lastRefillMs))
  | .swapLast call last =>
    if s.lastRefillMs = last then
      some ({ s with
          lastRefillMs := call.now
          ledger := { s.ledger with intervals := (last, call.now) :: s.ledger.intervals } },
        .goes (.loadForCredit call (saturatingMul (call.now - last) limits.refillMilliPerMs)))
    else some (s, afterRefill call)
  | .loadForCredit call credit => some (s, depositFrom limits call credit s.available)
  | .swapCredit call credit current =>
    if !spurious && s.available = current then
      some ({ s with available := credited limits credit current }, afterRefill call)
    else some (s, depositFrom limits call credit s.available)
  | .load call => some (s, takeFrom call s.available)
  | .swap call current =>
    if !spurious && s.available = current then some (exchange s call current)
    else some (s, takeFrom call s.available)

def machine : Machine Shared Pc Call Bool Ret := ⟨start, step limits⟩

/-! ## What one step can do -/

def Pc.call : Pc → Call
  | .loadLast call | .swapLast call _ | .loadForCredit call _ | .swapCredit call _ _ | .load call
  | .swap call _ => call

/-- The credit a thread has claimed and not deposited, as far as a deposit of
it can count. -/
def outstanding : Pc → Nat
  | .loadForCredit _ credit | .swapCredit _ credit _ => min credit limits.capacityMilli
  | _ => 0

/-- What holds of a position: an exchange of the timestamp moves it forward,
and one that takes units takes no more than the balance it replaces. -/
def PcOk (s : Shared) : Pc → Prop
  | .swapLast call last => last < call.now ∧ last ≤ s.lastRefillMs
  | .swap (.tryConsume tokens _) current => wrappingMul tokens 1000 ≤ current
  | _ => True

/-- A step changes nothing, claims a credit, deposits one, takes units or
drains some. -/
inductive Effect (s : Shared) : Pc → Shared → Outcome Pc Ret → Prop where
  | quiet {p : Pc} {out : Outcome Pc Ret}
      (hweight : Machine.weight (outstanding limits) out.position ≤ outstanding limits p)
      (hout : ∀ q, out = .goes q → PcOk s q) : Effect s p s out
  | claim (call : Call) :
      Effect s (.swapLast call s.lastRefillMs)
        { s with
          lastRefillMs := call.now
          ledger := { s.ledger with
            intervals := (s.lastRefillMs, call.now) :: s.ledger.intervals } }
        (.goes (.loadForCredit call
          (saturatingMul (call.now - s.lastRefillMs) limits.refillMilliPerMs)))
  | deposit (call : Call) (credit : Nat) :
      Effect s (.swapCredit call credit s.available)
        { s with available := credited limits credit s.available } (afterRefill call)
  | take (tokens now : Nat) :
      Effect s (.swap (.tryConsume tokens now) s.available)
        { s with
          available := s.available - wrappingMul tokens 1000
          ledger := { s.ledger with takes := ⟨now, tokens * 1000⟩ :: s.ledger.takes } }
        (.returns (.took true))
  | drain (tokens now next : Nat) (hnext : next ≤ s.available) :
      Effect s (.swap (.debitSaturating tokens now) s.available)
        { s with
          available := next
          ledger := { s.ledger with debited := s.ledger.debited + (s.available - next) } }
        (.returns .done)

theorem afterRefill_position (call : Call) :
    (afterRefill call).position = none ∨ (afterRefill call).position = some (.load call) := by
  cases call with
  | refill now => exact Or.inl rfl
  | tryConsume tokens now | debitSaturating tokens now => exact Or.inr rfl

theorem weight_afterRefill (call : Call) :
    Machine.weight (outstanding limits) (afterRefill call).position = 0 := by
  rcases afterRefill_position call with h | h <;> rw [h] <;> rfl

theorem pcOk_afterRefill (s : Shared) (call : Call) (q : Pc) (h : afterRefill call = .goes q) :
    PcOk s q := by
  cases call with
  | refill now => cases h
  | tryConsume tokens now | debitSaturating tokens now =>
    cases h
    trivial

theorem quiet_deposit (s : Shared) (p : Pc) (call : Call) (credit : Nat)
    (hp : outstanding limits p = min credit limits.capacityMilli) :
    Effect limits s p s (depositFrom limits call credit s.available) := by
  unfold depositFrom
  split
  · refine .quiet ?_ (pcOk_afterRefill s call)
    rw [weight_afterRefill]
    exact Nat.zero_le _
  · refine .quiet (le_of_eq hp.symm) fun q hq => ?_
    cases hq
    trivial

theorem quiet_take (s : Shared) (p : Pc) (call : Call) :
    Effect limits s p s (takeFrom call s.available) := by
  cases call with
  | refill now => exact .quiet (Nat.zero_le _) fun q hq => by cases hq
  | tryConsume tokens now =>
    show Effect limits s p s (if _ then _ else _)
    split
    · exact .quiet (Nat.zero_le _) fun q hq => by cases hq
    · next h =>
      refine .quiet (Nat.zero_le _) fun q hq => ?_
      cases hq
      exact not_lt.mp h
  | debitSaturating tokens now =>
    show Effect limits s p s (if _ then _ else _)
    split
    · exact .quiet (Nat.zero_le _) fun q hq => by cases hq
    · refine .quiet (Nat.zero_le _) fun q hq => ?_
      cases hq
      trivial

theorem step_effect {s s' : Shared} {p : Pc} {spurious : Bool} {out : Outcome Pc Ret}
    (h : step limits s p spurious = some (s', out)) : Effect limits s p s' out := by
  cases p with
  | loadLast call =>
    cases h
    split
    · exact .quiet (le_of_eq (weight_afterRefill limits call)) (pcOk_afterRefill s call)
    · next hlt =>
      refine .quiet le_rfl fun q hq => ?_
      cases hq
      exact ⟨not_le.mp hlt, le_rfl⟩
  | swapLast call last =>
    unfold step at h
    dsimp only at h
    split at h
    · next heq =>
      cases h
      rw [← heq]
      exact .claim call
    · cases h
      exact .quiet (le_of_eq (weight_afterRefill limits call)) (pcOk_afterRefill s call)
  | loadForCredit call credit =>
    cases h
    exact quiet_deposit limits s _ call credit rfl
  | swapCredit call credit current =>
    unfold step at h
    dsimp only at h
    split at h
    · next heq =>
      cases h
      rw [Bool.and_eq_true, decide_eq_true_eq] at heq
      rw [← heq.2]
      exact .deposit call credit
    · cases h
      exact quiet_deposit limits s _ call credit rfl
  | load call =>
    cases h
    exact quiet_take limits s _ call
  | swap call current =>
    unfold step at h
    dsimp only at h
    split at h
    · next heq =>
      rw [Bool.and_eq_true, decide_eq_true_eq] at heq
      rw [← heq.2] at h ⊢
      cases call with
      | refill now =>
        cases h
        exact .quiet le_rfl fun q hq => by cases hq
      | tryConsume tokens now =>
        cases h
        exact .take tokens now
      | debitSaturating tokens now =>
        cases h
        exact .drain tokens now _ (Nat.sub_le _ _)
    · cases h
      exact quiet_take limits s _ call

theorem step_call {s s' : Shared} {p q : Pc} {spurious : Bool}
    (h : step limits s p spurious = some (s', .goes q)) : q.call = p.call := by
  have hrefill : ∀ call, afterRefill call = .goes q → q.call = call := by
    intro call hq
    cases call <;> cases hq <;> rfl
  have hdeposit : ∀ call credit current,
      depositFrom limits call credit current = .goes q → q.call = call := by
    intro call credit current hq
    unfold depositFrom at hq
    split at hq
    · exact hrefill call hq
    · cases hq
      rfl
  have htake : ∀ call current, takeFrom call current = .goes q → q.call = call := by
    intro call current hq
    unfold takeFrom at hq
    cases call with
    | refill now => cases hq
    | tryConsume tokens now | debitSaturating tokens now =>
      dsimp only at hq
      split at hq <;> cases hq
      rfl
  unfold step at h
  cases p with
  | loadLast call =>
    rw [Option.some.injEq, Prod.mk.injEq] at h
    obtain ⟨_, hq⟩ := h
    split at hq
    · exact hrefill call hq
    · cases hq
      rfl
  | swapLast call last =>
    dsimp only at h
    split at h <;> rw [Option.some.injEq, Prod.mk.injEq] at h
    · cases h.2
      rfl
    · exact hrefill call h.2
  | loadForCredit call credit =>
    rw [Option.some.injEq, Prod.mk.injEq] at h
    exact hdeposit call credit _ h.2
  | swapCredit call credit current =>
    dsimp only at h
    split at h <;> rw [Option.some.injEq, Prod.mk.injEq] at h
    · exact hrefill call h.2
    · exact hdeposit call credit _ h.2
  | load call =>
    rw [Option.some.injEq, Prod.mk.injEq] at h
    exact htake call _ h.2
  | swap call current =>
    dsimp only at h
    split at h <;> rw [Option.some.injEq] at h
    · cases call <;> cases h
    · rw [Prod.mk.injEq] at h
      exact htake call _ h.2

/-! ## Nothing is made -/

def units (takes : List Take) : Nat := (takes.map Take.units).sum

/-- What is asked for fits the word. -/
def Fits : Call → Prop
  | .tryConsume tokens _ => tokens * 1000 < 2 ^ 64
  | _ => True

variable {limits}

/-- A step makes no more than the time it credits is worth. -/
theorem Effect.flow {s s' : Shared} {p : Pc} {out : Outcome Pc Ret} (h : Effect limits s p s' out)
    (hp : PcOk s p) (hfits : Fits p.call) :
    units s'.ledger.takes + s'.ledger.debited + s'.available +
        Machine.weight (outstanding limits) out.position +
        limits.refillMilliPerMs * s.lastRefillMs ≤
      units s.ledger.takes + s.ledger.debited + s.available + outstanding limits p +
        limits.refillMilliPerMs * s'.lastRefillMs := by
  cases h with
  | quiet hweight hout => omega
  | claim call =>
    have hlt : s.lastRefillMs < call.now := hp.1
    have hcredit : saturatingMul (call.now - s.lastRefillMs) limits.refillMilliPerMs +
        limits.refillMilliPerMs * s.lastRefillMs ≤ limits.refillMilliPerMs * call.now := by
      have hsplit : limits.refillMilliPerMs * call.now =
          (call.now - s.lastRefillMs) * limits.refillMilliPerMs +
            limits.refillMilliPerMs * s.lastRefillMs := by
        rw [Nat.mul_comm (call.now - s.lastRefillMs), ← Nat.mul_add]
        congr 1
        omega
      unfold saturatingMul
      omega
    show units s.ledger.takes + s.ledger.debited + s.available + min _ limits.capacityMilli + _ ≤
      units s.ledger.takes + s.ledger.debited + s.available + 0 + _
    dsimp only
    omega
  | deposit call credit =>
    have hmod := Nat.mod_le (s.available + credit) (2 ^ 64)
    rw [weight_afterRefill]
    show _ + _ + min ((s.available + credit) % 2 ^ 64) limits.capacityMilli + 0 + _ ≤
      _ + _ + _ + min credit limits.capacityMilli + _
    dsimp only
    omega
  | take tokens now =>
    have hneed : wrappingMul tokens 1000 ≤ s.available := hp
    have hunits : wrappingMul tokens 1000 = tokens * 1000 := Nat.mod_eq_of_lt hfits
    have hcons : units (⟨now, tokens * 1000⟩ :: s.ledger.takes) =
        tokens * 1000 + units s.ledger.takes := List.sum_cons
    show units (_ :: _) + _ + (s.available - wrappingMul tokens 1000) + 0 + _ ≤ _ + _ + _ + 0 + _
    dsimp only
    omega
  | drain tokens now next hnext =>
    show _ + (s.ledger.debited + (s.available - next)) + next + 0 + _ ≤ _ + _ + _ + 0 + _
    dsimp only
    omega

theorem Effect.balance {s s' : Shared} {p : Pc} {out : Outcome Pc Ret}
    (h : Effect limits s p s' out) (hs : s.available ≤ limits.capacityMilli) :
    s'.available ≤ limits.capacityMilli := by
  cases h with
  | quiet | claim => exact hs
  | deposit call credit => exact Nat.min_le_right _ _
  | take tokens now => exact (Nat.sub_le _ _).trans hs
  | drain tokens now next hnext => exact hnext.trans hs

theorem Effect.lastRefill_le {s s' : Shared} {p : Pc} {out : Outcome Pc Ret}
    (h : Effect limits s p s' out) (hp : PcOk s p) : s.lastRefillMs ≤ s'.lastRefillMs := by
  cases h with
  | claim call => exact hp.1.le
  | quiet | deposit | take | drain => exact le_rfl

theorem Effect.pcOk {s s' : Shared} {p : Pc} {out : Outcome Pc Ret} (h : Effect limits s p s' out)
    (q : Pc) (hq : out = .goes q) : PcOk s' q := by
  cases h with
  | quiet hweight hout => exact hout q hq
  | claim call =>
    cases hq
    trivial
  | deposit call credit => exact pcOk_afterRefill _ call q hq
  | take | drain => cases hq

/-- A position stays sound when another thread moves. -/
theorem PcOk.mono {s s' : Shared} (h : s.lastRefillMs ≤ s'.lastRefillMs) {q : Pc} (hq : PcOk s q) :
    PcOk s' q := by
  cases q with
  | swapLast call last => exact ⟨hq.1, hq.2.trans h⟩
  | swap call current =>
    cases call with
    | tryConsume tokens now => exact hq
    | refill now | debitSaturating tokens now => trivial
  | loadLast | loadForCredit | swapCredit | load => trivial

/-- The intervals credited follow each other up to the last refill. -/
def Contiguous : Nat → List (Nat × Nat) → Prop
  | last, [] => last = 0
  | last, i :: rest => i.2 = last ∧ i.1 < i.2 ∧ Contiguous i.1 rest

theorem Effect.contiguous {s s' : Shared} {p : Pc} {out : Outcome Pc Ret}
    (h : Effect limits s p s' out) (hp : PcOk s p)
    (hs : Contiguous s.lastRefillMs s.ledger.intervals) :
    Contiguous s'.lastRefillMs s'.ledger.intervals := by
  cases h with
  | claim call => exact ⟨rfl, hp.1, hs⟩
  | quiet | deposit | take | drain => exact hs

/-- The time credited. -/
def timeCredited (intervals : List (Nat × Nat)) : Nat := (intervals.map fun i => i.2 - i.1).sum

theorem Contiguous.timeCredited {last : Nat} {intervals : List (Nat × Nat)}
    (h : Contiguous last intervals) : timeCredited intervals = last := by
  induction intervals generalizing last with
  | nil => exact h.symm
  | cons i rest ih =>
    obtain ⟨hlast, hlt, hrest⟩ := h
    have hsum : TokenBucket.timeCredited (i :: rest) =
        i.2 - i.1 + TokenBucket.timeCredited rest := List.sum_cons
    rw [hsum, ih hrest]
    omega

/-- The intervals that credit the millisecond that ends at `t`. -/
def credits (t : Nat) (i : Nat × Nat) : Bool := i.1 < t && t ≤ i.2

theorem Contiguous.countP_credits {last : Nat} {intervals : List (Nat × Nat)}
    (h : Contiguous last intervals) (t : Nat) :
    intervals.countP (credits t) ≤ if t ≤ last then 1 else 0 := by
  induction intervals generalizing last with
  | nil => exact Nat.zero_le _
  | cons i rest ih =>
    obtain ⟨hlast, hlt, hrest⟩ := h
    have hcount := ih hrest
    rw [List.countP_cons]
    unfold credits at hcount ⊢
    by_cases ht : t ≤ i.1
    · have hnot : ¬ (i.1 < t) := by omega
      have hle : t ≤ last := by omega
      simp only [hnot, decide_false, Bool.false_and, Bool.false_eq_true, if_false, Nat.add_zero]
      rw [if_pos hle]
      rw [if_pos ht] at hcount
      exact hcount
    · rw [if_neg ht] at hcount
      by_cases ht' : t ≤ last
      · rw [if_pos ht']
        split <;> omega
      · have hnot : ¬ (t ≤ i.2) := by omega
        simp only [hnot, decide_false, Bool.and_false, Bool.false_eq_true, if_false, Nat.add_zero]
        rw [if_neg ht']
        exact hcount

section
variable {ι : Type} [Fintype ι] [DecidableEq ι]

/-- The claimed credits of all threads. -/
def onTheWay (limits : Limits) (s : State ι Shared Pc) : Nat := Machine.held (outstanding limits) s

structure BucketInv (limits : Limits) (s : State ι Shared Pc) : Prop where
  balance : s.shared.available ≤ limits.capacityMilli
  intervals : Contiguous s.shared.lastRefillMs s.shared.ledger.intervals
  flow : units s.shared.ledger.takes + s.shared.ledger.debited + s.shared.available +
      onTheWay limits s ≤
    limits.capacityMilli + limits.refillMilliPerMs * s.shared.lastRefillMs
  thread : ∀ i p, s.pc i = some p → PcOk s.shared p ∧ Fits p.call

/-- Calls ask for what fits the word. -/
def NoOverflow (_ : State ι Shared Pc) (a : Label ι Call Bool) : Prop :=
  ∀ i call, a = .invoke i call → Fits call

omit [DecidableEq ι] in
theorem bucketInv_initial (limits : Limits) :
    BucketInv limits (Machine.initial (Shared.new limits) : State ι Shared Pc) := by
  refine ⟨le_rfl, rfl, ?_, fun i p hp => by cases hp⟩
  show 0 + 0 + limits.capacityMilli + onTheWay limits (Machine.initial (Shared.new limits)) ≤ _
  unfold onTheWay
  rw [Machine.held_initial]
  omega

/-- The moving thread's step, and what it does to the sum over all. -/
theorem held_step (limits : Limits) {s : State ι Shared Pc} {i : ι} {p : Pc} (hp : s.pc i = some p) (shared : Shared)
    (out : Outcome Pc Ret) :
    onTheWay limits ⟨shared, Function.update s.pc i out.position⟩ + outstanding limits p =
      onTheWay limits s + Machine.weight (outstanding limits) out.position := by
  have h := Machine.held_update (outstanding limits) s shared i out.position
  rw [hp] at h
  exact h

theorem bucketInv_step {s s' : State ι Shared Pc} {a : Label ι Call Bool} (h : BucketInv limits s)
    (hfits : NoOverflow s a) (hnext : (machine limits).next s a = some s') :
    BucketInv limits s' := by
  rcases Machine.next_cases _ hnext with
    ⟨i, call, ha, hidle, rfl⟩ | ⟨i, choice, p, shared, out, ha, hp, hm, rfl⟩
  · have hheld := Machine.held_update (outstanding limits) s s.shared i (some (start call))
    rw [hidle] at hheld
    refine ⟨h.balance, h.intervals, ?_, ?_⟩
    · have hsame : onTheWay limits ⟨s.shared, Function.update s.pc i (some (start call))⟩ =
          onTheWay limits s := hheld
      show _ + onTheWay limits ⟨s.shared, Function.update s.pc i (some (start call))⟩ ≤ _
      rw [hsame]
      exact h.flow
    · intro j q hq
      dsimp only at hq
      by_cases hij : j = i
      · subst hij
        rw [Function.update_self, Option.some.injEq] at hq
        exact hq ▸ ⟨trivial, hfits j call ha⟩
      · rw [Function.update_of_ne hij] at hq
        exact h.thread j q hq
  · obtain ⟨hpc, hcall⟩ := h.thread i p hp
    have heffect := step_effect limits hm
    have hflow := heffect.flow hpc hcall
    have hmono := heffect.lastRefill_le hpc
    have hheld := held_step limits hp shared out
    refine ⟨heffect.balance h.balance, heffect.contiguous hpc h.intervals, ?_, ?_⟩
    · have := h.flow
      dsimp only
      omega
    · intro j q hq
      dsimp only at hq
      by_cases hij : j = i
      · subst hij
        rw [Function.update_self] at hq
        cases out with
        | returns r => cases hq
        | goes r =>
          cases hq
          exact ⟨heffect.pcOk q rfl, (step_call limits hm).symm ▸ hcall⟩
      · rw [Function.update_of_ne hij] at hq
        obtain ⟨hq1, hq2⟩ := h.thread j q hq
        exact ⟨hq1.mono hmono, hq2⟩

/-- Whatever the interleaving, the balance stays within the capacity, no call
takes more than there is, no millisecond is credited twice, and what was
taken, drained and is left is worth no more than a full bucket and the time
credited. -/
theorem conserved {s : State ι Shared Pc}
    (h : Reach ((machine limits).system (· = Shared.new limits)) NoOverflow s) :
    s.shared.available ≤ limits.capacityMilli ∧
      (∀ i tokens now current, s.pc i = some (.swap (.tryConsume tokens now) current) →
        tokens * 1000 ≤ current) ∧
      (∀ t, s.shared.ledger.intervals.countP (credits t) ≤ 1) ∧
      units s.shared.ledger.takes + s.shared.ledger.debited + s.shared.available ≤
        limits.capacityMilli +
          limits.refillMilliPerMs * timeCredited s.shared.ledger.intervals := by
  have hinv : BucketInv limits s := by
    refine h.invariant ?_ ?_
    · rintro s ⟨shared, rfl, rfl⟩
      exact bucketInv_initial limits
    · intro s a s' hs hfits hnext
      exact bucketInv_step hs hfits hnext
  refine ⟨hinv.balance, ?_, ?_, ?_⟩
  · intro i tokens now current hp
    obtain ⟨hneed, hfits⟩ := hinv.thread i _ hp
    exact Nat.mod_eq_of_lt hfits ▸ hneed
  · intro t
    have hcount := hinv.intervals.countP_credits t
    split at hcount <;> omega
  · have hflow := hinv.flow
    rw [hinv.intervals.timeCredited]
    omega

end

/-- Two tokens, one more each millisecond. -/
def raceLimits : Limits := .new 2 1000

/-- Two consumers and a drain at the first millisecond. The refill's two
halves are apart, and an exchange fails for no reason and one for another
thread's. -/
def raceTrace : List (Label (Fin 3) Call Bool) :=
  [.invoke 0 (.tryConsume 1 1), .step 0 false, .step 0 false, .invoke 1 (.tryConsume 2 1),
    .step 1 false, .step 1 false, .step 1 true, .step 1 false, .step 0 false, .step 0 false,
    .invoke 2 (.debitSaturating 1 1), .step 2 false, .step 2 false, .step 0 false, .step 2 false,
    .step 0 false]

instance : DecidablePred Fits := fun call =>
  match call with
  | .tryConsume tokens _ => inferInstanceAs (Decidable (tokens * 1000 < 2 ^ 64))
  | .refill _ | .debitSaturating _ _ => isTrue trivial

instance {ι : Type} (s : State ι Shared Pc) (a : Label ι Call Bool) :
    Decidable (NoOverflow s a) :=
  match a with
  | .invoke _ call =>
    decidable_of_iff (Fits call)
      ⟨fun h i c hc => by cases hc; exact h, fun h => h _ call rfl⟩
  | .step _ _ => isTrue fun _ _ h => by cases h

theorem conserved_race :
    ∃ s : State (Fin 3) Shared Pc,
      units s.shared.ledger.takes = 2000 ∧ s.shared.ledger.debited = 1000 ∧
        timeCredited s.shared.ledger.intervals = 1 ∧ s.shared.available ≤ 2000 ∧
        units s.shared.ledger.takes + s.shared.ledger.debited + s.shared.available ≤
          2000 + 1000 * 1 := by
  have hstart : ((machine raceLimits).system (· = Shared.new raceLimits)).init
      (Machine.initial (Shared.new raceLimits) : State (Fin 3) Shared Pc) := ⟨_, rfl, rfl⟩
  have hreach := Reach.of_trace NoOverflow (machine raceLimits).next hstart raceTrace (by decide)
    (by decide)
  obtain ⟨hbalance, -, -, hflow⟩ := conserved hreach
  exact ⟨_, by decide, by decide, by decide, hbalance, hflow⟩

/-! ## What a window lets through -/

/-- The units taken by calls whose reading is in a window. -/
def taken (a b : Nat) (takes : List Take) : Nat :=
  units (takes.filter fun t => a ≤ t.now && t.now ≤ b)

/-- The units taken by calls whose reading is at least `a`. -/
def takenSince (a : Nat) (takes : List Take) : Nat := units (takes.filter fun t => a ≤ t.now)

theorem taken_le_takenSince (a b : Nat) (takes : List Take) :
    taken a b takes ≤ takenSince a takes := by
  induction takes with
  | nil => exact le_rfl
  | cons t rest ih =>
    unfold taken takenSince at ih ⊢
    by_cases ha : a ≤ t.now
    · by_cases hb : t.now ≤ b
      · simp only [List.filter_cons, ha, hb, decide_true, Bool.and_self, if_true]
        exact Nat.add_le_add_left ih t.units
      · simp only [List.filter_cons, ha, hb, decide_true, decide_false, Bool.and_false,
          Bool.false_eq_true, if_false, if_true]
        exact ih.trans (Nat.le_add_left _ t.units)
    · simp only [List.filter_cons, ha, decide_false, Bool.false_and, Bool.false_eq_true, if_false]
      exact ih

theorem takenSince_cons (a : Nat) (t : Take) (takes : List Take) :
    takenSince a (t :: takes) = (if a ≤ t.now then t.units else 0) + takenSince a takes := by
  unfold takenSince
  by_cases h : a ≤ t.now
  · simp only [List.filter_cons, h, decide_true, if_true]
    rfl
  · simp only [List.filter_cons, h, decide_false, Bool.false_eq_true, if_false, Nat.zero_add]

theorem takenSince_eq_zero {a : Nat} {takes : List Take} (h : ∀ t ∈ takes, t.now < a) :
    takenSince a takes = 0 := by
  induction takes with
  | nil => rfl
  | cons t rest ih =>
    have ht := h t List.mem_cons_self
    rw [takenSince_cons, if_neg (not_le.mpr ht), ih fun u hu => h u (List.mem_cons_of_mem _ hu)]

theorem taken_cons_of_notMem {a b : Nat} {t : Take} (h : ¬ (a ≤ t.now ∧ t.now ≤ b))
    (takes : List Take) : taken a b (t :: takes) = taken a b takes := by
  have hnot : (decide (a ≤ t.now) && decide (t.now ≤ b)) = false := by
    rw [← Bool.not_eq_true, Bool.and_eq_true, decide_eq_true_eq, decide_eq_true_eq]
    exact h
  unfold taken
  simp only [List.filter_cons, hnot, Bool.false_eq_true, if_false]

/-- Only a take changes the takes; it takes what it records. -/
theorem Effect.takes {s s' : Shared} {p : Pc} {out : Outcome Pc Ret} (h : Effect limits s p s' out)
    (hp : PcOk s p) (hfits : Fits p.call) :
    s'.ledger.takes = s.ledger.takes ∧ s.ledger.debited ≤ s'.ledger.debited ∨
      ∃ tokens now, p = .swap (.tryConsume tokens now) s.available ∧
        s'.ledger.takes = ⟨now, tokens * 1000⟩ :: s.ledger.takes ∧
        s'.lastRefillMs = s.lastRefillMs ∧ s'.available + tokens * 1000 = s.available ∧
        out.position = none := by
  cases h with
  | quiet | claim | deposit => exact Or.inl ⟨rfl, le_rfl⟩
  | drain => exact Or.inl ⟨rfl, Nat.le_add_right _ _⟩
  | take tokens now =>
    have hneed : wrappingMul tokens 1000 ≤ s.available := hp
    have hunits : wrappingMul tokens 1000 = tokens * 1000 := Nat.mod_eq_of_lt hfits
    refine Or.inr ⟨tokens, now, rfl, rfl, rfl, ?_, rfl⟩
    dsimp only
    omega

section
variable {ι : Type} [Fintype ι] [DecidableEq ι]

/-- A credit is claimed and not deposited. -/
def depositing : Option Pc → Bool
  | some (.loadForCredit _ _) | some (.swapCredit _ _ _) => true
  | _ => false

/-- The reading of the call that takes its units in a step. -/
def takesUnits (s : State ι Shared Pc) : Label ι Call Bool → Option Nat
  | .step i false =>
    match s.pc i with
    | some (.swap (.tryConsume _ now) current) =>
      if s.shared.available = current then some now else none
    | _ => none
  | _ => none

/-- Units are taken while no credit is on its way, and when the call's own
reading has been credited and no later one. -/
def Orderly (s : State ι Shared Pc) (a : Label ι Call Bool) : Prop :=
  NoOverflow s a ∧ ∀ now ∈ takesUnits s a,
    (∀ i, depositing (s.pc i) = false) ∧ s.shared.lastRefillMs = now

omit [DecidableEq ι] in
theorem onTheWay_eq_zero {s : State ι Shared Pc} (h : ∀ i, depositing (s.pc i) = false) :
    onTheWay limits s = 0 := by
  refine Finset.sum_eq_zero fun i _ => ?_
  have hnot := h i
  cases hp : s.pc i with
  | none => rfl
  | some p =>
    rw [hp] at hnot
    cases p with
    | loadForCredit | swapCredit => cases hnot
    | loadLast | swapLast | load | swap => rfl

/-- What a window has let through, and could with what is left. -/
structure WindowInv (limits : Limits) (s : State ι Shared Pc) : Prop where
  readings : ∀ t ∈ s.shared.ledger.takes, t.now ≤ s.shared.lastRefillMs
  since : ∀ a, takenSince a s.shared.ledger.takes = 0 ∨
    a ≤ s.shared.lastRefillMs ∧
      takenSince a s.shared.ledger.takes + s.shared.available + onTheWay limits s ≤
        limits.capacityMilli + limits.refillMilliPerMs * (s.shared.lastRefillMs - a)
  window : ∀ a b, taken a b s.shared.ledger.takes ≤
    limits.capacityMilli + limits.refillMilliPerMs * (b - a)

theorem windowInv_step {s s' : State ι Shared Pc} {a : Label ι Call Bool} (h : BucketInv limits s)
    (hw : WindowInv limits s) (hok : Orderly s a) (hnext : (machine limits).next s a = some s') :
    WindowInv limits s' := by
  rcases Machine.next_cases _ hnext with
    ⟨i, call, ha, hidle, rfl⟩ | ⟨i, choice, p, shared, out, ha, hp, hm, rfl⟩
  · have hheld := Machine.held_update (outstanding limits) s s.shared i (some (start call))
    rw [hidle] at hheld
    refine ⟨hw.readings, fun x => ?_, hw.window⟩
    rcases hw.since x with hzero | ⟨hle, hsum⟩
    · exact Or.inl hzero
    · refine Or.inr ⟨hle, ?_⟩
      have hsame : onTheWay limits ⟨s.shared, Function.update s.pc i (some (start call))⟩ =
          onTheWay limits s := hheld
      show _ + _ + onTheWay limits ⟨s.shared, Function.update s.pc i (some (start call))⟩ ≤ _
      rw [hsame]
      exact hsum
  · obtain ⟨hpc, hcall⟩ := h.thread i p hp
    have heffect := step_effect limits hm
    have hflow := heffect.flow hpc hcall
    have hmono := heffect.lastRefill_le hpc
    have hheld := held_step limits hp shared out
    rcases heffect.takes hpc hcall with
      ⟨htakes, hdebited⟩ | ⟨tokens, now, rfl, htakes, hlast, havail, hout⟩
    · rw [htakes] at hflow
      refine ⟨?_, fun x => ?_, ?_⟩
      · intro t ht
        dsimp only at ht ⊢
        exact (hw.readings t (htakes ▸ ht)).trans hmono
      · dsimp only
        rw [htakes]
        rcases hw.since x with hzero | ⟨hle, hsum⟩
        · exact Or.inl hzero
        · refine Or.inr ⟨hle.trans hmono, ?_⟩
          have hx := Nat.mul_le_mul_left limits.refillMilliPerMs hle
          have hm' := Nat.mul_le_mul_left limits.refillMilliPerMs hmono
          rw [Nat.mul_sub] at hsum ⊢
          omega
      · dsimp only
        rw [htakes]
        exact hw.window
    · have hchoice : choice = false := by
        cases choice with
        | false => rfl
        | true =>
          cases hm
          exact absurd (congrArg List.length htakes) (Nat.ne_of_lt (Nat.lt_succ_self _))
      have hreading : takesUnits s a = some now := by
        rw [ha, hchoice]
        unfold takesUnits
        dsimp only
        rw [hp]
        dsimp only
        rw [if_pos rfl]
      obtain ⟨hnone, hnow⟩ := hok.2 now hreading
      have hbefore : onTheWay limits s = 0 := onTheWay_eq_zero hnone
      have hafter : onTheWay limits ⟨shared, Function.update s.pc i out.position⟩ = 0 := by
        rw [hout] at hheld ⊢
        have hweight : Machine.weight (outstanding limits) (none : Option Pc) = 0 := rfl
        omega
      have hbalance := h.balance
      have hsince : ∀ x, takenSince x shared.ledger.takes = 0 ∨ x ≤ shared.lastRefillMs ∧
          takenSince x shared.ledger.takes + shared.available ≤
            limits.capacityMilli + limits.refillMilliPerMs * (shared.lastRefillMs - x) := by
        intro x
        rw [htakes, takenSince_cons, hlast]
        by_cases hx : x ≤ now
        · refine Or.inr ⟨hnow ▸ hx, ?_⟩
          rw [if_pos hx]
          dsimp only
          rcases hw.since x with hzero | ⟨_, hsum⟩
          · omega
          · omega
        · refine Or.inl ?_
          have hzero : takenSince x s.shared.ledger.takes = 0 := by
            refine takenSince_eq_zero fun t ht => ?_
            have := hw.readings t ht
            omega
          rw [if_neg hx, hzero]
      refine ⟨?_, ?_, fun x y => ?_⟩
      · intro t ht
        dsimp only at ht ⊢
        rw [htakes] at ht
        rw [hlast]
        rcases List.mem_cons.mp ht with rfl | ht
        · exact hnow.ge
        · exact hw.readings t ht
      · intro x
        rw [hafter]
        exact hsince x
      · dsimp only
        by_cases hin : x ≤ now ∧ now ≤ y
        · have hle := taken_le_takenSince x y shared.ledger.takes
          have hlast' : shared.lastRefillMs - x ≤ y - x := by omega
          have hrate := Nat.mul_le_mul_left limits.refillMilliPerMs hlast'
          rcases hsince x with hzero | ⟨_, hsum⟩
          · omega
          · omega
        · rw [htakes, taken_cons_of_notMem hin]
          exact hw.window x y

/-- While units are only taken with no credit on its way and by the reading
credited last, no window lets more than a full bucket and its refill
through. -/
theorem window_bound {s : State ι Shared Pc}
    (h : Reach ((machine limits).system (· = Shared.new limits)) Orderly s) (a b : Nat) :
    taken a b s.shared.ledger.takes ≤ limits.capacityMilli + limits.refillMilliPerMs * (b - a) := by
  have hinv : BucketInv limits s ∧ WindowInv limits s := by
    refine h.invariant (I := fun s => BucketInv limits s ∧ WindowInv limits s) ?_ ?_
    · rintro s ⟨shared, rfl, rfl⟩
      refine ⟨bucketInv_initial limits, ?_, fun x => Or.inl rfl, fun x y => Nat.zero_le _⟩
      intro t ht
      cases ht
    · intro s l s' hs hok hnext
      exact ⟨bucketInv_step hs.1 hok.1 hnext, windowInv_step hs.1 hs.2 hok hnext⟩
  exact hinv.2.window a b

end

instance {ι : Type} [Fintype ι] (s : State ι Shared Pc) (a : Label ι Call Bool) :
    Decidable (Orderly s a) :=
  inferInstanceAs (Decidable (_ ∧ ∀ now ∈ takesUnits s a, _))

/-- Ten tokens, one more each second. -/
def tenLimits : Limits := .new 10 1

/-- A full bucket at the start, and two units of three seconds' credit. -/
def orderlyTrace : List (Label Bool Call Bool) :=
  [.invoke false (.tryConsume 10 0), .invoke true (.tryConsume 2 3000), .step false false,
    .step false false, .step false false, .step true false, .step true false, .step true false,
    .step true false, .step true false, .step true false]

theorem window_bound_orderly :
    ∃ s : State Bool Shared Pc,
      taken 0 3000 s.shared.ledger.takes = 12000 ∧
        taken 0 3000 s.shared.ledger.takes ≤ 10000 + 1 * (3000 - 0) := by
  have hstart : ((machine tenLimits).system (· = Shared.new tenLimits)).init
      (Machine.initial (Shared.new tenLimits) : State Bool Shared Pc) := ⟨_, rfl, rfl⟩
  have hreach := Reach.of_trace Orderly (machine tenLimits).next hstart orderlyTrace (by decide)
    (by decide)
  exact ⟨_, by decide, window_bound hreach 0 3000⟩

/-- The clock readings of a run, as its calls begin. -/
def readings {ι : Type} : List (Label ι Call Bool) → List Nat
  | [] => []
  | .invoke _ call :: rest => call.now :: readings rest
  | .step _ _ :: rest => readings rest

def burstTrace : List (Label Bool Call Bool) :=
  [.invoke false (.tryConsume 10 10000), .step false false, .step false false,
    .invoke true (.tryConsume 10 10000), .step true false, .step true false, .step true false,
    .step false false, .step false false, .step false false, .step false false]

/-- **Two full buckets at one instant.** One call claims ten seconds' credit;
another finds the bucket full and drains it; the credit then fills it
again. -/
theorem late_deposit :
    ¬ ∀ (trace : List (Label Bool Call Bool)) (s : State Bool Shared Pc),
      (readings trace).Pairwise (· ≤ ·) →
      run (machine tenLimits).next (Machine.initial (Shared.new tenLimits)) trace = some s →
      ∀ a b, taken a b s.shared.ledger.takes ≤
        tenLimits.capacityMilli + tenLimits.refillMilliPerMs * (b - a) := by
  intro h
  have hbound := h burstTrace _ (by decide) (Option.some_get (by decide :
    (run (machine tenLimits).next (Machine.initial (Shared.new tenLimits))
      burstTrace).isSome)).symm 10000 10000
  exact absurd hbound (by decide)

end RapidRouter.Core.TokenBucket
