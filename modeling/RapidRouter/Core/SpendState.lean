import Mathlib.Tactic.Common
import Mathlib.Data.Nat.Bitwise
import RapidRouter.Lib.CasLoop

/-!
# `SpendState`: one key's spend, packed into one word

`router-core/src/vkey.rs` keeps a virtual key's spend for the current budget
period in a single `AtomicU64`, `(period << 40) | micro_usd`, so that rolling
over to a new period and debiting it are one compare-and-swap. `addNext` is
the body of that CAS loop (the word the loop tries to store, as a function of
the word it read), `current` the read side.

The loop itself is an instance of `CasLoop`: a debit is a thread, and
`addRace` is the transition system of any number of `add` calls on one
counter. Its linearisation (`CasLoop.word_eq_fold`) turns every interleaving
into the order in which the debits committed, and the rest of the file is
about such orders.

`spent_of_inOrder` is the accounting the counter promises: while debits
commit in the order of their periods, the word holds exactly the latest
period's debits, capped at forty bits. The order is what it rests on. The
loop replaces the word whenever the debit's period *differs* from the
stored one, without asking which is newer, so a debit of an earlier period
that commits late wipes the period that is running.
-/

namespace RapidRouter.Core

open Lts

/-! ## The packed word -/

/-- Width of the spend field, `SPEND_BITS`. -/
def spendBits : Nat := 40

/-- `SPEND_MASK`: forty bits of micro-USD. -/
def spendMask : Nat := (1 <<< spendBits) - 1

/-- `PERIOD_MASK`: twenty-four bits of period ordinal. -/
def periodMask : Nat := (1 <<< 24) - 1

/-- `u64::saturating_add`. -/
def saturatingAdd (a b : Nat) : Nat := min (a + b) (2 ^ 64 - 1)

/-- The word one pass of `SpendState::add`'s loop tries to store, given the
word it read. -/
def addNext (microUsd periodOrdinal current : Nat) : Nat :=
  let period := periodOrdinal &&& periodMask
  let p := current >>> spendBits
  let spent := current &&& spendMask
  let nextSpend :=
    if p = period then min (saturatingAdd spent microUsd) spendMask
    -- New period: the debit itself is the opening balance.
    else min microUsd spendMask
  (period <<< spendBits) ||| nextSpend

/-- `SpendState::current` on a loaded word. -/
def current (packed periodOrdinal : Nat) : Nat :=
  if packed >>> spendBits = periodOrdinal &&& periodMask then packed &&& spendMask else 0

/-- The period tag a period ordinal is stored under. -/
def tag (periodOrdinal : Nat) : Nat := periodOrdinal % 2 ^ 24

theorem and_periodMask (n : Nat) : n &&& periodMask = tag n :=
  Nat.and_two_pow_sub_one_eq_mod n 24

theorem and_spendMask (n : Nat) : n &&& spendMask = n % 2 ^ 40 :=
  Nat.and_two_pow_sub_one_eq_mod n 40

theorem shiftRight_spendBits (n : Nat) : n >>> spendBits = n / 2 ^ 40 :=
  Nat.shiftRight_eq_div_pow n 40

theorem spendMask_eq : spendMask = 2 ^ 40 - 1 := by decide

theorem tag_lt (n : Nat) : tag n < 2 ^ 24 := Nat.mod_lt _ (by decide)

/-- Packing is addition: the spend never reaches the period's bits. -/
theorem pack_eq {t x : Nat} (hx : x ≤ spendMask) :
    (t <<< spendBits) ||| x = t * 2 ^ 40 + x := by
  have hlt : x < 2 ^ spendBits := by
    have := spendMask_eq
    have : (2 : Nat) ^ spendBits = 2 ^ 40 := rfl
    omega
  rw [← Nat.shiftLeft_add_eq_or_of_lt hlt, Nat.shiftLeft_eq]
  rfl

theorem unpack_tag {t x : Nat} (hx : x ≤ spendMask) :
    ((t <<< spendBits) ||| x) >>> spendBits = t := by
  have h := spendMask_eq
  rw [pack_eq hx, shiftRight_spendBits]
  omega

theorem unpack_spent {t x : Nat} (hx : x ≤ spendMask) :
    ((t <<< spendBits) ||| x) &&& spendMask = x := by
  have h := spendMask_eq
  rw [pack_eq hx, and_spendMask]
  omega

/-- A pass packs the debit's tag with the capped sum of what the word read
under that tag and the debit. -/
theorem addNext_eq (m o w : Nat) :
    addNext m o w = (tag o <<< spendBits) ||| min (current w o + m) spendMask := by
  have h := spendMask_eq
  have hmask : w &&& spendMask ≤ spendMask := Nat.and_le_right
  show ((o &&& periodMask) <<< spendBits |||
    (if w >>> spendBits = o &&& periodMask
      then min (saturatingAdd (w &&& spendMask) m) spendMask else min m spendMask)) = _
  unfold current saturatingAdd
  rw [and_periodMask]
  split
  · congr 1
    omega
  · rw [Nat.zero_add]

/-- The word stays inside its 64 bits. -/
theorem addNext_lt (m o w : Nat) : addNext m o w < 2 ^ 64 := by
  have h := spendMask_eq
  have ht := tag_lt o
  rw [addNext_eq, pack_eq (Nat.min_le_right _ _)]
  omega

/-- After a pass, the word is tagged with the debit's period. -/
theorem addNext_tag (m o w : Nat) : addNext m o w >>> spendBits = tag o := by
  rw [addNext_eq, unpack_tag (Nat.min_le_right _ _)]

/-- After a pass, the spend is the old reading under the debit's period plus
the debit, capped. -/
theorem addNext_spent (m o w : Nat) :
    addNext m o w &&& spendMask = min (current w o + m) spendMask := by
  rw [addNext_eq, unpack_spent (Nat.min_le_right _ _)]

/-- Reading under the debited period returns the new spend; reading under a
period with another tag returns nothing. -/
theorem current_addNext (m o w q : Nat) :
    current (addNext m o w) q =
      if tag q = tag o then min (current w q + m) spendMask else 0 := by
  have htag := addNext_tag m o w
  by_cases hq : tag q = tag o
  · rw [if_pos hq]
    have hcur : current w q = current w o := by
      unfold current
      rw [and_periodMask, and_periodMask, hq]
    rw [hcur, ← addNext_spent]
    conv => lhs; unfold current
    rw [htag, and_periodMask, hq, if_pos rfl]
  · rw [if_neg hq]
    unfold current
    rw [htag, and_periodMask, if_neg (fun he => hq he.symm)]

theorem current_zero (q : Nat) : current 0 q = 0 := by
  unfold current
  split <;> simp

/-! ## Debits in the order they take effect -/

/-- The arguments of one `SpendState::add` call. -/
structure Debit where
  microUsd : Nat
  periodOrdinal : Nat
  deriving DecidableEq, Repr

/-- The counter after a sequence of debits on a fresh `SpendState`. -/
def addAll (log : List Debit) : Nat :=
  log.foldl (fun w d => addNext d.microUsd d.periodOrdinal w) 0

@[simp] theorem addAll_nil : addAll [] = 0 := rfl

@[simp] theorem addAll_concat (log : List Debit) (d : Debit) :
    addAll (log ++ [d]) = addNext d.microUsd d.periodOrdinal (addAll log) := by
  simp [addAll, List.foldl_append]

/-- What the period `p` was debited, over the whole log. -/
def debited (log : List Debit) (p : Nat) : Nat :=
  ((log.filter (·.periodOrdinal = p)).map (·.microUsd)).sum

@[simp] theorem debited_nil (p : Nat) : debited [] p = 0 := rfl

@[simp] theorem debited_concat (log : List Debit) (d : Debit) (p : Nat) :
    debited (log ++ [d]) p =
      debited log p + (if d.periodOrdinal = p then d.microUsd else 0) := by
  unfold debited
  by_cases h : d.periodOrdinal = p <;> simp [List.filter_append, h]

/-- A period nobody debited has been debited nothing. -/
theorem debited_eq_zero {log : List Debit} {p : Nat}
    (h : ∀ d ∈ log, d.periodOrdinal ≠ p) : debited log p = 0 := by
  unfold debited
  rw [List.filter_eq_nil_iff.mpr (fun d hd => by simpa using h d hd)]
  rfl

/-- The latest period that has been debited. -/
def LatestPeriod (log : List Debit) (p : Nat) : Prop :=
  (∃ d ∈ log, d.periodOrdinal = p) ∧ ∀ d ∈ log, d.periodOrdinal ≤ p

/-- The accounting the counter promises: for the latest period debited, the
reading is that period's debits, up to the cap. -/
def ExactSpend (log : List Debit) (packed : Nat) : Prop :=
  ∀ p, LatestPeriod log p → current packed p = min (debited log p) spendMask

/-- A debit arrives in order: no period newer than its own has been debited,
and none so old (2^24 periods) that its tag is this one's again. -/
def ArrivesInOrder (log : List Debit) (d : Debit) : Prop :=
  ∀ e ∈ log, e.periodOrdinal ≤ d.periodOrdinal ∧ d.periodOrdinal < e.periodOrdinal + 2 ^ 24

/-- What an in-order log leaves in the word: the last debit's period, and
nothing of any other period. -/
structure Holds (log : List Debit) (packed : Nat) : Prop where
  fresh : log = [] → packed = 0
  reading : ∀ d ∈ log, (∀ e ∈ log, e.periodOrdinal ≤ d.periodOrdinal) →
    current packed d.periodOrdinal = min (debited log d.periodOrdinal) spendMask
  stale : ∀ p, (∀ e ∈ log, e.periodOrdinal < p ∧ p < e.periodOrdinal + 2 ^ 24) →
    current packed p = 0

/-- One in-order debit keeps the word exact. -/
theorem holds_concat {log : List Debit} {packed : Nat} {d : Debit}
    (h : Holds log packed) (hd : ArrivesInOrder log d) :
    Holds (log ++ [d]) (addNext d.microUsd d.periodOrdinal packed) := by
  -- Reading the new debit's period before the debit: either it is the period
  -- the word is in, or no debit of it exists yet and the word is stale for it.
  have hbefore : current packed d.periodOrdinal
      = min (debited log d.periodOrdinal) spendMask := by
    by_cases hex : ∃ e ∈ log, e.periodOrdinal = d.periodOrdinal
    · obtain ⟨e, he, heq⟩ := hex
      rw [← heq]
      exact h.reading e he (fun x hx => heq ▸ (hd x hx).1)
    · have hne : ∀ e ∈ log, e.periodOrdinal ≠ d.periodOrdinal :=
        fun e he heq => hex ⟨e, he, heq⟩
      rw [debited_eq_zero hne, Nat.zero_min]
      exact h.stale _ (fun e he => ⟨lt_of_le_of_ne (hd e he).1 (hne e he), (hd e he).2⟩)
  refine ⟨fun hnil => by simp at hnil, ?_, ?_⟩
  · intro e he hmax
    have hle : d.periodOrdinal ≤ e.periodOrdinal := hmax d (by simp)
    have hge : e.periodOrdinal ≤ d.periodOrdinal := by
      rcases List.mem_append.mp he with hin | hin
      · exact (hd e hin).1
      · rw [List.mem_singleton.mp hin]
    have heq : e.periodOrdinal = d.periodOrdinal := Nat.le_antisymm hge hle
    rw [heq, current_addNext, if_pos rfl, hbefore, debited_concat, if_pos rfl]
    omega
  · intro p hp
    have hpd := hp d (by simp)
    have hne : tag p ≠ tag d.periodOrdinal := by
      unfold tag
      omega
    rw [current_addNext, if_neg hne]

/-- The empty log and the fresh counter. -/
theorem holds_nil : Holds [] 0 :=
  ⟨fun _ => rfl, fun d hd => by simp at hd, fun p _ => current_zero p⟩

/-- A counter that `Holds` its log reads exactly. -/
theorem Holds.exact {log : List Debit} {packed : Nat} (h : Holds log packed) :
    ExactSpend log packed := by
  rintro p ⟨⟨d, hd, rfl⟩, hmax⟩
  exact h.reading d hd hmax

/-! ## Racing `add` calls -/

section
variable {ι : Type*} [DecidableEq ι]

/-- Any number of `SpendState::add` calls racing on one fresh counter: call
`i` debits `calls i`. -/
def addRace (calls : ι → Debit) : System (CasLoop.State ι Nat) (CasLoop.Act ι) :=
  CasLoop.system (fun i => addNext (calls i).microUsd (calls i).periodOrdinal) 0

/-- The debits that have taken effect, in the order they did. -/
def landed (calls : ι → Debit) (s : CasLoop.State ι Nat) : List Debit := s.commits.map calls

/-- The guard under which the counter is exact: an exchange commits only a
debit that arrives in order. -/
def commitsInOrder (calls : ι → Debit) (s : CasLoop.State ι Nat) : CasLoop.Act ι → Prop
  | .exchange i => ArrivesInOrder (landed calls s) (calls i)
  | _ => True

/-- One guarded atomic step keeps the counter and its log in agreement. -/
theorem holds_step {calls : ι → Debit} {s s' : CasLoop.State ι Nat} {a : CasLoop.Act ι}
    (h : Holds (landed calls s) s.word) (hok : commitsInOrder calls s a)
    (hs : (addRace calls).step s a s') : Holds (landed calls s') s'.word := by
  rcases CasLoop.next_cases hs with ⟨i, w, _, _, rfl⟩ | ⟨i, rfl, _, rfl⟩
  · exact h
  · have hland : landed calls ⟨addNext (calls i).microUsd (calls i).periodOrdinal s.word,
        Function.update s.pc i .done, s.commits ++ [i]⟩ = landed calls s ++ [calls i] := by
      simp [landed]
    rw [hland]
    exact holds_concat h hok

/-- **No debit lost, none counted twice, none of another period mixed in**, in
every state of every interleaving in which debits commit in the order of
their periods: the log holds each finished call once, and the word reads what
the log says. -/
theorem spent_of_inOrder (calls : ι → Debit) {s : CasLoop.State ι Nat}
    (h : Reach (addRace calls) (commitsInOrder calls) s) :
    s.commits.Nodup ∧ (∀ i, i ∈ s.commits ↔ s.pc i = .done) ∧
      ExactSpend (landed calls s) s.word := by
  have hinv : Holds (landed calls s) s.word := by
    refine h.invariant (I := fun s => Holds (landed calls s) s.word) ?_ ?_
    · intro s hs
      rw [show s = CasLoop.start 0 from hs]
      exact holds_nil
    · intro s a s' hI hok hs
      exact holds_step hI hok hs
  exact ⟨CasLoop.commits_nodup h, CasLoop.mem_commits_iff h, hinv.exact⟩

end

instance (log : List Debit) (d : Debit) : Decidable (ArrivesInOrder log d) :=
  inferInstanceAs (Decidable (∀ e ∈ log, _ ∧ _))

instance {ι : Type*} (calls : ι → Debit) (s : CasLoop.State ι Nat) (a : CasLoop.Act ι) :
    Decidable (commitsInOrder calls s a) :=
  match a with
  | .load _ => isTrue trivial
  | .retry _ => isTrue trivial
  | .exchange i => inferInstanceAs (Decidable (ArrivesInOrder _ (calls i)))

/-- A debit of period 1, then two debits of period 2 racing over the
rollover, the loser of the race going round once. -/
def rolloverCalls : Fin 3 → Debit
  | 0 => ⟨100, 1⟩
  | 1 => ⟨40, 2⟩
  | 2 => ⟨60, 2⟩

/-- The interleaving: both racers read the word period 1 left. -/
def rolloverTrace : List (CasLoop.Act (Fin 3)) :=
  [.load 0, .exchange 0, .load 1, .load 2, .exchange 2, .retry 1, .exchange 1]

theorem spent_of_inOrder_rollover :
    ∃ s, Reach (addRace rolloverCalls) (commitsInOrder rolloverCalls) s ∧
      landed rolloverCalls s = [⟨100, 1⟩, ⟨60, 2⟩, ⟨40, 2⟩] ∧
      current s.word 2 = 100 := by
  have hstart : (addRace rolloverCalls).init (CasLoop.start 0) := rfl
  have hreach := Reach.of_trace (commitsInOrder rolloverCalls)
    (CasLoop.next fun i => addNext (rolloverCalls i).microUsd (rolloverCalls i).periodOrdinal)
    hstart rolloverTrace (by decide) (by decide)
  have hland : landed rolloverCalls (Option.get _ (by decide :
      (run (CasLoop.next fun i => addNext (rolloverCalls i).microUsd (rolloverCalls i).periodOrdinal)
        (CasLoop.start 0) rolloverTrace).isSome)) = [⟨100, 1⟩, ⟨60, 2⟩, ⟨40, 2⟩] := by decide
  refine ⟨_, hreach, hland, ?_⟩
  have hlatest : LatestPeriod [⟨100, 1⟩, ⟨60, 2⟩, ⟨40, 2⟩] 2 := by
    refine ⟨⟨⟨60, 2⟩, by simp, rfl⟩, ?_⟩
    decide
  obtain ⟨_, _, hexact⟩ := spent_of_inOrder rolloverCalls hreach
  rw [hland] at hexact
  exact hexact 2 hlatest

/-- A completion that read its ordinal just before the period rolled over
(period 1) and adds just after another one opened period 2. -/
def lateCalls : Bool → Debit
  | true => ⟨100, 2⟩
  | false => ⟨5, 1⟩

/-- **A late debit wipes the running period.** After both adds, period 2 has
been debited 100 and reads 0. -/
theorem late_debit_wipes_period :
    ¬ ∀ s, Reach (addRace lateCalls) free s → ExactSpend (landed lateCalls s) s.word := by
  intro h
  have hstart : (addRace lateCalls).init (CasLoop.start 0) := rfl
  have hreach := Reach.of_trace free
    (CasLoop.next fun i => addNext (lateCalls i).microUsd (lateCalls i).periodOrdinal)
    hstart [.load true, .exchange true, .load false, .exchange false] (by decide) (by decide)
  have hread := h _ hreach 2 ⟨⟨⟨100, 2⟩, by decide, rfl⟩, by decide⟩
  exact absurd hread (by decide)

end RapidRouter.Core
