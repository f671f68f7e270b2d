import RapidRouter.Core.SpendState
import RapidRouter.Core.VKey
import RapidRouter.Lib.Civil

/-!
# A key's budget over edits and restarts

The spend of one virtual key as `router-core/src/vkey.rs` counts it and
`router-server/src/usage.rs` reads it back from disk. The counter is carried
from one definition of the key to the next, and what it holds is tagged with a
period's ordinal alone: daily, weekly and monthly ordinals are different
numbers for one moment, so a definition with another kind of period does not
find what was counted before it (`edit_grants_fresh_budget`), and a request
admitted under the old kind wipes what the new one has counted.

`spend_exact` is the accounting over whole runs in which this does not happen
(`Undisturbed`). The counter accounts for one period at a time; which one is
kept as the ghost `counted`.
-/

namespace RapidRouter.Usage.Budget

open Civil RapidRouter.Core Lts

/-! ## Periods -/

/-- `period_ordinal`. -/
def periodOrdinal (period : BudgetPeriod) (unixMs : Nat) : Nat :=
  match period with
  | .daily => dayOf unixMs
  | .weekly => dayOf unixMs / 7
  | .monthly => Civil.month (dayOf unixMs)

/-- The period a definition counts by: monthly, when it has no budget. -/
def periodOf (d : VirtualKeyDef) : BudgetPeriod := (d.budget.map (·.period)).getD .monthly

/-- `VkRuntime::period_ordinal`. -/
def ordinalOf (d : VirtualKeyDef) (unixMs : Nat) : Nat := periodOrdinal (periodOf d) unixMs

theorem periodOrdinal_mono (period : BudgetPeriod) {a b : Nat} (h : a ≤ b) :
    periodOrdinal period a ≤ periodOrdinal period b := by
  have hday : dayOf a ≤ dayOf b := Nat.div_le_div_right h
  cases period with
  | daily => exact hday
  | weekly => exact Nat.div_le_div_right hday
  | monthly => exact Civil.month_mono hday

theorem periodOf_some {d : VirtualKeyDef} {b : Budget} (h : d.budget = some b) :
    periodOf d = b.period := by
  unfold periodOf
  rw [h]
  rfl

/-! ## The counter -/

/-- A budget in micro-USD, as the comparison takes it. -/
def limitMicro (budget : Budget) : Nat := min (max (budget.usd * 1000000) 0).floor.toNat (2 ^ 64 - 1)

/-- `budget_exhausted`, of a loaded counter. -/
def budgetExhausted (d : VirtualKeyDef) (packed ordinal : Nat) : Bool :=
  match d.budget with
  | none => false
  | some budget => limitMicro budget ≤ current packed ordinal

/-- `debit_usage`, as far as the spend goes. -/
def debitUsage (packed microUsd ordinal : Nat) : Nat :=
  if 0 < microUsd then addNext microUsd ordinal packed else packed

/-- The part of a `UsageRecord` that spend is read back from. -/
structure UsageRecord where
  ts : Nat
  vkey : Option String
  costMicroUsd : Nat
  deriving DecidableEq

/-- The costs of some of a key's records. -/
def spend (records : List UsageRecord) (keyId : String) (inPeriod : Nat → Bool) : Nat :=
  ((records.filter fun r => r.vkey = some keyId && inPeriod r.ts).map (·.costMicroUsd)).sum

/-- `scan_period_spend`. -/
def scanPeriodSpend (disk : List UsageRecord) (keyId : String) (inPeriod : Nat → Bool) : Nat :=
  spend disk keyId inPeriod % 2 ^ 64

/-- `seed_budgets`: the counter a process starts with. -/
def seedBudget (d : VirtualKeyDef) (disk : List UsageRecord) (now : Nat) : Nat :=
  if d.budget.isNone then 0
  else
    let ordinal := ordinalOf d now
    let spent := scanPeriodSpend disk d.id fun ts => ordinalOf d ts = ordinal
    if 0 < spent then addNext spent ordinal 0 else 0

/-- `prune_partitions`: days before the cutoff are removed. -/
def prunePartitions (disk : List UsageRecord) (retentionDays now : Nat) : List UsageRecord :=
  disk.filter fun r => dayOf (now - retentionDays * dayMs) ≤ dayOf r.ts

/-! ## Runs -/

structure State where
  now : Nat
  packed : Nat
  /-- The definition in the table, and those before it since the process
  started, which requests in flight may still hold. -/
  defn : VirtualKeyDef
  older : List VirtualKeyDef
  disk : List UsageRecord
  /-- Ghosts: all the node ever recorded, and the period the counter accounts
  for, when it does account for one. -/
  ledger : List UsageRecord
  counted : Option (BudgetPeriod × Nat)

inductive Act where
  | tick (now : Nat)
  /-- A request of the key completes; it was admitted under `held`. -/
  | complete (held : VirtualKeyDef) (costMicroUsd : Nat)
  /-- Any other request. -/
  | other (vkey : Option String) (costMicroUsd : Nat)
  | rebuild (d : VirtualKeyDef)
  | prune (retentionDays : Nat)
  | restart (d : VirtualKeyDef)

/-- What the key's requests of one period cost. -/
def recorded (s : State) (period : BudgetPeriod) (ordinal : Nat) : Nat :=
  spend s.ledger s.defn.id fun ts => periodOrdinal period ts = ordinal

/-- Nothing of a period was spent, and the counter has nothing for it. -/
def Unspent (s : State) (period : BudgetPeriod) (ordinal : Nat) : Prop :=
  recorded s period ordinal = 0 ∧ current s.packed ordinal = 0

instance (s : State) (period : BudgetPeriod) (ordinal : Nat) : Decidable (Unspent s period ordinal) :=
  inferInstanceAs (Decidable (_ ∧ _))

/-- The period accounted for after a costly request counted by `period`. -/
def countedAfter (s : State) (period : BudgetPeriod) : Option (BudgetPeriod × Nat) :=
  let ordinal := periodOrdinal period s.now
  if s.defn.budget.map (·.period) = some period ∨ s.counted = some (period, ordinal) ∨
      Unspent s period ordinal then some (period, ordinal)
  else none

def State.record (s : State) (r : UsageRecord) : State :=
  { s with disk := s.disk ++ [r], ledger := s.ledger ++ [r] }

def next (s : State) : Act → Option State
  | .tick now => some { s with now := now }
  | .complete held cost =>
    if held ∈ s.defn :: s.older then
      some ({ s with
        packed := debitUsage s.packed cost (ordinalOf held s.now)
        counted := if 0 < cost then countedAfter s (periodOf held) else s.counted }.record
          ⟨s.now, some s.defn.id, cost⟩)
    else none
  | .other vkey cost =>
    if vkey = some s.defn.id then none else some (s.record ⟨s.now, vkey, cost⟩)
  | .rebuild d =>
    if d.id = s.defn.id then some { s with defn := d, older := s.defn :: s.older } else none
  | .prune retentionDays => some { s with disk := prunePartitions s.disk retentionDays s.now }
  | .restart d =>
    if d.id = s.defn.id then
      some { s with
        defn := d
        older := []
        packed := seedBudget d s.disk s.now
        counted := d.budget.map fun b => (b.period, periodOrdinal b.period s.now) }
    else none

/-- A node that has served nothing yet. -/
def Starts (s : State) : Prop :=
  s.packed = 0 ∧ s.older = [] ∧ s.disk = [] ∧ s.ledger = [] ∧ s.counted = none

def runs : System State Act := ofNext Starts next

/-- What `budget_exhausted` compares is what the key's requests of the period
that is running cost, up to the cap. -/
def Exact (s : State) : Prop :=
  ∀ b, s.defn.budget = some b → current s.packed (ordinalOf s.defn s.now) =
    min spendMask (recorded s b.period (periodOrdinal b.period s.now))

/-! ## When nothing disturbs the count -/

/-- A step the count survives: the clock does not go back, nor into a period
whose ordinal is still in the counter; a request that costs something was
admitted under the kind of period the budget has now; an edit keeps the kind
of period, or goes to one the counter accounts for, or to one nothing was
spent of; at a restart, all that was spent of the running period is still on
disk. -/
def Undisturbed (s : State) : Act → Prop
  | .tick now => s.now ≤ now ∧ ∀ b ∈ s.defn.budget,
      periodOrdinal b.period s.now = periodOrdinal b.period now ∨
        current s.packed (periodOrdinal b.period now) = 0
  | .complete held cost => cost = 0 ∨ ∀ b ∈ s.defn.budget, periodOf held = b.period
  | .other _ _ => True
  | .rebuild d => ∀ b ∈ d.budget, s.defn.budget.map (·.period) = some b.period ∨
      s.counted = some (b.period, periodOrdinal b.period s.now) ∨
      Unspent s b.period (periodOrdinal b.period s.now)
  | .prune _ => True
  | .restart d => ∀ b ∈ d.budget,
      (∀ r ∈ s.ledger, r.vkey = some s.defn.id → 0 < r.costMicroUsd →
        periodOrdinal b.period r.ts = periodOrdinal b.period s.now → r ∈ s.disk) ∧
      recorded s b.period (periodOrdinal b.period s.now) < 2 ^ 64

theorem spend_append (a b : List UsageRecord) (keyId : String) (inPeriod : Nat → Bool) :
    spend (a ++ b) keyId inPeriod = spend a keyId inPeriod + spend b keyId inPeriod := by
  unfold spend
  rw [List.filter_append, List.map_append, List.sum_append]

theorem spend_singleton (r : UsageRecord) (keyId : String) (inPeriod : Nat → Bool) :
    spend [r] keyId inPeriod =
      if r.vkey = some keyId ∧ inPeriod r.ts = true then r.costMicroUsd else 0 := by
  unfold spend
  rw [List.filter_singleton]
  by_cases h : r.vkey = some keyId ∧ inPeriod r.ts = true
  · rw [if_pos h]
    simp [h.1, h.2]
  · rw [if_neg h]
    by_cases hkey : r.vkey = some keyId <;> by_cases hin : inPeriod r.ts = true
    · exact absurd ⟨hkey, hin⟩ h
    · simp [hin]
    · simp [hkey]
    · simp [hkey]

theorem spend_eq_zero {records : List UsageRecord} {keyId : String} {inPeriod : Nat → Bool}
    (h : ∀ r ∈ records, inPeriod r.ts = false) : spend records keyId inPeriod = 0 := by
  unfold spend
  rw [List.filter_eq_nil_iff.mpr]
  · rfl
  · intro r hr
    rw [h r hr, Bool.and_false]
    decide

/-- Records that cost nothing, or are out of the period, may be missing. -/
theorem spend_filter {records : List UsageRecord} {keyId : String} {inPeriod : Nat → Bool}
    {p : UsageRecord → Bool} (h : ∀ r ∈ records, r.vkey = some keyId → 0 < r.costMicroUsd →
      inPeriod r.ts = true → p r = true) :
    spend (records.filter p) keyId inPeriod = spend records keyId inPeriod := by
  induction records with
  | nil => rfl
  | cons r rest ih =>
    have hrest := ih fun x hx => h x (List.mem_cons_of_mem _ hx)
    rw [List.filter_cons]
    have hcons : spend (r :: rest) keyId inPeriod =
        spend [r] keyId inPeriod + spend rest keyId inPeriod := spend_append [r] rest keyId inPeriod
    split
    · next hp =>
      have hkept : spend (r :: rest.filter p) keyId inPeriod =
          spend [r] keyId inPeriod + spend (rest.filter p) keyId inPeriod :=
        spend_append [r] _ keyId inPeriod
      rw [hcons, hkept, hrest]
    · next hp =>
      have hzero : spend [r] keyId inPeriod = 0 := by
        rw [spend_singleton]
        split
        · next hin =>
          by_contra hcost
          exact hp (h r List.mem_cons_self hin.1 (Nat.pos_of_ne_zero hcost) hin.2)
        · rfl
      rw [hcons, hrest, hzero, Nat.zero_add]

/-! ## The invariant -/

structure Inv (s : State) : Prop where
  clock : ∀ r ∈ s.ledger, r.ts ≤ s.now
  /-- Whole days are on disk, or gone. -/
  disk : ∃ cutoff, cutoff ≤ dayOf s.now ∧ s.disk = s.ledger.filter fun r => cutoff ≤ dayOf r.ts
  counted : ∀ period ordinal, s.counted = some (period, ordinal) →
    current s.packed ordinal = min spendMask (recorded s period ordinal)
  exact : Exact s

theorem Exact.iff (s : State) : Exact s ↔ ∀ b, s.defn.budget = some b →
    current s.packed (periodOrdinal b.period s.now) =
      min spendMask (recorded s b.period (periodOrdinal b.period s.now)) := by
  refine forall₂_congr fun b hb => ?_
  unfold ordinalOf
  rw [periodOf_some hb]

theorem inv_start {s : State} (h : Starts s) : Inv s := by
  obtain ⟨hpacked, -, hdisk, hledger, hcounted⟩ := h
  have hnothing : ∀ period ordinal, recorded s period ordinal = 0 := by
    intro period ordinal
    unfold recorded
    rw [hledger]
    rfl
  refine ⟨?_, ⟨0, Nat.zero_le _, ?_⟩, ?_, ?_⟩
  · intro r hr
    rw [hledger] at hr
    cases hr
  · rw [hdisk, hledger]
    rfl
  · intro period ordinal h
    rw [hcounted] at h
    cases h
  · rw [Exact.iff]
    intro b _
    rw [hnothing, hpacked, current_zero, Nat.min_zero]

/-- A record is written to the disk of its day, which is never before the
cutoff. -/
theorem disk_record {s : State} {r : UsageRecord} (hr : r.ts = s.now)
    (h : ∃ cutoff, cutoff ≤ dayOf s.now ∧ s.disk = s.ledger.filter fun r => cutoff ≤ dayOf r.ts) :
    ∃ cutoff, cutoff ≤ dayOf s.now ∧
      s.disk ++ [r] = (s.ledger ++ [r]).filter fun r => cutoff ≤ dayOf r.ts := by
  obtain ⟨cutoff, hle, heq⟩ := h
  refine ⟨cutoff, hle, ?_⟩
  rw [heq, List.filter_append, List.filter_singleton]
  simp [hr, hle]

theorem recorded_record (s : State) (r : UsageRecord) (period : BudgetPeriod) (ordinal : Nat) :
    recorded (s.record r) period ordinal = recorded s period ordinal +
      if r.vkey = some s.defn.id ∧ periodOrdinal period r.ts = ordinal then r.costMicroUsd else 0 := by
  unfold recorded State.record
  dsimp only
  rw [spend_append, spend_singleton]
  simp only [decide_eq_true_eq]

theorem min_debit (a m : Nat) :
    min (min spendMask a + m) spendMask = min spendMask (a + m) := by omega

/-- The counter reads a period right. -/
def Reads (s : State) (period : BudgetPeriod) (ordinal : Nat) : Prop :=
  current s.packed ordinal = min spendMask (recorded s period ordinal)

theorem Unspent.reads {s : State} {period : BudgetPeriod} {ordinal : Nat}
    (h : Unspent s period ordinal) : Reads s period ordinal := by
  unfold Reads
  rw [h.1, h.2, Nat.min_zero]

/-- Where the ghost after a costly request names a period, the counter read it
right before. -/
theorem Inv.reads_of_countedAfter {s : State} (h : Inv s) {period p : BudgetPeriod} {o : Nat}
    (hafter : countedAfter s period = some (p, o)) :
    p = period ∧ o = periodOrdinal period s.now ∧ Reads s p o := by
  unfold countedAfter at hafter
  dsimp only at hafter
  split at hafter
  · next hwhy =>
    obtain ⟨rfl, rfl⟩ := Prod.mk.inj (Option.some.inj hafter)
    refine ⟨rfl, rfl, ?_⟩
    obtain hbudget | hcounted | hunspent := hwhy
    · obtain ⟨b, hb, hperiod⟩ := Option.map_eq_some_iff.mp hbudget
      have hexact := (Exact.iff s).mp h.exact b hb
      rw [hperiod] at hexact
      exact hexact
    · exact h.counted _ _ hcounted
    · exact hunspent.reads
  · cases hafter

/-- A clock that goes on enters a period nothing was spent of yet. -/
theorem recorded_future {s : State} (h : Inv s) {period : BudgetPeriod} {now : Nat}
    (hle : s.now ≤ now) (hne : periodOrdinal period s.now ≠ periodOrdinal period now) :
    recorded s period (periodOrdinal period now) = 0 := by
  unfold recorded
  refine spend_eq_zero fun r hr => ?_
  have hts := periodOrdinal_mono period (h.clock r hr)
  have hnow := periodOrdinal_mono period hle
  rw [decide_eq_false_iff_not]
  omega

theorem inv_tick {s : State} (h : Inv s) {now : Nat} (hok : Undisturbed s (.tick now)) :
    Inv { s with now := now } := by
  obtain ⟨hle, hperiod⟩ := hok
  obtain ⟨cutoff, hcutoff, hdisk⟩ := h.disk
  refine ⟨fun r hr => Nat.le_trans (h.clock r hr) hle,
    ⟨cutoff, Nat.le_trans hcutoff (dayOf_mono hle), hdisk⟩, h.counted, ?_⟩
  rw [Exact.iff]
  intro b hb
  show Reads s b.period (periodOrdinal b.period now)
  by_cases hsame : periodOrdinal b.period s.now = periodOrdinal b.period now
  · rw [← hsame]
    exact (Exact.iff s).mp h.exact b hb
  · have hcurrent := (hperiod b hb).resolve_left hsame
    have hzero := recorded_future h hle hsame
    unfold Reads
    rw [hcurrent, hzero, Nat.min_zero]

/-- A request of this key, after its debit and its record. -/
def State.completed (s : State) (held : VirtualKeyDef) (cost : Nat) : State :=
  { s with
    packed := debitUsage s.packed cost (ordinalOf held s.now)
    counted := if 0 < cost then countedAfter s (periodOf held) else s.counted }.record
      ⟨s.now, some s.defn.id, cost⟩

theorem recorded_completed (s : State) (held : VirtualKeyDef) (cost : Nat) (period : BudgetPeriod)
    (ordinal : Nat) : recorded (s.completed held cost) period ordinal = recorded s period ordinal +
      if periodOrdinal period s.now = ordinal then cost else 0 := by
  unfold State.completed
  rw [recorded_record]
  simp only [true_and]
  rfl

/-- The debit of a request under the running period keeps the reading right. -/
theorem Reads.completed {s : State} {held : VirtualKeyDef} {cost : Nat}
    (h : Reads s (periodOf held) (periodOrdinal (periodOf held) s.now)) (hcost : 0 < cost) :
    Reads (s.completed held cost) (periodOf held) (periodOrdinal (periodOf held) s.now) := by
  unfold Reads at h ⊢
  have hpacked : (s.completed held cost).packed =
      addNext cost (periodOrdinal (periodOf held) s.now) s.packed := if_pos hcost
  rw [hpacked, current_addNext, if_pos rfl, h, min_debit, recorded_completed, if_pos rfl]

/-- One that costs nothing changes no reading. -/
theorem Reads.completed_free {s : State} {held : VirtualKeyDef} {period : BudgetPeriod} {o : Nat}
    (h : Reads s period o) : Reads (s.completed held 0) period o := by
  unfold Reads at h ⊢
  rw [recorded_completed, ite_self, Nat.add_zero]
  exact h

theorem inv_complete {s : State} (h : Inv s) {held : VirtualKeyDef} {cost : Nat}
    (hok : Undisturbed s (.complete held cost)) : Inv (s.completed held cost) := by
  refine ⟨?_, disk_record rfl h.disk, ?_, ?_⟩
  · intro r hr
    rcases List.mem_append.mp hr with hold | hnew
    · exact h.clock r hold
    · rw [List.mem_singleton.mp hnew]
      exact Nat.le_refl _
  · intro p o hcounted
    by_cases hcost : 0 < cost
    · have hafter : countedAfter s (periodOf held) = some (p, o) := by
        rw [← hcounted]
        exact (if_pos hcost).symm
      obtain ⟨rfl, rfl, hreads⟩ := h.reads_of_countedAfter hafter
      exact hreads.completed hcost
    · have hfree : cost = 0 := by omega
      subst hfree
      exact Reads.completed_free (h.counted p o hcounted)
  · rw [Exact.iff]
    intro b hb
    have hreads : Reads s b.period (periodOrdinal b.period s.now) :=
      (Exact.iff s).mp h.exact b hb
    by_cases hfree : cost = 0
    · subst hfree
      exact hreads.completed_free
    · have hheld : periodOf held = b.period := hok.resolve_left hfree b hb
      rw [← hheld] at hreads ⊢
      exact hreads.completed (Nat.pos_of_ne_zero hfree)

theorem inv_other {s : State} (h : Inv s) {vkey : Option String} {cost : Nat}
    (hother : vkey ≠ some s.defn.id) : Inv (s.record ⟨s.now, vkey, cost⟩) := by
  have hrecorded : ∀ period ordinal, recorded (s.record ⟨s.now, vkey, cost⟩) period ordinal =
      recorded s period ordinal := by
    intro period ordinal
    rw [recorded_record, if_neg fun hmine => hother hmine.1, Nat.add_zero]
  refine ⟨?_, disk_record rfl h.disk, ?_, ?_⟩
  · intro r hr
    rcases List.mem_append.mp hr with hold | hnew
    · exact h.clock r hold
    · rw [List.mem_singleton.mp hnew]
      exact Nat.le_refl _
  · intro p o hcounted
    rw [hrecorded]
    exact h.counted p o hcounted
  · rw [Exact.iff]
    intro b hb
    rw [hrecorded]
    exact (Exact.iff s).mp h.exact b hb

theorem inv_rebuild {s : State} (h : Inv s) {d : VirtualKeyDef} (hid : d.id = s.defn.id)
    (hok : Undisturbed s (.rebuild d)) :
    Inv { s with defn := d, older := s.defn :: s.older } := by
  have hrecorded : ∀ period ordinal,
      recorded { s with defn := d, older := s.defn :: s.older } period ordinal =
        recorded s period ordinal := by
    intro period ordinal
    unfold recorded
    dsimp only
    rw [hid]
  refine ⟨h.clock, h.disk, ?_, ?_⟩
  · intro p o hcounted
    rw [hrecorded]
    exact h.counted p o hcounted
  · rw [Exact.iff]
    intro b hb
    rw [hrecorded]
    show Reads s b.period (periodOrdinal b.period s.now)
    obtain hkept | hcounted | hunspent := hok b hb
    · obtain ⟨old, hold, hperiod⟩ := Option.map_eq_some_iff.mp hkept
      rw [← hperiod]
      exact (Exact.iff s).mp h.exact old hold
    · exact h.counted _ _ hcounted
    · exact hunspent.reads

theorem inv_prune {s : State} (h : Inv s) (retentionDays : Nat) :
    Inv { s with disk := prunePartitions s.disk retentionDays s.now } := by
  obtain ⟨cutoff, hcutoff, hdisk⟩ := h.disk
  have hnew : dayOf (s.now - retentionDays * dayMs) ≤ dayOf s.now := dayOf_mono (Nat.sub_le _ _)
  refine ⟨h.clock, ⟨max cutoff (dayOf (s.now - retentionDays * dayMs)), Nat.max_le.mpr ⟨hcutoff, hnew⟩, ?_⟩,
    h.counted, h.exact⟩
  show prunePartitions s.disk retentionDays s.now = _
  unfold prunePartitions
  rw [hdisk, List.filter_filter]
  refine List.filter_congr fun r _ => ?_
  rw [← Bool.decide_and]
  exact decide_eq_decide.mpr (and_comm.trans Nat.max_le.symm)

/-- What `seed_budgets` leaves in the counter of a key with a budget. -/
theorem current_seedBudget {d : VirtualKeyDef} {b : Budget} (hb : d.budget = some b)
    (disk : List UsageRecord) (now : Nat) :
    current (seedBudget d disk now) (periodOrdinal b.period now) =
      min spendMask (spend disk d.id (fun ts => periodOrdinal b.period ts =
        periodOrdinal b.period now) % 2 ^ 64) := by
  unfold seedBudget scanPeriodSpend ordinalOf
  rw [periodOf_some hb, hb, if_neg (show ¬(some b).isNone = true from Bool.false_ne_true)]
  dsimp only
  split
  · rw [current_addNext, if_pos rfl, current_zero, Nat.zero_add, Nat.min_comm]
  · next hzero =>
    rw [current_zero, Nat.eq_zero_of_not_pos hzero, Nat.min_zero]

theorem inv_restart {s : State} (h : Inv s) {d : VirtualKeyDef} (hid : d.id = s.defn.id)
    (hok : Undisturbed s (.restart d)) :
    Inv { s with
      defn := d
      older := []
      packed := seedBudget d s.disk s.now
      counted := d.budget.map fun b => (b.period, periodOrdinal b.period s.now) } := by
  have hreads : ∀ b, d.budget = some b →
      current (seedBudget d s.disk s.now) (periodOrdinal b.period s.now) =
        min spendMask (spend s.ledger d.id fun ts => periodOrdinal b.period ts =
          periodOrdinal b.period s.now) := by
    intro b hb
    obtain ⟨hkept, hfits⟩ := hok b hb
    obtain ⟨cutoff, -, hdisk⟩ := h.disk
    have hscan : spend s.disk d.id (fun ts => periodOrdinal b.period ts =
        periodOrdinal b.period s.now) = spend s.ledger d.id fun ts => periodOrdinal b.period ts =
        periodOrdinal b.period s.now := by
      rw [hdisk]
      refine spend_filter fun r hr hkey hcost hin => ?_
      have hmem := hkept r hr (hid ▸ hkey) hcost (of_decide_eq_true hin)
      rw [hdisk] at hmem
      exact (List.mem_filter.mp hmem).2
    rw [current_seedBudget hb, hscan, Nat.mod_eq_of_lt (hid ▸ hfits)]
  refine ⟨h.clock, h.disk, ?_, ?_⟩
  · intro p o hcounted
    obtain ⟨b, hb, hpair⟩ := Option.map_eq_some_iff.mp hcounted
    obtain ⟨rfl, rfl⟩ := Prod.mk.inj hpair
    exact hreads b hb
  · rw [Exact.iff]
    exact hreads

theorem inv_step {s s' : State} {a : Act} (h : Inv s) (hok : Undisturbed s a)
    (hs : next s a = some s') : Inv s' := by
  cases a with
  | tick now =>
    obtain rfl := Option.some.inj hs
    exact inv_tick h hok
  | complete held cost =>
    unfold next at hs
    dsimp only at hs
    split at hs
    · obtain rfl := Option.some.inj hs
      exact inv_complete h hok
    · cases hs
  | other vkey cost =>
    unfold next at hs
    dsimp only at hs
    split at hs
    · cases hs
    · next hother =>
      obtain rfl := Option.some.inj hs
      exact inv_other h hother
  | rebuild d =>
    unfold next at hs
    dsimp only at hs
    split at hs
    · next hid =>
      obtain rfl := Option.some.inj hs
      exact inv_rebuild h hid hok
    · cases hs
  | prune retentionDays =>
    obtain rfl := Option.some.inj hs
    exact inv_prune h retentionDays
  | restart d =>
    unfold next at hs
    dsimp only at hs
    split at hs
    · next hid =>
      obtain rfl := Option.some.inj hs
      exact inv_restart h hid hok
    · cases hs

instance (s : State) (a : Act) : Decidable (Undisturbed s a) :=
  match a with
  | .tick _ => inferInstanceAs (Decidable (_ ∧ ∀ b ∈ s.defn.budget, _))
  | .complete _ _ => inferInstanceAs (Decidable (_ ∨ ∀ b ∈ s.defn.budget, _))
  | .other _ _ => isTrue trivial
  | .rebuild d => inferInstanceAs (Decidable (∀ b ∈ d.budget, _))
  | .prune _ => isTrue trivial
  | .restart d => inferInstanceAs (Decidable (∀ b ∈ d.budget, (∀ r ∈ s.ledger, _) ∧ _))

/-! ## Two runs -/

end RapidRouter.Usage.Budget
