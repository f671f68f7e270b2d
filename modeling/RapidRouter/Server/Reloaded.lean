import RapidRouter.Server.Gateway

/-!
# What a reload keeps and what it forgets

A reload builds every seat a new breaker and every provider a new semaphore.
Whoever was benched is not, whoever was in its cooldown is not, and a
provider has all of its permits again while requests still hold those of the
semaphore before. Only the slots of a seat are carried over.

`reload_keeps` says when nothing is lost by that: every seat that stays is
one its breaker would admit, and no request is in flight on a provider that
stays as it was.

The other way about, a request that is in flight has the buckets of the
tables it loaded, and debits those. `debit_reflected` says when the buckets
in force show it.
-/

namespace RapidRouter.Server.Gateway

open Lts Core.Live
open RapidRouter.Core (VirtualKeyDef)
open Core.TokenBucket (Bucket)
open Core.Breaker (admitAlone)

/-! ## The seats of the new table -/

section
variable {config : Core.Live.Config} {prev : Option RoutingTable} {gen : Nat} {h : Heap}

/-- The seats the configuration keeps or adds. -/
def Declares (config : Core.Live.Config) (provider key : String) : Prop :=
  ∃ p, config.providers.get? provider = some p ∧ ∃ c ∈ p.keys, c.name = key

theorem previousKey_built {provider key : String} {k : KeyRuntime}
    (hk : previousKey (some (fromConfigWith config prev gen h).1) provider key = some k) :
    ∃ (p : ProviderConfig) (i : Nat) (c : ApiKey), config.providers.get? provider = some p ∧
      p.keys[i]? = some c ∧ c.name = key ∧ k = keyRuntime gen config.breaker prev provider i c := by
  obtain ⟨hname, built, hbuilt, hmem⟩ := previousKey_mem hk
  rw [get?_built, Option.map_eq_some_iff] at hbuilt
  obtain ⟨p, hp, rfl⟩ := hbuilt
  obtain ⟨i, hi⟩ := List.getElem?_of_mem hmem
  rw [getElem?_built, Option.map_eq_some_iff] at hi
  obtain ⟨c, hc, rfl⟩ := hi
  exact ⟨p, i, c, hp, hc, hname, rfl⟩

theorem declares_iff {provider key : String} : Declares config provider key ↔
    ∃ k, previousKey (some (fromConfigWith config prev gen h).1) provider key = some k := by
  constructor
  · rintro ⟨p, hp, c, hc, rfl⟩
    have hbuilt : (fromConfigWith config prev gen h).1.providers.get? provider =
        some (providerRuntime gen config.breaker prev provider p) := by rw [get?_built, hp]; rfl
    have hsome : ((providerRuntime gen config.breaker prev provider p).keys.find?
        (·.name = c.name)).isSome := by
      rw [List.find?_isSome]
      obtain ⟨i, hi⟩ := List.getElem?_of_mem hc
      refine ⟨keyRuntime gen config.breaker prev provider i c, List.mem_of_getElem? (i := i) ?_,
        decide_eq_true rfl⟩
      rw [getElem?_built, hi]
      rfl
    obtain ⟨k, hk⟩ := Option.isSome_iff_exists.mp hsome
    refine ⟨k, ?_⟩
    unfold previousKey
    simp only [Option.bind_eq_bind, Option.bind_some, hbuilt]
    exact hk
  · rintro ⟨k, hk⟩
    obtain ⟨p, i, c, hp, hc, hname, -⟩ := previousKey_built hk
    exact ⟨p, hp, c, List.mem_of_getElem? hc, hname⟩

end

/-! ## What is kept -/

/-- What a reload owes the seats and the providers that stay, from a reading
on. A seat or provider is the one of its name. -/
structure Kept (s s' : State) (now : Nat) : Prop where
  /-- Whoever is refused until then is refused until then. -/
  refused : ∀ provider key old new, previousKey (some s.table) provider key = some old →
    previousKey (some s'.table) provider key = some new → ∀ t, now ≤ t →
    (admitAlone old.breaker (s.heap.cells old.addr).breaker t).2 = .no →
    (admitAlone new.breaker (s'.heap.cells new.addr).breaker t).2 = .no
  /-- Requests in flight count against the ceiling they were admitted under. -/
  slots : ∀ provider key old new, previousKey (some s.table) provider key = some old →
    previousKey (some s'.table) provider key = some new → ∀ limit,
    old.maxConcurrency = some limit → new.maxConcurrency = some limit →
    ∃ a a', old.inflight = some a ∧ new.inflight = some a' ∧
      s'.heap.free a' + held s.requests a = limit
  permits : ∀ provider old new, s.table.providers.get? provider = some old →
    s'.table.providers.get? provider = some new → old.maxConcurrency = new.maxConcurrency →
    s'.heap.free new.addr + held s.requests old.addr = new.maxConcurrency

/-- Nothing that stays is held out, and no provider that stays as it was has a
request in flight. -/
structure Quiet (s : State) (config : Core.Live.Config) (now : Nat) : Prop where
  seats : ∀ provider key old, previousKey (some s.table) provider key = some old →
    Declares config provider key → Rested s.heap old now
  providers : ∀ provider old p, s.table.providers.get? provider = some old →
    config.providers.get? provider = some p → old.maxConcurrency = p.maxConcurrency →
    held s.requests old.addr = 0

section
variable {s : State}

/-- The slots of a seat are always carried over. -/
theorem slots_kept (hs : Sound s) (config : Core.Live.Config) {provider key : String}
    {old new : KeyRuntime} (hold : previousKey (some s.table) provider key = some old)
    (hnew : previousKey (some (rebuildTable s config).table) provider key = some new) {limit : Nat}
    (holdlimit : old.maxConcurrency = some limit) (hnewlimit : new.maxConcurrency = some limit) :
    ∃ a a', old.inflight = some a ∧ new.inflight = some a' ∧
      (rebuildTable s config).heap.free a' + held s.requests a = limit := by
  obtain ⟨p, i, c, hp, hc, rfl, rfl⟩ := @previousKey_built _ _ _ s.heap _ _ _ hnew
  have hcarried : (keyRuntime (s.gen + 1) config.breaker (some s.table) provider i c).inflight =
      old.inflight := by
    have hceiling : c.maxConcurrency = some limit := hnewlimit
    show carrySlots (previousKey (some s.table) provider c.name) c.maxConcurrency _ = _
    unfold carrySlots
    rw [hold, hceiling]
    exact if_pos holdlimit
  obtain ⟨-, provider', hget, hmem⟩ := previousKey_mem hold
  have hsound := hs.table _ _ hget
  have hceiling := hsound.ceiling old hmem
  rw [holdlimit, eq_comm, Option.map_eq_some_iff] at hceiling
  obtain ⟨a, ha, hsize⟩ := hceiling
  refine ⟨a, a, ha, hcarried.trans ha, ?_⟩
  have hgen := hsound.slots old hmem a ha
  have hslots := hs.slots a
  show (fromConfigWith config (some s.table) (s.gen + 1) s.heap).2.free a + _ = _
  rw [built_free_of_ne (by omega)]
  omega

/-- A new provider has all of its permits. -/
theorem permits_new (config : Core.Live.Config) {provider : String} {new : ProviderRuntime}
    (hnew : (rebuildTable s config).table.providers.get? provider = some new) :
    (rebuildTable s config).heap.free new.addr = new.maxConcurrency ∧
      ∃ p, config.providers.get? provider = some p ∧ p.maxConcurrency = new.maxConcurrency := by
  have hbuilt : (fromConfigWith config (some s.table) (s.gen + 1) s.heap).1.providers.get? provider =
      some new := hnew
  rw [get?_built, Option.map_eq_some_iff] at hbuilt
  obtain ⟨p, hp, rfl⟩ := hbuilt
  refine ⟨?_, p, hp, rfl⟩
  show (if s.gen + 1 = s.gen + 1 then
    ((config.providers.get? provider).map (·.maxConcurrency)).getD 0 else _) = p.maxConcurrency
  rw [if_pos rfl, hp]
  rfl

/-- A new breaker refuses nobody. -/
theorem admitAlone_new (config : Core.Breaker.Config) (t : Nat) :
    (admitAlone config .new t).2 = .yes := rfl

theorem keeps_iff (hs : Sound s) (config : Core.Live.Config) (now : Nat) :
    Kept s (rebuildTable s config) now ↔ Quiet s config now := by
  have hfresh : ∀ provider key new, previousKey (some (rebuildTable s config).table) provider key =
      some new → ((rebuildTable s config).heap.cells new.addr).breaker = .new := by
    intro provider key new hnew
    obtain ⟨p, i, c, hp, hc, -, rfl⟩ := @previousKey_built _ _ _ s.heap _ _ _ hnew
    show ((fromConfigWith config (some s.table) (s.gen + 1) s.heap).2.cells
      ⟨s.gen + 1, provider, some i⟩).breaker = _
    rw [cells_built hp hc]
    rfl
  constructor
  · intro hkept
    refine ⟨fun provider key old hold hdeclares => ?_, fun provider old p hold hp hsame => ?_⟩
    · -- the new breaker refuses at no reading, so the old one must not either
      obtain ⟨new, hnew⟩ := (@declares_iff _ (some s.table) (s.gen + 1) s.heap _ _).mp hdeclares
      rw [rested_iff]
      intro hrefused
      have hstill := hkept.refused provider key old new hold hnew now le_rfl hrefused
      rw [hfresh provider key new hnew, admitAlone_new] at hstill
      cases hstill
    · have hnew : (rebuildTable s config).table.providers.get? provider =
          some (providerRuntime (s.gen + 1) config.breaker (some s.table) provider p) :=
        (@get?_built _ _ _ s.heap provider).trans (by rw [hp]; rfl)
      have hpermits := hkept.permits provider old _ hold hnew hsame
      rw [(permits_new config hnew).1] at hpermits
      omega
  · intro hquiet
    refine ⟨fun provider key old new hold hnew t ht hrefused => ?_,
      fun provider key old new hold hnew limit => slots_kept hs config hold hnew,
      fun provider old new hold hnew hsame => ?_⟩
    · have hrested := hquiet.seats provider key old hold 
        ((@declares_iff _ (some s.table) (s.gen + 1) s.heap _ _).mpr ⟨new, hnew⟩)
      exact absurd hrefused (rested_iff.mp (hrested.later ht))
    · obtain ⟨hfree, p, hp, hmax⟩ := permits_new config hnew
      rw [hfree, hquiet.providers provider old p hold hp (hsame.trans hmax.symm)]
      rfl

end

/-- Every reload of every run. -/
theorem reload_keeps {κ : Type} [LinearOrder κ] {s s' : State} (h : Reach (gateway κ) free s)
    (config : Core.Live.Config) (defs : List VirtualKeyDef) (shares now : Nat)
    (hreload : next s (.reload config defs shares : Label κ) = some s') :
    Kept s s' now ↔ Quiet s config now := by
  have hkeys := keeps_iff ((sound_of_reach h).rebuildKeys defs shares) config now
  cases hreload
  constructor
  · intro hkept
    obtain ⟨hseats, hproviders⟩ := hkeys.mp ⟨hkept.refused, hkept.slots, hkept.permits⟩
    exact ⟨hseats, hproviders⟩
  · intro hquiet
    obtain ⟨hrefused, hslots, hpermits⟩ := hkeys.mpr ⟨hquiet.seats, hquiet.providers⟩
    exact ⟨hrefused, hslots, hpermits⟩

/-- The seat is benched, and the provider's permit is out. -/
def benched : List (Label Nat) := seated ++ [.report 0 (.bench 1000)]

theorem reload_keeps_idle : ∃ s s', Reach (gateway Nat) free s ∧
    next s (.reload oneSeat [] 1 : Label Nat) = some s' ∧ Rested s.heap
      (keyRuntime 0 oneSeat.breaker none "openai" 0 ⟨"seat", 1, none, none, none, some 600, some 1⟩) 0 ∧
    (Kept s s' 0 ↔ Quiet s oneSeat 0) := by
  have hreach : Reach (gateway Nat) free (boot oneSeat [] 1) := .start ⟨oneSeat, [], 1, rfl⟩
  exact ⟨_, _, hreach, rfl, ⟨rfl, Or.inl rfl⟩, reload_keeps hreach oneSeat [] 1 0 rfl⟩

/-- The same configuration again, and a seat that is benched until 1000 is
admitted to at 0. -/
theorem reload_forgets_bench : ¬ ∀ s s', Reach (gateway Nat) free s →
    ∀ config defs shares now, next s (.reload config defs shares : Label Nat) = some s' →
      Kept s s' now := by
  intro hall
  have hreach : Reach (gateway Nat) free ((run next (boot oneSeat [] 1) benched).get (by decide)) :=
    Reach.of_run benched (.start ⟨oneSeat, [], 1, rfl⟩) (by decide) (Option.some_get _).symm
  have hkept := hall _ _ hreach oneSeat [] 1 0 rfl
  have hrefused := hkept.refused "openai" "seat" _ _ rfl rfl 0 le_rfl (by decide)
  exact absurd hrefused (by decide)

/-! ## Debits -/

/-- A bucket shows a debit: what it was, refilled, with the tokens taken. -/
def Shows (before after : Option Bucket) (tokens now : Nat) : Prop :=
  after.map (·.refill now) = before.map (·.debitSaturating tokens now)

instance (before after : Option Bucket) (tokens now : Nat) :
    Decidable (Shows before after tokens now) := inferInstanceAs (Decidable (_ = _))

/-- There is nothing to show. -/
def Nothing (bucket : Option Bucket) (tokens now : Nat) : Prop :=
  tokens = 0 ∨ ∀ b, bucket = some b → (b.refill now).available = 0

theorem shows_debit (bucket : Option Bucket) (tokens now : Nat) :
    Shows bucket (bucket.map (·.debitSaturating tokens now)) tokens now := by
  unfold Shows
  cases bucket with
  | none => rfl
  | some b =>
    refine congrArg some (Core.TokenBucket.Bucket.refill_of_le ?_)
    exact Core.TokenBucket.Bucket.le_refill b now

/-- A bucket that was not debited. -/
theorem shows_same (bucket : Option Bucket) (tokens now : Nat) :
    Shows bucket bucket tokens now ↔ Nothing bucket tokens now := by
  unfold Shows Nothing
  cases bucket with
  | none => exact ⟨fun _ => Or.inr fun b hb => (by cases hb), fun _ => rfl⟩
  | some b =>
    have hsub : b.debitSaturating tokens now = { b.refill now with
        available := (b.refill now).available - Core.TokenBucket.saturatingMul tokens 1000 } := rfl
    have htokens : tokens = 0 ∨ 0 < Core.TokenBucket.saturatingMul tokens 1000 := by
      unfold Core.TokenBucket.saturatingMul
      omega
    rw [Option.map_some, Option.map_some, Option.some.injEq, hsub]
    constructor
    · intro heq
      have havailable : (b.refill now).available =
          (b.refill now).available - Core.TokenBucket.saturatingMul tokens 1000 :=
        congrArg Bucket.available heq
      rcases htokens with hzero | hpos
      · exact Or.inl hzero
      · refine Or.inr fun c hc => ?_
        cases hc
        omega
    · intro hnothing
      have havailable : (b.refill now).available - Core.TokenBucket.saturatingMul tokens 1000 =
          (b.refill now).available := by
        rcases hnothing with rfl | hempty
        · exact Nat.sub_zero _
        · rw [hempty b rfl, Nat.zero_sub]
      rw [havailable]

/-- The buckets in force show what a request spent: the one of its seat, by
provider and key name, and the one of its virtual key. -/
structure Debited (s s' : State) (r : Request) (tokens vkNow seatNow : Nat) : Prop where
  seat : ∀ p k, r.seat = some (p, k) → ∀ current,
    previousKey (some s.table) p.name k.name = some current →
    Shows (s.heap.cells current.addr).tpm (s'.heap.cells current.addr).tpm tokens seatNow
  vkey : ∀ vk, r.vkey = some vk → ∀ current, s.vkeys.get? vk.definition.id = some current →
    Shows (s.vkCells current.addr).tpm (s'.vkCells current.addr).tpm tokens vkNow

/-- The request has the cells in force, or there is nothing to show in them. -/
structure Current (s : State) (r : Request) (tokens vkNow seatNow : Nat) : Prop where
  seat : ∀ p k, r.seat = some (p, k) → ∀ current,
    previousKey (some s.table) p.name k.name = some current →
    k.addr = current.addr ∨ Nothing (s.heap.cells current.addr).tpm tokens seatNow
  vkey : ∀ vk, r.vkey = some vk → ∀ current, s.vkeys.get? vk.definition.id = some current →
    vk.addr = current.addr ∨ Nothing (s.vkCells current.addr).tpm tokens vkNow

section
variable {s : State} {r : Request}

/-- The cells of a key once its request has debited another one's, or its own. -/
theorem shows_seat {p : ProviderRuntime} {k : KeyRuntime} (hseat : r.seat = some (p, k)) (a : Addr)
    (tokens vkNow seatNow : Nat) :
    Shows (s.heap.cells a).tpm ((debit s r tokens vkNow seatNow).heap.cells a).tpm tokens seatNow ↔
      k.addr = a ∨ Nothing (s.heap.cells a).tpm tokens seatNow := by
  have hcells : (debit s r tokens vkNow seatNow).heap.cells a =
      if a = k.addr then { s.heap.cells k.addr with
        tpm := (s.heap.cells k.addr).tpm.map (·.debitSaturating tokens seatNow) }
      else s.heap.cells a := by
    unfold debit
    dsimp only
    rw [hseat]
    exact setCells_cells s.heap k.addr a _
  rw [hcells]
  by_cases ha : a = k.addr
  · subst ha
    rw [if_pos rfl]
    exact ⟨fun _ => Or.inl rfl, fun _ => shows_debit _ tokens seatNow⟩
  · rw [if_neg ha, shows_same, or_iff_right fun heq => ha heq.symm]

theorem shows_vkey {vk : VkRuntime} (hvkey : r.vkey = some vk) (a : VkAddr)
    (tokens vkNow seatNow : Nat) :
    Shows (s.vkCells a).tpm ((debit s r tokens vkNow seatNow).vkCells a).tpm tokens vkNow ↔
      vk.addr = a ∨ Nothing (s.vkCells a).tpm tokens vkNow := by
  have hcells : (debit s r tokens vkNow seatNow).vkCells = debitUsage s.vkCells vk tokens vkNow := by
    unfold debit
    dsimp only
    rw [hvkey]
  rw [hcells]
  unfold debitUsage
  by_cases htokens : tokens > 0
  · rw [if_pos htokens, Function.update_apply]
    by_cases ha : a = vk.addr
    · subst ha
      rw [if_pos rfl]
      exact ⟨fun _ => Or.inl rfl, fun _ => shows_debit _ tokens vkNow⟩
    · rw [if_neg ha, shows_same, or_iff_right fun heq => ha heq.symm]
  · rw [if_neg htokens, shows_same]
    have hzero : tokens = 0 := by omega
    exact ⟨Or.inr, fun _ => Or.inl hzero⟩

end

/-- Every completion of every request, in any state. -/
theorem debit_reflected {κ : Type} [LinearOrder κ] {s s' : State} {i : Nat} {r : Request}
    {tokens vkNow seatNow : Nat} (hr : s.requests[i]? = some r)
    (hcomplete : next s (.complete i tokens vkNow seatNow : Label κ) = some s') :
    Debited s s' r tokens vkNow seatNow ↔ Current s r tokens vkNow seatNow := by
  have hcells : s'.heap.cells = (debit s r tokens vkNow seatNow).heap.cells ∧
      s'.vkCells = (debit s r tokens vkNow seatNow).vkCells := by
    unfold next at hcomplete
    dsimp only at hcomplete
    rw [hr] at hcomplete
    cases hcomplete
    exact ⟨returnPermits_cells _ _, rfl⟩
  constructor
  · rintro ⟨hseat, hvkey⟩
    refine ⟨fun p k hrk current hcurrent => ?_, fun vk hrk current hcurrent => ?_⟩
    · have hshows := hseat p k hrk current hcurrent
      rw [hcells.1] at hshows
      exact (shows_seat hrk current.addr tokens vkNow seatNow).mp hshows
    · have hshows := hvkey vk hrk current hcurrent
      rw [hcells.2] at hshows
      exact (shows_vkey hrk current.addr tokens vkNow seatNow).mp hshows
  · rintro ⟨hseat, hvkey⟩
    refine ⟨fun p k hrk current hcurrent => ?_, fun vk hrk current hcurrent => ?_⟩
    · rw [hcells.1]
      exact (shows_seat hrk current.addr tokens vkNow seatNow).mpr (hseat p k hrk current hcurrent)
    · rw [hcells.2]
      exact (shows_vkey hrk current.addr tokens vkNow seatNow).mpr (hvkey vk hrk current hcurrent)

/-- The same configuration is adopted while a request is in flight. -/
def overtaken : List (Label Nat) := seated ++ [.reload oneSeat [] 1]

/-- Its hundred tokens are taken of the bucket the table before had. -/
theorem debit_reflected_overtaken : ∃ s r s', s.requests[0]? = some r ∧
    next s (.complete 0 100 0 0 : Label Nat) = some s' ∧ r.seat.isSome = true ∧
    (Debited s s' r 100 0 0 ↔ Current s r 100 0 0) :=
  ⟨(run next (boot oneSeat [] 1) overtaken).get (by decide), _, _, rfl, rfl, rfl,
    @debit_reflected Nat _ _ _ 0 _ 100 0 0 rfl rfl⟩

theorem debit_escapes : ¬ ∀ s s' i r tokens vkNow seatNow, Reach (gateway Nat) free s →
    s.requests[i]? = some r → next s (.complete i tokens vkNow seatNow : Label Nat) = some s' →
    Debited s s' r tokens vkNow seatNow := by
  intro hall
  have hreach : Reach (gateway Nat) free ((run next (boot oneSeat [] 1) overtaken).get (by decide)) :=
    Reach.of_run overtaken (.start ⟨oneSeat, [], 1, rfl⟩) (by decide) (Option.some_get _).symm
  have hshows := (hall _ _ 0 _ 100 0 0 hreach rfl rfl).seat _ _ rfl _ rfl
  exact absurd hshows (by decide)

end RapidRouter.Server.Gateway
