import RapidRouter.Core.Reload
import RapidRouter.Core.VKey
import RapidRouter.Lib.Lts

/-!
# Requests across reloads

`apply_config` and `refresh_vkeys` of `router-server/src/lib.rs` swap in a new
routing table and a new key table while requests are in flight. A request
keeps the tables it loaded: it is admitted to keys of its own table, its
outcomes are recorded there, its permits are returned to the semaphores it
took them of, and its tokens are debited to the buckets it holds
(`complete_with_body` of `usage.rs`).

A `State` is the shared cells of all tables ever built, the tables in force,
and the requests in flight. What every step keeps is `Sound`: the permits
that are free and those that requests hold add up to the size of their
semaphore, and the tables, old and new, know those sizes.

Whether a virtual key has budget left, and what a console check or the
recovery of a seat finds out, are labels: nothing here depends on them.
-/

namespace RapidRouter.Server.Gateway

open Lts Core.Live
open RapidRouter.Core (VirtualKeyDef)
open Core.TokenBucket (Bucket)

/-! ## Virtual keys -/

structure VkAddr where
  gen : Nat
  id : String
  deriving DecidableEq

structure VkCells where
  rpm : Option Bucket
  tpm : Option Bucket

/-- The part of a `VkRuntime` that does not change. -/
structure VkRuntime where
  definition : VirtualKeyDef
  shares : Nat
  addr : VkAddr

/-- `new_bucket` of `vkey.rs`. -/
def newVkBucket (perMin : Option Nat) : Option Bucket :=
  perMin.map fun limit => .new limit (max (limit / 60) 1)

/-- `take_bucket`. -/
def takeBucket (prev : Option Bucket) (limit : Option Nat) : Option Bucket :=
  match prev, limit with
  | some b, some _ => some b.cloneState
  | _, _ => newVkBucket limit

/-- The buckets of `VkRuntime::new`, with what the key had before. -/
def vkCells (d : VirtualKeyDef) (shares : Nat) (prev : Option (VkRuntime × VkCells)) : VkCells :=
  let rate := d.rate.getD ⟨none, none⟩
  let share := fun limit : Option Nat => limit.map fun l => max (l / max shares 1) 1
  match prev with
  | some (p, cells) =>
    if p.definition.rate = d.rate ∧ p.shares = max shares 1 then
      ⟨takeBucket cells.rpm (share rate.rpm), takeBucket cells.tpm (share rate.tpm)⟩
    else ⟨newVkBucket (share rate.rpm), newVkBucket (share rate.tpm)⟩
  | none => ⟨newVkBucket (share rate.rpm), newVkBucket (share rate.tpm)⟩

/-- The threshold of `VkRuntime::admit` on tokens: an empty bucket is asked
again once it is refilled. -/
def VkCells.tokensLeft (c : VkCells) (now : Nat) : VkCells × Bool :=
  match c.tpm with
  | none => (c, true)
  | some tpm =>
    if tpm.availableTokens = 0 then
      let tpm := (tpm.tryConsume 0 now).1
      ({ c with tpm := some tpm }, tpm.availableTokens ≠ 0)
    else (c, true)

/-- `VkRuntime::admit`, but for the budget. -/
def VkCells.admitted (c : VkCells) (now : Nat) : VkCells × Bool :=
  match c.rpm with
  | none => c.tokensLeft now
  | some rpm =>
    let (rpm, took) := rpm.tryConsume 1 now
    let c := { c with rpm := some rpm }
    if took then c.tokensLeft now else (c, false)

abbrev VkTable := OrdMap String VkRuntime

/-! ## The state -/

/-- An attempt: its key's slot and the provider's permit ride with it. -/
structure Attempt where
  provider : ProviderRuntime
  key : Option KeyRuntime
  slot : Option Addr

/-- A request holds the virtual key and the table it loaded. -/
structure Request where
  vkey : Option VkRuntime
  table : Option RoutingTable
  attempt : Option Attempt

structure State where
  heap : Heap
  vkCells : VkAddr → VkCells
  table : RoutingTable
  vkeys : VkTable
  /-- How many tables have been built. -/
  gen : Nat
  requests : List Request
  /-- A ghost: the size each semaphore was made with. -/
  size : Addr → Nat

/-- The permits of a semaphore that an attempt holds. -/
def Attempt.holds (t : Attempt) (a : Addr) : Nat :=
  (if t.provider.addr = a then 1 else 0) + if t.slot = some a then 1 else 0

def Request.holds (r : Request) (a : Addr) : Nat :=
  match r.attempt with
  | none => 0
  | some t => t.holds a

/-- The permits of a semaphore that requests hold. -/
def held (requests : List Request) (a : Addr) : Nat := (requests.map (·.holds a)).sum

/-! ## The steps -/

/-- What an attempt found out about the account it was made with. -/
inductive Report where
  | success
  | failure (now : Nat)
  | bench (untilMs : Nat)

inductive Label (κ : Type) where
  /-- A caller's key is looked up and admitted. -/
  | begin_ (vkey : Option String) (now : Nat) (budgetLeft : Bool)
  /-- The handler loads the routing table. -/
  | route (i : Nat)
  /-- Request `i` is admitted to a key of its table and takes the provider's
  permit, or gives up the key's slot when there is none. -/
  | attempt (i : Nat) (provider : String) (model tenant affinity : Option String)
    (sel : Selection κ) (now : Nat)
  /-- A relayed request takes the provider's permit first, and a provider that
  needs no key is relayed to without one. -/
  | relay (i : Nat) (provider : String) (tenant : Option String) (needsKey : Bool)
    (sel : Selection κ) (now : Nat)
  | report (i : Nat) (r : Report)
  /-- The attempt is over and another one may follow. -/
  | retry (i : Nat)
  /-- The response has been streamed: its tokens are debited and the permits
  return. -/
  | complete (i : Nat) (tokens vkNow seatNow : Nat)
  /-- A seat that is out is offered its probe (`recover_seat`). -/
  | recover (a : Addr) (config : Core.Breaker.Config) (now : Nat)
  /-- A check settles the breaker it looked at. -/
  | check (a : Addr) (config : Core.Breaker.Config) (r : Report)
  /-- `apply_config`. -/
  | reload (config : Core.Live.Config) (defs : List VirtualKeyDef) (shares : Nat)
  /-- `refresh_vkeys`. -/
  | refresh (defs : List VirtualKeyDef) (shares : Nat)

def byId (defs : List VirtualKeyDef) : OrdMap String VirtualKeyDef :=
  OrdMap.ofList (defs.map fun d => (d.id, d))

/-- `VkTable::build_with_shares`. -/
def vkTable (defs : List VirtualKeyDef) (shares gen : Nat) : VkTable :=
  (byId defs).mapWithKey fun id d => ⟨d, max shares 1, ⟨gen, id⟩⟩

/-- The key table in force becomes a new one, with the buckets of the one
before where the limits are unchanged. -/
def rebuildKeys (s : State) (defs : List VirtualKeyDef) (shares : Nat) : State :=
  { s with
    vkeys := vkTable defs shares (s.gen + 1)
    vkCells := fun a =>
      if a.gen = s.gen + 1 then
        match (byId defs).get? a.id with
        | some d => vkCells d shares ((s.vkeys.get? a.id).map fun p => (p, s.vkCells p.addr))
        | none => ⟨none, none⟩
      else s.vkCells a
    gen := s.gen + 1 }

/-- The routing table of `apply_config`, and its cells. -/
def rebuildTable (s : State) (config : Core.Live.Config) : State :=
  let built := fromConfigWith config (some s.table) (s.gen + 1) s.heap
  { s with
    table := built.1
    heap := built.2
    size := fun a => if a.gen = s.gen + 1 then built.2.free a else s.size a
    gen := s.gen + 1 }

def recordAt (h : Heap) (a : Addr) (config : Core.Breaker.Config) (r : Report) : Heap :=
  let b := (h.cells a).breaker
  h.setCells a { h.cells a with
    breaker :=
      match r with
      | .success => ⟨⟨Core.Breaker.pack 0 Core.Breaker.closed, 0, b.words.windowStartMs⟩, 0, []⟩
      | .failure now => { b with words := Core.Breaker.failed config b.words now }
      | .bench untilMs =>
        { b with
          benchUntilMs := max b.benchUntilMs untilMs
          deadlines := untilMs :: b.deadlines } }

/-- What is recorded in `breaker_for`. -/
def record (h : Heap) (t : Attempt) (r : Report) : Heap :=
  recordAt h ((t.key.map (·.addr)).getD t.provider.addr)
    ((t.key.map (·.breaker)).getD t.provider.breaker) r

/-- The permits of an attempt are dropped. -/
def returnPermits (h : Heap) : Option Attempt → Heap
  | none => h
  | some t => release (release h t.slot) (some t.provider.addr)

/-- `debit_tokens`. -/
def debitTokens (h : Heap) (k : KeyRuntime) (tokens now : Nat) : Heap :=
  h.setCells k.addr { h.cells k.addr with
    tpm := (h.cells k.addr).tpm.map (·.debitSaturating tokens now) }

/-- `debit_usage`, but for what is spent. -/
def debitUsage (cells : VkAddr → VkCells) (vk : VkRuntime) (tokens now : Nat) :
    VkAddr → VkCells :=
  if tokens > 0 then
    Function.update cells vk.addr { cells vk.addr with
      tpm := (cells vk.addr).tpm.map (·.debitSaturating tokens now) }
  else cells

/-- The seat that served a request, by its name in the provider the request
holds. -/
def Request.seat (r : Request) : Option (ProviderRuntime × KeyRuntime) := do
  let t ← r.attempt
  let key ← t.key
  let k ← t.provider.keys.find? (·.name = key.name)
  return (t.provider, k)

/-- The debits of `complete_with_body`. -/
def debit (s : State) (r : Request) (tokens vkNow seatNow : Nat) : State :=
  { s with
    vkCells :=
      match r.vkey with
      | none => s.vkCells
      | some vk => debitUsage s.vkCells vk tokens vkNow
    heap :=
      match r.seat with
      | none => s.heap
      | some (_, k) => debitTokens s.heap k tokens seatNow }

/-- A virtual key is asked, in its own cells. -/
def begins (s : State) (vk : VkRuntime) (now : Nat) (budgetLeft : Bool) : State :=
  let asked := (s.vkCells vk.addr).admitted now
  { s with
    vkCells := Function.update s.vkCells vk.addr asked.1
    requests :=
      if asked.2 && budgetLeft then s.requests ++ [⟨some vk, none, none⟩] else s.requests }

variable {κ : Type} [LinearOrder κ]

/-- A chat request tries a provider: the key first, then the permit. -/
def attempts (s : State) (i : Nat) (r : Request) (p : ProviderRuntime)
    (answer : Heap × Option KeyChoice) : State :=
  match answer with
  | (h, none) => { s with heap := h }
  | (h, some choice) =>
    if h.free p.addr = 0 then { s with heap := release h choice.permit }
    else
      { s with
        heap := h.setFree p.addr (h.free p.addr - 1)
        requests := s.requests.set i { r with attempt := some ⟨p, choice.key, choice.permit⟩ } }

/-- `run_passthrough` has the permit when it asks for a key. -/
def relays (s : State) (i : Nat) (r : Request) (p : ProviderRuntime) (needsKey : Bool)
    (answer : Heap × Option KeyChoice) : State :=
  match answer with
  | (h, none) =>
    if needsKey then { s with heap := release h (some p.addr) }
    else { s with heap := h, requests := s.requests.set i { r with attempt := some ⟨p, none, none⟩ } }
  | (h, some choice) =>
    { s with
      heap := h
      requests := s.requests.set i { r with attempt := some ⟨p, choice.key, choice.permit⟩ } }

/-- The provider a request without an attempt may turn to. -/
def target (s : State) (i : Nat) (provider : String) : Option (Request × ProviderRuntime) :=
  match s.requests[i]? with
  | some ⟨vkey, some table, none⟩ =>
    (table.providers.get? provider).map fun p => (⟨vkey, some table, none⟩, p)
  | _ => none

def next (s : State) : Label κ → Option State
  | .begin_ none _ _ => some { s with requests := s.requests ++ [⟨none, none, none⟩] }
  | .begin_ (some id) now budgetLeft => (s.vkeys.get? id).map (begins s · now budgetLeft)
  | .route i =>
    match s.requests[i]? with
    | some ⟨vkey, none, t⟩ => some { s with requests := s.requests.set i ⟨vkey, some s.table, t⟩ }
    | _ => none
  | .attempt i provider model tenant affinity sel now =>
    (target s i provider).map fun (r, p) =>
      attempts s i r p (admitFor sel p model tenant affinity now s.heap)
  | .relay i provider tenant needsKey sel now =>
    match target s i provider with
    | some (r, p) =>
      if s.heap.free p.addr = 0 then some s
      else
        some (relays s i r p needsKey (admitFor sel p none tenant none now
          (s.heap.setFree p.addr (s.heap.free p.addr - 1))))
    | none => none
  | .report i r =>
    match s.requests[i]? with
    | some ⟨_, _, some t⟩ => some { s with heap := record s.heap t r }
    | _ => none
  | .retry i =>
    match s.requests[i]? with
    | some r =>
      some { s with
        heap := returnPermits s.heap r.attempt
        requests := s.requests.set i { r with attempt := none } }
    | none => none
  | .complete i tokens vkNow seatNow =>
    match s.requests[i]? with
    | some r =>
      let s' := debit s r tokens vkNow seatNow
      some { s' with
        heap := returnPermits s'.heap r.attempt
        requests := s.requests.eraseIdx i }
    | none => none
  | .recover a config now =>
    let (breaker, _) := Core.Breaker.admitAlone config (s.heap.cells a).breaker now
    some { s with heap := s.heap.setCells a { s.heap.cells a with breaker := breaker } }
  | .check a config r => some { s with heap := recordAt s.heap a config r }
  | .reload config defs shares => some (rebuildTable (rebuildKeys s defs shares) config)
  | .refresh defs shares => some (rebuildKeys s defs shares)

/-- At boot a configuration is adopted with nothing to carry over. -/
def boot (config : Core.Live.Config) (defs : List VirtualKeyDef) (shares : Nat) : State :=
  let built := fromConfigWith config none 0 Heap.empty
  { heap := built.2
    vkCells := fun a =>
      match (byId defs).get? a.id with
      | some d => vkCells d shares none
      | none => ⟨none, none⟩
    table := built.1
    vkeys := vkTable defs shares 0
    gen := 0
    requests := []
    size := built.2.free }

variable (κ) in
def gateway : System State (Label κ) :=
  ofNext (fun s => ∃ config defs shares, s = boot config defs shares) next

/-! ## What every step keeps -/

/-- A provider knows the sizes of its semaphores, its keys have cells of their
own, and all of them are of a table built by now. -/
structure ProviderSound (size : Addr → Nat) (gen : Nat) (p : ProviderRuntime) : Prop where
  nodup : (p.keys.map (·.addr)).Nodup
  permits : size p.addr = p.maxConcurrency
  ceiling : ∀ k ∈ p.keys, k.maxConcurrency = k.inflight.map size
  built : p.addr.gen ≤ gen
  slots : ∀ k ∈ p.keys, ∀ a, k.inflight = some a → a.gen ≤ gen

def TableSound (size : Addr → Nat) (gen : Nat) (t : RoutingTable) : Prop :=
  ∀ name p, t.providers.get? name = some p → ProviderSound size gen p

structure AttemptSound (size : Addr → Nat) (gen : Nat) (t : Attempt) : Prop where
  provider : ProviderSound size gen t.provider
  key : ∀ k, t.key = some k → k ∈ t.provider.keys
  slot : t.slot = t.key.bind (·.inflight)

structure RequestSound (size : Addr → Nat) (gen : Nat) (r : Request) : Prop where
  table : ∀ t, r.table = some t → TableSound size gen t
  attempt : ∀ t, r.attempt = some t → AttemptSound size gen t

structure Sound (s : State) : Prop where
  /-- Every permit is free or some request has it. -/
  slots : ∀ a, s.heap.free a + held s.requests a = s.size a
  table : TableSound s.size s.gen s.table
  requests : ∀ r ∈ s.requests, RequestSound s.size s.gen r

section
variable {size size' : Addr → Nat} {gen gen' : Nat}

/-- A later table leaves the sizes of the earlier ones. -/
theorem ProviderSound.later {p : ProviderRuntime} (hp : ProviderSound size gen p)
    (hgen : gen ≤ gen') (hsize : ∀ a, a.gen ≤ gen → size' a = size a) :
    ProviderSound size' gen' p := by
  refine ⟨hp.nodup, (hsize _ hp.built).trans hp.permits, fun k hk => ?_, hp.built.trans hgen,
    fun k hk a ha => (hp.slots k hk a ha).trans hgen⟩
  rw [hp.ceiling k hk]
  cases hslot : k.inflight with
  | none => rfl
  | some a => exact congrArg some (hsize a (hp.slots k hk a hslot)).symm

theorem TableSound.later {t : RoutingTable} (ht : TableSound size gen t) (hgen : gen ≤ gen')
    (hsize : ∀ a, a.gen ≤ gen → size' a = size a) : TableSound size' gen' t :=
  fun name p hp => (ht name p hp).later hgen hsize

theorem RequestSound.later {r : Request} (hr : RequestSound size gen r) (hgen : gen ≤ gen')
    (hsize : ∀ a, a.gen ≤ gen → size' a = size a) : RequestSound size' gen' r := by
  refine ⟨fun t ht => (hr.table t ht).later hgen hsize, fun t ht => ?_⟩
  obtain ⟨hprovider, hkey, hslot⟩ := hr.attempt t ht
  exact ⟨hprovider.later hgen hsize, hkey, hslot⟩

/-- A request holds no permit of a table that is not built yet. -/
theorem RequestSound.holds_of_lt {r : Request} (hr : RequestSound size gen r) {a : Addr}
    (ha : gen < a.gen) : r.holds a = 0 := by
  unfold Request.holds
  cases ht : r.attempt with
  | none => rfl
  | some t =>
    obtain ⟨hprovider, hkey, hslot⟩ := hr.attempt t ht
    have hpermit : t.provider.addr ≠ a := by
      intro heq
      have := hprovider.built
      rw [heq] at this
      omega
    have hkeyslot : t.slot ≠ some a := by
      intro heq
      rw [hslot, Option.bind_eq_some_iff] at heq
      obtain ⟨k, hk, hinflight⟩ := heq
      have := hprovider.slots k (hkey k hk) a hinflight
      omega
    show t.holds a = 0
    unfold Attempt.holds
    rw [if_neg hpermit, if_neg hkeyslot]

theorem held_of_lt {requests : List Request} (hr : ∀ r ∈ requests, RequestSound size gen r)
    {a : Addr} (ha : gen < a.gen) : held requests a = 0 := by
  unfold held
  rw [List.sum_eq_zero]
  intro n hn
  obtain ⟨r, hmem, rfl⟩ := List.mem_map.mp hn
  exact (hr r hmem).holds_of_lt ha

end

theorem held_set {requests : List Request} {i : Nat} {r : Request} (r' : Request) (a : Addr)
    (hi : requests[i]? = some r) :
    held (requests.set i r') a + r.holds a = held requests a + r'.holds a := by
  induction requests generalizing i with
  | nil => cases hi
  | cons c rest ih =>
    cases i with
    | zero =>
      cases hi
      show r'.holds a + held rest a + r.holds a = r.holds a + held rest a + r'.holds a
      omega
    | succ i =>
      have hrest := ih hi
      show c.holds a + held (rest.set i r') a + r.holds a = c.holds a + held rest a + r'.holds a
      omega

theorem held_eraseIdx {requests : List Request} {i : Nat} {r : Request} (a : Addr)
    (hi : requests[i]? = some r) :
    held (requests.eraseIdx i) a + r.holds a = held requests a := by
  induction requests generalizing i with
  | nil => cases hi
  | cons c rest ih =>
    cases i with
    | zero =>
      cases hi
      show held rest a + r.holds a = r.holds a + held rest a
      omega
    | succ i =>
      have hrest := ih hi
      show c.holds a + held (rest.eraseIdx i) a + r.holds a = c.holds a + held rest a
      omega

theorem held_append (requests : List Request) (r : Request) (a : Addr) :
    held (requests ++ [r]) a = held requests a + r.holds a := by
  unfold held
  rw [List.map_append, List.sum_append]
  rfl

/-! ## Permits -/

theorem release_free (h : Heap) (permit : Option Addr) (a : Addr) :
    (release h permit).free a = h.free a + if permit = some a then 1 else 0 := by
  cases permit with
  | none => rfl
  | some b =>
    show Function.update h.free b (h.free b + 1) a = _
    rw [Function.update_apply]
    by_cases hb : a = b
    · rw [if_pos hb, if_pos (by rw [hb]), hb]
    · rw [if_neg hb, if_neg fun heq => hb (Option.some.inj heq).symm]
      rfl

theorem returnPermits_free (h : Heap) (r : Request) (a : Addr) :
    (returnPermits h r.attempt).free a = h.free a + r.holds a := by
  unfold Request.holds
  cases r.attempt with
  | none => rfl
  | some t =>
    show (release (release h t.slot) (some t.provider.addr)).free a = h.free a + t.holds a
    rw [release_free, release_free]
    unfold Attempt.holds
    simp only [Option.some.injEq]
    omega

theorem release_cells (h : Heap) (permit : Option Addr) : (release h permit).cells = h.cells := by
  cases permit <;> rfl

theorem returnPermits_cells (h : Heap) (t : Option Attempt) : (returnPermits h t).cells = h.cells := by
  cases t with
  | none => rfl
  | some t =>
    show (release (release h t.slot) (some t.provider.addr)).cells = h.cells
    rw [release_cells, release_cells]

theorem reserved_free {h : Heap} {k : KeyRuntime} (hslot : slotFree h k = true) (a : Addr) :
    reserved h.free k.inflight a + (if k.inflight = some a then 1 else 0) = h.free a := by
  unfold slotFree at hslot
  cases hk : k.inflight with
  | none => rfl
  | some b =>
    rw [hk] at hslot
    have hsome : h.free b ≠ 0 := of_decide_eq_true hslot
    show Function.update h.free b (h.free b - 1) a + _ = _
    rw [Function.update_apply]
    by_cases hb : a = b
    · subst hb
      rw [if_pos rfl, if_pos rfl]
      omega
    · rw [if_neg hb, if_neg fun heq => hb (Option.some.inj heq).symm]
      rfl

/-- What an answer does to the semaphores, and whose slot it comes with. -/
structure Answered (p : ProviderRuntime) (h : Heap) (answer : Heap × Option KeyChoice) : Prop where
  refused : answer.2 = none → answer.1.free = h.free
  admitted : ∀ choice, answer.2 = some choice →
    (∀ k, choice.key = some k → k ∈ p.keys) ∧ choice.permit = choice.key.bind (·.inflight) ∧
      ∀ a, answer.1.free a + (if choice.permit = some a then 1 else 0) = h.free a

theorem answered {κ : Type} [LinearOrder κ] {p : ProviderRuntime}
    (hnodup : (p.keys.map (·.addr)).Nodup) (sel : Selection κ) (model tenant affinity : Option String)
    (now : Nat) (h : Heap) : Answered p h (admitFor sel p model tenant affinity now h) := by
  have hlaw := admit_law sel hnodup model tenant affinity now h
  refine ⟨fun hnone => hlaw.unkeyed fun choice k hchoice => ?_, fun choice hchoice => ?_⟩
  · rw [hnone] at hchoice
    cases hchoice
  · cases hkey : choice.key with
    | none =>
      obtain ⟨-, hpermit⟩ := hlaw.keyed choice hchoice hkey
      refine ⟨fun k hk => (by cases hk), hpermit, fun a => ?_⟩
      have hfree := hlaw.unkeyed fun other k hother hk => by
        rw [hchoice, Option.some.injEq] at hother
        subst hother
        rw [hkey] at hk
        cases hk
      rw [hfree, hpermit, if_neg fun heq => (by cases heq)]
      rfl
    | some k =>
      obtain ⟨hentitled, -, hslot, hpermit, -, hgranted⟩ := hlaw.sound choice k hchoice hkey
      refine ⟨fun c hc => ?_, hpermit, fun a => ?_⟩
      · rw [Option.some.injEq] at hc
        exact hc ▸ hentitled.mem
      · rw [hgranted.free, hpermit]
        exact reserved_free hslot a

/-! ## The steps keep it -/

section
variable {s : State}

/-- What happens to breakers and buckets changes no permit. -/
theorem Sound.cells (hs : Sound s) {h : Heap} (cells : VkAddr → VkCells)
    (hfree : h.free = s.heap.free) : Sound { s with heap := h, vkCells := cells } :=
  ⟨fun a => by rw [hfree]; exact hs.slots a, hs.table, hs.requests⟩

/-- A request moves, and permits with it. -/
theorem Sound.set (hs : Sound s) {i : Nat} {r r' : Request} {h : Heap}
    (hi : s.requests[i]? = some r) (hr' : RequestSound s.size s.gen r')
    (hfree : ∀ a, h.free a + r'.holds a = s.heap.free a + r.holds a) :
    Sound { s with heap := h, requests := s.requests.set i r' } := by
  refine ⟨fun a => ?_, hs.table, fun c hc => ?_⟩
  · have hslots := hs.slots a
    have hheld := held_set r' a hi
    have hmoved := hfree a
    show h.free a + held (s.requests.set i r') a = s.size a
    omega
  · rcases List.mem_or_eq_of_mem_set hc with hold | rfl
    · exact hs.requests c hold
    · exact hr'

theorem Sound.append (hs : Sound s) (vkey : Option VkRuntime) :
    Sound { s with requests := s.requests ++ [⟨vkey, none, none⟩] } := by
  refine ⟨fun a => ?_, hs.table, fun c hc => ?_⟩
  · show s.heap.free a + held (s.requests ++ [⟨vkey, none, none⟩]) a = s.size a
    rw [held_append]
    exact hs.slots a
  · rcases List.mem_append.mp hc with hold | hnew
    · exact hs.requests c hold
    · rw [List.mem_singleton.mp hnew]
      exact ⟨fun t ht => (by cases ht), fun t ht => (by cases ht)⟩

theorem target_eq {i : Nat} {provider : String} {r : Request} {p : ProviderRuntime}
    (h : target s i provider = some (r, p)) :
    s.requests[i]? = some r ∧ r.attempt = none ∧
      ∃ t, r.table = some t ∧ t.providers.get? provider = some p := by
  unfold target at h
  split at h
  · next vkey t hi =>
    obtain ⟨p', hp, heq⟩ := Option.map_eq_some_iff.mp h
    cases heq
    exact ⟨hi, rfl, t, rfl, hp⟩
  · cases h

theorem Sound.target (hs : Sound s) {i : Nat} {provider : String} {r : Request}
    {p : ProviderRuntime} (h : target s i provider = some (r, p)) :
    s.requests[i]? = some r ∧ r.attempt = none ∧ RequestSound s.size s.gen r ∧
      ProviderSound s.size s.gen p := by
  obtain ⟨hi, hnone, t, ht, hp⟩ := target_eq h
  have hr := hs.requests r (List.mem_of_getElem? hi)
  exact ⟨hi, hnone, hr, hr.table t ht provider p hp⟩

/-- The attempt an answer leads to. -/
theorem AttemptSound.of_answered {size : Addr → Nat} {gen : Nat} {p : ProviderRuntime} {h : Heap}
    {answer : Heap × Option KeyChoice} (hp : ProviderSound size gen p) (ha : Answered p h answer)
    {choice : KeyChoice} (hchoice : answer.2 = some choice) :
    AttemptSound size gen ⟨p, choice.key, choice.permit⟩ := by
  obtain ⟨hkey, hpermit, -⟩ := ha.admitted choice hchoice
  exact ⟨hp, hkey, hpermit⟩

theorem RequestSound.with_attempt {size : Addr → Nat} {gen : Nat} {r : Request}
    (hr : RequestSound size gen r) {t : Attempt} (ht : AttemptSound size gen t) :
    RequestSound size gen { r with attempt := some t } := by
  refine ⟨hr.table, fun t' ht' => ?_⟩
  cases ht'
  exact ht

theorem RequestSound.without_attempt {size : Addr → Nat} {gen : Nat} {r : Request}
    (hr : RequestSound size gen r) : RequestSound size gen { r with attempt := none } :=
  ⟨hr.table, fun t ht => by cases ht⟩

theorem Sound.attempts (hs : Sound s) {i : Nat} {r : Request} {p : ProviderRuntime}
    {answer : Heap × Option KeyChoice} (hi : s.requests[i]? = some r) (hnone : r.attempt = none)
    (hr : RequestSound s.size s.gen r) (hp : ProviderSound s.size s.gen p)
    (ha : Answered p s.heap answer) : Sound (attempts s i r p answer) := by
  have hholds : ∀ a, r.holds a = 0 := fun a => by unfold Request.holds; rw [hnone]
  obtain ⟨h, choice⟩ := answer
  cases choice with
  | none => exact hs.cells s.vkCells (ha.refused rfl)
  | some choice =>
    obtain ⟨-, -, hfree⟩ := ha.admitted choice rfl
    unfold Gateway.attempts
    dsimp only at hfree ⊢
    by_cases hfull : h.free p.addr = 0
    · rw [if_pos hfull]
      -- the slot of the key goes back
      refine hs.cells s.vkCells (funext fun a => ?_)
      rw [release_free]
      exact hfree a
    · rw [if_neg hfull]
      refine hs.set hi (hr.with_attempt (AttemptSound.of_answered hp ha rfl)) fun a => ?_
      have hslot := hfree a
      rw [hholds]
      show Function.update h.free p.addr (h.free p.addr - 1) a +
        ((if p.addr = a then 1 else 0) + if choice.permit = some a then 1 else 0) = _
      rw [Function.update_apply]
      by_cases haddr : a = p.addr
      · subst haddr
        rw [if_pos rfl, if_pos rfl]
        omega
      · rw [if_neg haddr, if_neg fun heq => haddr heq.symm]
        omega

theorem Sound.relays (hs : Sound s) {i : Nat} {r : Request} {p : ProviderRuntime} (needsKey : Bool)
    {answer : Heap × Option KeyChoice} (hi : s.requests[i]? = some r) (hnone : r.attempt = none)
    (hr : RequestSound s.size s.gen r) (hp : ProviderSound s.size s.gen p)
    (hfull : s.heap.free p.addr ≠ 0)
    (ha : Answered p (s.heap.setFree p.addr (s.heap.free p.addr - 1)) answer) :
    Sound (relays s i r p needsKey answer) := by
  have hholds : ∀ a, r.holds a = 0 := fun a => by unfold Request.holds; rw [hnone]
  have htaken : ∀ a, (s.heap.setFree p.addr (s.heap.free p.addr - 1)).free a +
      (if p.addr = a then 1 else 0) = s.heap.free a := by
    intro a
    show Function.update s.heap.free p.addr (s.heap.free p.addr - 1) a + _ = _
    rw [Function.update_apply]
    by_cases haddr : a = p.addr
    · subst haddr
      rw [if_pos rfl, if_pos rfl]
      omega
    · rw [if_neg haddr, if_neg fun heq => haddr heq.symm]
      rfl
  obtain ⟨h, choice⟩ := answer
  unfold Gateway.relays
  cases choice with
  | none =>
    have hsame := ha.refused rfl
    dsimp only at hsame ⊢
    cases needsKey with
    | true =>
      refine hs.cells s.vkCells (funext fun a => ?_)
      rw [release_free, hsame]
      simp only [Option.some.injEq]
      exact htaken a
    | false =>
      rw [if_neg Bool.false_ne_true]
      refine hs.set hi (hr.with_attempt ⟨hp, fun k hk => (by cases hk), rfl⟩) fun a => ?_
      rw [hholds, hsame]
      exact htaken a
  | some choice =>
    obtain ⟨-, -, hfree⟩ := ha.admitted choice rfl
    refine hs.set hi (hr.with_attempt (AttemptSound.of_answered hp ha rfl)) fun a => ?_
    have hslot := hfree a
    have hpermit := htaken a
    rw [hholds]
    show h.free a + ((if p.addr = a then 1 else 0) + if choice.permit = some a then 1 else 0) = _
    dsimp only at hslot
    omega

theorem Sound.rebuildKeys (hs : Sound s) (defs : List VirtualKeyDef) (shares : Nat) :
    Sound (rebuildKeys s defs shares) :=
  ⟨hs.slots, hs.table.later (Nat.le_succ _) fun _ _ => rfl,
    fun r hr => (hs.requests r hr).later (Nat.le_succ _) fun _ _ => rfl⟩

theorem previousKey_mem {t : RoutingTable} {provider key : String} {k : KeyRuntime}
    (h : previousKey (some t) provider key = some k) :
    k.name = key ∧ ∃ p, t.providers.get? provider = some p ∧ k ∈ p.keys := by
  unfold previousKey at h
  simp only [Option.bind_eq_bind, Option.bind_some, Option.bind_eq_some_iff] at h
  obtain ⟨p, hp, hk⟩ := h
  have hname : decide (k.name = key) = true := by simpa using List.find?_some hk
  exact ⟨of_decide_eq_true hname, p, hp, List.mem_of_find?_eq_some hk⟩

/-- The slots a key is given: none without a ceiling, the ones there were, or
its own. -/
theorem carrySlots_cases {size : Addr → Nat} {gen : Nat} {prev : Option RoutingTable}
    (hprev : ∀ t, prev = some t → TableSound size gen t) (provider key : String)
    (limit : Option Nat) (fresh : Addr) :
    (limit = none ∧ carrySlots (previousKey prev provider key) limit fresh = none) ∨
      (∃ a, carrySlots (previousKey prev provider key) limit fresh = some a ∧ a.gen ≤ gen ∧
        limit = some (size a)) ∨
      limit ≠ none ∧ carrySlots (previousKey prev provider key) limit fresh = some fresh := by
  unfold carrySlots
  cases limit with
  | none => exact Or.inl ⟨rfl, rfl⟩
  | some limit =>
    cases hkey : previousKey prev provider key with
    | none => exact Or.inr (Or.inr ⟨by simp, rfl⟩)
    | some k =>
      dsimp only
      by_cases hsame : k.maxConcurrency = some limit
      · rw [if_pos hsame]
        cases prev with
        | none => cases hkey
        | some t =>
          obtain ⟨-, p, hget, hmem⟩ := previousKey_mem hkey
          have hp := hprev t rfl provider p hget
          have hceiling := hp.ceiling k hmem
          rw [hsame, eq_comm, Option.map_eq_some_iff] at hceiling
          obtain ⟨a, ha, hsize⟩ := hceiling
          exact Or.inr (Or.inl ⟨a, ha, hp.slots k hmem a ha, by rw [hsize]⟩)
      · rw [if_neg hsame]
        exact Or.inr (Or.inr ⟨by simp, rfl⟩)

/-- A table is built with the sizes it comes with. -/
theorem tableSound_built {size : Addr → Nat} {gen : Nat} {config : Core.Live.Config}
    {prev : Option RoutingTable} {h : Heap} (hprev : ∀ t, prev = some t → TableSound size gen t)
    (hsize : ∀ a, a.gen = gen → size a = (fromConfigWith config prev gen h).2.free a) :
    TableSound size gen (fromConfigWith config prev gen h).1 := by
  intro name built hbuilt
  rw [get?_built, Option.map_eq_some_iff] at hbuilt
  obtain ⟨p, hp, rfl⟩ := hbuilt
  have hslots : ∀ k ∈ (providerRuntime gen config.breaker prev name p).keys,
      k.maxConcurrency = k.inflight.map size ∧ ∀ a, k.inflight = some a → a.gen ≤ gen := by
    intro k hk
    obtain ⟨i, hi⟩ := List.getElem?_of_mem hk
    rw [getElem?_built, Option.map_eq_some_iff] at hi
    obtain ⟨c, hc, rfl⟩ := hi
    have hfresh : size ⟨gen, name, some i⟩ = c.maxConcurrency.getD 0 := by
      rw [hsize _ rfl]
      unfold fromConfigWith
      dsimp only
      rw [if_pos rfl, hp, Option.bind_some, hc, Option.bind_some]
    show c.maxConcurrency = Option.map size (carrySlots (previousKey prev name c.name)
      c.maxConcurrency ⟨gen, name, some i⟩) ∧ ∀ a, carrySlots (previousKey prev name c.name)
      c.maxConcurrency ⟨gen, name, some i⟩ = some a → a.gen ≤ gen
    rcases carrySlots_cases hprev name c.name c.maxConcurrency ⟨gen, name, some i⟩ with
      ⟨hnone, hslot⟩ | ⟨a, hslot, hgen, hlimit⟩ | ⟨hlimit, hslot⟩
    · rw [hslot]
      exact ⟨hnone, fun a ha => by cases ha⟩
    · rw [hslot]
      refine ⟨hlimit, fun b hb => ?_⟩
      cases hb
      exact hgen
    · rw [hslot]
      obtain ⟨limit, hsome⟩ := Option.ne_none_iff_exists'.mp hlimit
      refine ⟨?_, fun b hb => ?_⟩
      · show c.maxConcurrency = some (size ⟨gen, name, some i⟩)
        rw [hfresh, hsome]
        rfl
      · cases hb
        exact le_rfl
  refine ⟨nodup_built config.breaker name p, ?_, fun k hk => (hslots k hk).1, le_rfl,
    fun k hk => (hslots k hk).2⟩
  show size ⟨gen, name, none⟩ = p.maxConcurrency
  rw [hsize _ rfl]
  unfold fromConfigWith
  dsimp only
  rw [if_pos rfl, hp]
  rfl

theorem built_free_of_ne {config : Core.Live.Config} {prev : Option RoutingTable} {gen : Nat}
    {h : Heap} {a : Addr} (ha : a.gen ≠ gen) :
    (fromConfigWith config prev gen h).2.free a = h.free a := if_neg ha

theorem Sound.rebuildTable (hs : Sound s) (config : Core.Live.Config) :
    Sound (rebuildTable s config) := by
  have hsame : ∀ a : Addr, a.gen ≤ s.gen → (Gateway.rebuildTable s config).size a = s.size a := by
    intro a ha
    show (if a.gen = s.gen + 1 then _ else s.size a) = s.size a
    rw [if_neg (by omega)]
  refine ⟨fun a => ?_, tableSound_built (fun t ht => ?_) (fun a ha => if_pos ha),
    fun r hr => (hs.requests r hr).later (Nat.le_succ _) hsame⟩
  · show (fromConfigWith config (some s.table) (s.gen + 1) s.heap).2.free a + held s.requests a =
      if a.gen = s.gen + 1 then (fromConfigWith config (some s.table) (s.gen + 1) s.heap).2.free a
      else s.size a
    by_cases ha : a.gen = s.gen + 1
    · -- nobody can hold a permit of the table that is being built
      rw [if_pos ha, held_of_lt hs.requests (by omega)]
      rfl
    · rw [if_neg ha, built_free_of_ne ha]
      exact hs.slots a
  · cases ht
    exact hs.table.later (Nat.le_succ _) hsame

theorem sound_boot (config : Core.Live.Config) (defs : List VirtualKeyDef) (shares : Nat) :
    Sound (boot config defs shares) :=
  ⟨fun _ => rfl, tableSound_built (fun t ht => by cases ht) fun _ _ => rfl,
    fun r hr => by cases hr⟩

theorem debit_free (r : Request) (tokens vkNow seatNow : Nat) :
    (debit s r tokens vkNow seatNow).heap.free = s.heap.free := by
  unfold debit
  dsimp only
  cases r.seat <;> rfl

theorem Sound.next {κ : Type} [LinearOrder κ] (hs : Sound s) {l : Label κ} {s' : State}
    (h : next s l = some s') : Sound s' := by
  cases l with
  | begin_ vkey now budgetLeft =>
    cases vkey with
    | none =>
      cases h
      exact hs.append none
    | some id =>
      obtain ⟨vk, -, rfl⟩ := Option.map_eq_some_iff.mp h
      unfold begins
      dsimp only
      split
      · exact (hs.append (some vk)).cells _ rfl
      · exact hs.cells _ rfl
  | route i =>
    unfold Gateway.next at h
    dsimp only at h
    split at h
    · next vkey t hi =>
      cases h
      refine hs.set hi ⟨fun t' ht' => ?_, (hs.requests _ (List.mem_of_getElem? hi)).attempt⟩
        fun _ => rfl
      cases ht'
      exact hs.table
    · cases h
  | attempt i provider model tenant affinity sel now =>
    obtain ⟨⟨r, p⟩, htarget, rfl⟩ := Option.map_eq_some_iff.mp h
    obtain ⟨hi, hnone, hr, hp⟩ := hs.target htarget
    exact hs.attempts hi hnone hr hp (answered hp.nodup sel model tenant affinity now s.heap)
  | relay i provider tenant needsKey sel now =>
    unfold Gateway.next at h
    dsimp only at h
    split at h
    · next r p htarget =>
      obtain ⟨hi, hnone, hr, hp⟩ := hs.target htarget
      split at h
      · cases h
        exact hs
      · next hfull =>
        cases h
        exact hs.relays needsKey hi hnone hr hp hfull (answered hp.nodup sel none tenant none now _)
    · cases h
  | report i r =>
    unfold Gateway.next at h
    dsimp only at h
    split at h
    · cases h
      exact hs.cells _ rfl
    · cases h
  | retry i =>
    unfold Gateway.next at h
    dsimp only at h
    split at h
    · next r hi =>
      cases h
      refine hs.set hi (hs.requests r (List.mem_of_getElem? hi)).without_attempt fun a => ?_
      exact returnPermits_free s.heap r a
    · cases h
  | complete i tokens vkNow seatNow =>
    unfold Gateway.next at h
    dsimp only at h
    split at h
    · next r hi =>
      cases h
      refine ⟨fun a => ?_, hs.table, fun c hc => hs.requests c (List.mem_of_mem_eraseIdx hc)⟩
      have hslots := hs.slots a
      have herased := held_eraseIdx a hi
      show (returnPermits _ r.attempt).free a + held (s.requests.eraseIdx i) a = s.size a
      rw [returnPermits_free, debit_free]
      omega
    · cases h
  | recover a config now =>
    cases h
    exact hs.cells _ rfl
  | check a config r =>
    cases h
    exact hs.cells _ rfl
  | reload config defs shares =>
    cases h
    exact (hs.rebuildKeys defs shares).rebuildTable config
  | refresh defs shares =>
    cases h
    exact hs.rebuildKeys defs shares

theorem sound_of_reach {κ : Type} [LinearOrder κ] (h : Reach (gateway κ) free s) : Sound s := by
  refine h.invariant ?_ ?_
  · rintro s ⟨config, defs, shares, rfl⟩
    exact sound_boot config defs shares
  · intro s l s' hs _ hstep
    exact hs.next hstep

end

/-! ## Admission -/

/-- The tables through which requests are admitted: the one in force, and
those that requests hold. -/
def State.tables (s : State) : List RoutingTable := s.table :: s.requests.filterMap (·.table)

theorem Sound.tables {s : State} (hs : Sound s) {t : RoutingTable} (ht : t ∈ s.tables) :
    TableSound s.size s.gen t := by
  rcases List.mem_cons.mp ht with rfl | hrequest
  · exact hs.table
  · obtain ⟨r, hr, hsome⟩ := List.mem_filterMap.mp hrequest
    exact (hs.requests r hr).table t hsome

theorem mem_tables {s : State} {t : RoutingTable} :
    t ∈ s.tables ↔ t = s.table ∨ ∃ r ∈ s.requests, r.table = some t := by
  unfold State.tables
  rw [List.mem_cons, List.mem_filterMap]

/-- A request that moves keeps the table it has loaded. -/
theorem mem_tables_set {s : State} {i : Nat} {r : Request} (hi : s.requests[i]? = some r)
    (attempt : Option Attempt) {t : RoutingTable}
    (ht : ∃ c ∈ s.requests.set i { r with attempt := attempt }, c.table = some t) :
    ∃ c ∈ s.requests, c.table = some t := by
  obtain ⟨c, hc, hloaded⟩ := ht
  rcases List.mem_or_eq_of_mem_set hc with hold | rfl
  · exact ⟨c, hold, hloaded⟩
  · exact ⟨r, List.mem_of_getElem? hi, hloaded⟩

/-- A step brings no table in but the one a reload builds. -/
theorem tables_next {κ : Type} [LinearOrder κ] {s s' : State} {l : Label κ}
    (h : next s l = some s') {t : RoutingTable} (ht : t ∈ s'.tables) :
    t ∈ s.tables ∨ ∃ config gen heap, t = (fromConfigWith config (some s.table) gen heap).1 := by
  rw [mem_tables] at ht ⊢
  cases l with
  | begin_ vkey now budgetLeft =>
    have happend : ∀ {vk : Option VkRuntime}, (∃ r ∈ s.requests ++ [⟨vk, none, none⟩],
        r.table = some t) → ∃ r ∈ s.requests, r.table = some t := by
      intro vk hloaded
      obtain ⟨r, hr, hloaded⟩ := hloaded
      rcases List.mem_append.mp hr with hold | hnew
      · exact ⟨r, hold, hloaded⟩
      · rw [List.mem_singleton.mp hnew] at hloaded
        cases hloaded
    cases vkey with
    | none =>
      cases h
      exact Or.inl (ht.imp_right happend)
    | some id =>
      obtain ⟨vk, -, rfl⟩ := Option.map_eq_some_iff.mp h
      refine Or.inl (ht.imp_right fun hloaded => ?_)
      unfold begins at hloaded
      dsimp only at hloaded
      split at hloaded
      · exact happend hloaded
      · exact hloaded
  | route i =>
    unfold Gateway.next at h
    dsimp only at h
    split at h
    · next vkey t' hi =>
      cases h
      left
      rcases ht with htable | ⟨c, hc, hloaded⟩
      · exact Or.inl htable
      · rcases List.mem_or_eq_of_mem_set hc with hold | rfl
        · exact Or.inr ⟨c, hold, hloaded⟩
        · exact Or.inl (Option.some.inj hloaded).symm
    · cases h
  | attempt i provider model tenant affinity sel now =>
    obtain ⟨⟨r, p⟩, htarget, rfl⟩ := Option.map_eq_some_iff.mp h
    obtain ⟨hi, -, -⟩ := target_eq htarget
    left
    revert ht
    dsimp only
    unfold attempts
    split
    · exact id
    · split
      · exact id
      · exact fun ht => ht.imp_right (mem_tables_set hi _)
  | relay i provider tenant needsKey sel now =>
    unfold Gateway.next at h
    dsimp only at h
    split at h
    · next r p htarget =>
      obtain ⟨hi, -, -⟩ := target_eq htarget
      left
      split at h
      · cases h
        exact ht
      · cases h
        revert ht
        unfold relays
        split
        · split
          · exact id
          · exact fun ht => ht.imp_right (mem_tables_set hi _)
        · exact fun ht => ht.imp_right (mem_tables_set hi _)
    · cases h
  | report i r =>
    unfold Gateway.next at h
    dsimp only at h
    split at h
    · cases h
      exact Or.inl ht
    · cases h
  | retry i =>
    unfold Gateway.next at h
    dsimp only at h
    split at h
    · next r hi =>
      cases h
      exact Or.inl (ht.imp_right (mem_tables_set hi _))
    · cases h
  | complete i tokens vkNow seatNow =>
    unfold Gateway.next at h
    dsimp only at h
    split at h
    · cases h
      refine Or.inl (ht.imp_right ?_)
      intro hloaded
      obtain ⟨c, hc, hloaded⟩ := hloaded
      exact ⟨c, List.mem_of_mem_eraseIdx hc, hloaded⟩
    · cases h
  | recover a config now =>
    cases h
    exact Or.inl ht
  | check a config r =>
    cases h
    exact Or.inl ht
  | reload config defs shares =>
    cases h
    rcases ht with htable | hloaded
    · exact Or.inr ⟨config, s.gen + 1 + 1, s.heap, htable⟩
    · exact Or.inl (Or.inr hloaded)
  | refresh defs shares =>
    cases h
    exact Or.inl ht

/-- What every table has that is built from one that has it. -/
theorem tables_of_reach {κ : Type} [LinearOrder κ] {P : RoutingTable → Prop}
    (hbuilt : ∀ config prev gen h, (∀ t, prev = some t → P t) → P (fromConfigWith config prev gen h).1)
    {s : State} (h : Reach (gateway κ) free s) : ∀ t ∈ s.tables, P t := by
  refine h.invariant (I := fun s => ∀ t ∈ s.tables, P t) ?_ ?_
  · rintro s ⟨config, defs, shares, rfl⟩ t ht
    rcases mem_tables.mp ht with rfl | ⟨r, hr, -⟩
    · exact hbuilt config none 0 Heap.empty fun t ht => by cases ht
    · cases hr
  · intro s l s' hs _ hstep t ht
    rcases tables_next hstep ht with hold | ⟨config, gen, heap, rfl⟩
    · exact hs t hold
    · refine hbuilt config _ gen heap fun t ht => ?_
      cases ht
      exact hs s.table List.mem_cons_self

/-- The permits of a provider are not the slots of a key. -/
structure SlotsApart (p : ProviderRuntime) : Prop where
  permits : p.addr.key = none
  slots : ∀ k ∈ p.keys, ∀ a, k.inflight = some a → a.key ≠ none

theorem apart_of_reach {κ : Type} [LinearOrder κ] {s : State} (h : Reach (gateway κ) free s) :
    ∀ t ∈ s.tables, ∀ name p, t.providers.get? name = some p → SlotsApart p := by
  refine tables_of_reach (fun config prev gen heap hprev name built hbuilt => ?_) h
  rw [get?_built, Option.map_eq_some_iff] at hbuilt
  obtain ⟨p, -, rfl⟩ := hbuilt
  refine ⟨rfl, fun k hk a ha => ?_⟩
  obtain ⟨i, hi⟩ := List.getElem?_of_mem hk
  rw [getElem?_built, Option.map_eq_some_iff] at hi
  obtain ⟨c, -, rfl⟩ := hi
  have hslot : carrySlots (previousKey prev name c.name) c.maxConcurrency ⟨gen, name, some i⟩ =
      some a := ha
  have hfresh : ⟨gen, name, some i⟩ = a → a.key ≠ none := by
    intro heq hnone
    rw [← heq] at hnone
    cases hnone
  unfold carrySlots at hslot
  split at hslot
  · cases hslot
  · split at hslot
    · next old hold =>
      split at hslot
      · -- the slots of the key before it
        cases prev with
        | none => cases hold
        | some t =>
          obtain ⟨-, q, hq, hmem⟩ := previousKey_mem hold
          exact (hprev t rfl name q hq).slots old hmem a hslot
      · exact hfresh (Option.some.inj hslot)
    · exact hfresh (Option.some.inj hslot)

/-- What holds of every provider of a table: an answer means what `AdmitLaw`
says, whoever asks, and no key has more requests than its ceiling. -/
structure Admits (κ : Type) [LinearOrder κ] (s : State) (p : ProviderRuntime) : Prop where
  law : ∀ (sel : Selection κ) (model tenant affinity : Option String) (now : Nat),
    AdmitLaw p model tenant now s.heap (admitFor sel p model tenant affinity now s.heap)
  ceiling : ∀ k ∈ p.keys, ∀ limit, k.maxConcurrency = some limit →
    ∃ a, k.inflight = some a ∧ held s.requests a ≤ limit

/-- Over every run of requests, outcomes and reloads. -/
theorem admission_law {κ : Type} [LinearOrder κ] {s : State} (h : Reach (gateway κ) free s) :
    ∀ t ∈ s.tables, ∀ name p, t.providers.get? name = some p → Admits κ s p := by
  intro t ht name p hp
  have hs := sound_of_reach h
  have hsound := hs.tables ht name p hp
  refine ⟨fun sel model tenant affinity now => admit_law sel hsound.nodup model tenant affinity now _,
    fun k hk limit hlimit => ?_⟩
  have hceiling := hsound.ceiling k hk
  rw [hlimit, eq_comm, Option.map_eq_some_iff] at hceiling
  obtain ⟨a, ha, hsize⟩ := hceiling
  have hslots := hs.slots a
  exact ⟨a, ha, by omega⟩

/-- A pool of one seat that takes one request at a time. -/
def oneSeat : Core.Live.Config :=
  ⟨⟨1, 100, 10⟩,
    OrdMap.empty.insert "openai" ⟨.openAi, [⟨"seat", 1, none, none, none, some 600, some 1⟩], 8⟩⟩

/-- Dispatches alone, and no coin is tossed. -/
def leastUsed : Selection Nat := ⟨fun leases _ => leases, fun _ _ => 0, fun _ _ => false⟩

/-- A request is admitted to the seat. -/
def seated : List (Label Nat) :=
  [.begin_ none 0 true, .route 0, .attempt 0 "openai" none none none leastUsed 0]

/-- With its one slot taken. -/
theorem admission_law_seated : ∃ s, Reach (gateway Nat) free s ∧
    held s.requests ⟨0, "openai", some 0⟩ = 1 ∧
    ∀ t ∈ s.tables, ∀ name p, t.providers.get? name = some p → Admits Nat s p := by
  have hreach : Reach (gateway Nat) free ((run next (boot oneSeat [] 1) seated).get (by decide)) :=
    Reach.of_run seated (.start ⟨oneSeat, [], 1, rfl⟩) (by decide) (Option.some_get _).symm
  exact ⟨_, hreach, by decide, admission_law hreach⟩

end RapidRouter.Server.Gateway
