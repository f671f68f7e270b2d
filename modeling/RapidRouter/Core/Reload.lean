import RapidRouter.Core.Live

/-!
# Rebuilding the routing table

`RoutingTable::from_config_with`: every configuration that is adopted builds
a table of new runtime cells, and carries over what it finds under the same
provider and key name. Of a key that is its buckets, its slots when the
ceiling is the same, and its dispatch count; its breaker starts anew, and so
do the provider's own breaker and semaphore.

A bucket is carried with the capacity and the refill rate it was made with.
`reload_limits` says what that means for the limits of the new configuration:
they are enforced where a key had no bucket, or has no limit any more, or had
a bucket of the size its new limit asks for.
-/

namespace RapidRouter.Core.Live

open TokenBucket (Bucket Limits)

/-- A key as the configuration declares it. -/
structure ApiKey where
  name : String
  weight : Rat
  models : Option (List String)
  tenant : Option String
  rpm : Option Nat
  tpm : Option Nat
  maxConcurrency : Option Nat
  deriving DecidableEq

structure ProviderConfig where
  kind : ProviderKind
  keys : List ApiKey
  maxConcurrency : Nat
  deriving DecidableEq

/-- The part of a configuration the runtime of a table is made of. -/
structure Config where
  breaker : Breaker.Config
  providers : OrdMap String ProviderConfig

structure RoutingTable where
  providers : OrdMap String ProviderRuntime

/-- `previous_key`: the key of the same provider and name. -/
def previousKey (prev : Option RoutingTable) (provider key : String) : Option KeyRuntime := do
  let t ← prev
  let p ← t.providers.get? provider
  p.keys.find? (·.name = key)

/-- A minute's worth of capacity, refilled per second (`div_ceil`). -/
def newBucket (limit : Nat) : Bucket := .new limit ((limit + 59) / 60)

/-- `carry_bucket`. -/
def carryBucket (prev : Option Bucket) (limit : Option Nat) : Option Bucket :=
  match prev, limit with
  | some bucket, some _ => some bucket.cloneState
  | none, some limit => some (newBucket limit)
  | _, none => none

/-- `carry_slots`, with the semaphore a key without one to carry gets. -/
def carrySlots (prev : Option KeyRuntime) (limit : Option Nat) (fresh : Addr) : Option Addr :=
  match limit with
  | none => none
  | some limit =>
    match prev with
    | some p => if p.maxConcurrency = some limit then p.inflight else some fresh
    | none => some fresh

section
variable (gen : Nat) (breaker : Breaker.Config) (prev : Option RoutingTable) (provider : String)

/-- One key of the new table. -/
def keyRuntime (i : Nat) (k : ApiKey) : KeyRuntime where
  name := k.name
  models := k.models
  tenant := k.tenant
  weight := k.weight
  breaker := breaker
  maxConcurrency := k.maxConcurrency
  inflight := carrySlots (previousKey prev provider k.name) k.maxConcurrency
    ⟨gen, provider, some i⟩
  addr := ⟨gen, provider, some i⟩

/-- The least dispatch count of a pool: where a key new to it starts. -/
def floor (h : Heap) : Nat :=
  (do
    let t ← prev
    let p ← t.providers.get? provider
    (p.keys.map fun (k : KeyRuntime) => (h.cells k.addr).leases).min?).getD 0

/-- The cells it starts with. -/
def keyCells (h : Heap) (k : ApiKey) : Cells :=
  let old := (previousKey prev provider k.name).map fun p => h.cells p.addr
  { breaker := Breaker.Shared.new
    rpm := carryBucket (old.bind (·.rpm)) k.rpm
    tpm := carryBucket (old.bind (·.tpm)) k.tpm
    leases := (old.map (·.leases)).getD (floor prev provider h) }

end

def providerRuntime (gen : Nat) (breaker : Breaker.Config) (prev : Option RoutingTable)
    (name : String) (p : ProviderConfig) : ProviderRuntime where
  name := name
  kind := p.kind
  keys := p.keys.mapIdx (keyRuntime gen breaker prev name)
  breaker := breaker
  maxConcurrency := p.maxConcurrency
  addr := ⟨gen, name, none⟩

/-- The cells of a provider itself: only its breaker is used. -/
def providerCells : Cells := ⟨.new, none, none, 0⟩

/-- `from_config_with`: the table, and its cells beside those of the tables
before it. `gen` tells them apart. -/
def fromConfigWith (config : Config) (prev : Option RoutingTable) (gen : Nat) (h : Heap) :
    RoutingTable × Heap :=
  (⟨config.providers.mapWithKey (providerRuntime gen config.breaker prev)⟩,
    { cells := fun a =>
        if a.gen = gen then
          match a.key with
          | none => providerCells
          | some i =>
            match (config.providers.get? a.provider).bind (·.keys[i]?) with
            | some k => keyCells prev a.provider h k
            | none => providerCells
        else h.cells a
      free := fun a =>
        if a.gen = gen then
          match a.key with
          | none => ((config.providers.get? a.provider).map (·.maxConcurrency)).getD 0
          | some i =>
            (((config.providers.get? a.provider).bind (·.keys[i]?)).bind (·.maxConcurrency)).getD 0
        else h.free a })

/-! ## The table that is built -/

section
variable {config : Config} {prev : Option RoutingTable} {gen : Nat} {h : Heap}

theorem get?_built (name : String) :
    (fromConfigWith config prev gen h).1.providers.get? name =
      (config.providers.get? name).map (providerRuntime gen config.breaker prev name) :=
  OrdMap.get?_mapWithKey _ _ name

theorem getElem?_built (breaker : Breaker.Config) (name : String) (p : ProviderConfig) (i : Nat) :
    (providerRuntime gen breaker prev name p).keys[i]? =
      (p.keys[i]?).map (keyRuntime gen breaker prev name i) :=
  List.getElem?_mapIdx ..

/-- The keys of a built provider have cells of their own. -/
theorem nodup_built (breaker : Breaker.Config) (name : String) (p : ProviderConfig) :
    ((providerRuntime gen breaker prev name p).keys.map (·.addr)).Nodup := by
  refine List.pairwise_iff_getElem.mpr fun i j hi hj hij haddr => ?_
  have hat : ∀ n (hn : n < ((providerRuntime gen breaker prev name p).keys.map (·.addr)).length),
      ((providerRuntime gen breaker prev name p).keys.map (·.addr))[n] = ⟨gen, name, some n⟩ := by
    intro n hn
    rw [List.getElem_map]
    unfold providerRuntime
    dsimp only
    rw [List.getElem_mapIdx]
    rfl
  rw [hat, hat, Addr.mk.injEq, Option.some.injEq] at haddr
  omega

/-- The cells of a key of the new table. -/
theorem cells_built {name : String} {p : ProviderConfig} {i : Nat} {k : ApiKey}
    (hp : config.providers.get? name = some p) (hk : p.keys[i]? = some k) :
    (fromConfigWith config prev gen h).2.cells ⟨gen, name, some i⟩ = keyCells prev name h k := by
  unfold fromConfigWith
  dsimp only
  rw [if_pos rfl, hp, Option.bind_some, hk]

end

/-! ## The limits of the new configuration -/

/-- A bucket enforces a limit: its capacity and refill rate are the limit's,
and there is one exactly when there is a limit. -/
def Enforces (limit : Option Nat) (bucket : Option Bucket) : Prop :=
  bucket.map (·.limits) = limit.map fun l => (newBucket l).limits

instance (limit : Option Nat) (bucket : Option Bucket) : Decidable (Enforces limit bucket) :=
  inferInstanceAs (Decidable (_ = _))

/-- What a rebuild owes a bucket: the new limit is enforced, and a balance the
limit did not change for is kept. -/
structure Carried (old : Option Bucket) (limit : Option Nat) (new : Option Bucket) : Prop where
  enforces : Enforces limit new
  keeps : ∀ b, old = some b → Enforces limit old → new = some b

/-- The bucket a key has is of the size its limit asks for, if it has both. -/
def Sized (old : Option Bucket) (limit : Option Nat) : Prop :=
  ∀ b l, old = some b → limit = some l → b.limits = (newBucket l).limits

theorem carryBucket_iff (old : Option Bucket) (limit : Option Nat) :
    Carried old limit (carryBucket old limit) ↔ Sized old limit := by
  constructor
  · intro hcarried b l hb hl
    subst hb
    subst hl
    exact Option.some.inj hcarried.enforces
  · intro hsized
    cases limit with
    | none =>
      cases old with
      | none => exact ⟨rfl, fun b hb => by cases hb⟩
      | some b => exact ⟨rfl, fun b _ henforces => by cases henforces⟩
    | some l =>
      cases old with
      | none => exact ⟨rfl, fun b hb => by cases hb⟩
      | some b => exact ⟨congrArg some (hsized b l rfl rfl), fun b hb _ => hb⟩

/-- What a rebuild owes the buckets of every key of the new configuration. -/
def LimitsLaw (config : Config) (prev : Option RoutingTable) (gen : Nat) (h : Heap) : Prop :=
  ∀ name p (i : Nat) (k : ApiKey), config.providers.get? name = some p → p.keys[i]? = some k →
    let old := (previousKey prev name k.name).map fun key => h.cells key.addr
    let new := (fromConfigWith config prev gen h).2.cells
      (keyRuntime gen config.breaker prev name i k).addr
    Carried (old.bind (·.rpm)) k.rpm new.rpm ∧ Carried (old.bind (·.tpm)) k.tpm new.tpm

/-- Every table and every state of it, and every new configuration. -/
theorem reload_limits (config : Config) (prev : Option RoutingTable) (gen : Nat) (h : Heap) :
    LimitsLaw config prev gen h ↔
      ∀ name p (i : Nat) (k : ApiKey), config.providers.get? name = some p → p.keys[i]? = some k →
        let old := (previousKey prev name k.name).map fun key => h.cells key.addr
        Sized (old.bind (·.rpm)) k.rpm ∧ Sized (old.bind (·.tpm)) k.tpm := by
  unfold LimitsLaw
  refine forall₄_congr fun name p i k => forall₂_congr fun hp hk => ?_
  dsimp only
  rw [← carryBucket_iff, ← carryBucket_iff]
  show Carried _ _ ((fromConfigWith config prev gen h).2.cells ⟨gen, name, some i⟩).rpm ∧
    Carried _ _ ((fromConfigWith config prev gen h).2.cells ⟨gen, name, some i⟩).tpm ↔ _
  rw [cells_built hp hk]
  exact Iff.rfl

def Heap.empty : Heap := ⟨fun _ => providerCells, fun _ => 0⟩

/-- A pool of one key that may take so many requests a minute. -/
def limitedTo (rpm : Nat) : Config :=
  ⟨⟨1, 100, 10⟩,
    OrdMap.empty.insert "openai" ⟨.openAi, [⟨"slow", 1, none, none, some rpm, none, none⟩], 8⟩⟩

/-- A limit lowered from 60 to 6 is not enforced: the bucket keeps the capacity
of 60. -/
theorem lowered_limit_not_enforced :
    ¬ ∀ config prev gen h, LimitsLaw config prev gen h := by
  intro hlaw
  let built := fromConfigWith (limitedTo 60) none 0 Heap.empty
  have hlowered := (hlaw (limitedTo 6) (some built.1) 1 built.2 "openai" _ 0 _ rfl rfl).1.enforces
  exact absurd hlowered (by decide)

end RapidRouter.Core.Live
