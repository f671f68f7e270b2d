import RapidRouter.Core.Bucket
import RapidRouter.Core.Router
import RapidRouter.Core.Tumbling

/-!
# Admitting a request to a key

`KeyRuntime` and `ProviderRuntime` of `router-core/src/router.rs` with their
shared state: a breaker, two buckets and a dispatch count for each key, and
semaphores. A table never changes; what changes lives in a `Heap`, under the
address of the key that owns it, so a request that holds an old table works
on the old cells.

`admitFor` is the selection: the seat a session is pinned to, then the key
furthest behind its share, then the one after that, and at last a probe of a
key that is not healthy. An attempt that fails leaves a bucket refilled and
nothing else (`Asked`), so every attempt meets what the first one did, and
`admit_law` says what an answer means in the state the call began in.

Calls are taken one at a time. The quotient of a dispatch count and a weight
is a parameter, as are the score of a session on a seat and the coin that
settles ties (`Selection`).
-/

namespace RapidRouter.Core

namespace Live

open TokenBucket (Bucket)

/-- Where the state of one key lives, or that of a provider. -/
structure Addr where
  gen : Nat
  provider : String
  key : Option Nat
  deriving DecidableEq

structure Cells where
  breaker : Breaker.Shared
  rpm : Option Bucket
  tpm : Option Bucket
  leases : Nat

structure Heap where
  cells : Addr → Cells
  /-- `available_permits` of each semaphore. -/
  free : Addr → Nat

structure KeyRuntime extends Core.KeyRuntime where
  weight : Rat
  breaker : Breaker.Config
  maxConcurrency : Option Nat
  /-- The semaphore of the key's slots. -/
  inflight : Option Addr
  addr : Addr
  deriving DecidableEq

structure ProviderRuntime where
  name : String
  kind : ProviderKind
  keys : List KeyRuntime
  /-- Of the breaker for keyless providers, and of every other one's too. -/
  breaker : Breaker.Config
  maxConcurrency : Nat
  /-- Of `provider_breaker` and `semaphore`. -/
  addr : Addr
  deriving DecidableEq

/-- The provider without its shared state. -/
def ProviderRuntime.static (p : ProviderRuntime) : Core.ProviderRuntime :=
  ⟨p.name, p.kind, p.keys.map (·.toKeyRuntime)⟩

/-- `eligible`: a relayed request names no model. -/
def ProviderRuntime.eligible (p : ProviderRuntime) (model : Option String) : List KeyRuntime :=
  p.keys.filter fun k => model.all fun m => k.models.all (·.contains m)

/-- `owned_by`. -/
def ProviderRuntime.ownedBy (p : ProviderRuntime) (key : KeyRuntime) (tenant : Option String) :
    Bool :=
  p.static.ownedBy key.toKeyRuntime tenant

structure KeyChoice where
  key : Option KeyRuntime
  admission : Breaker.Admission
  /-- The semaphore a slot was taken of. -/
  permit : Option Addr
  deriving DecidableEq

/-! ## The shared state of a key -/

def Heap.setCells (h : Heap) (a : Addr) (c : Cells) : Heap :=
  { h with cells := Function.update h.cells a c }

def Heap.setFree (h : Heap) (a : Addr) (n : Nat) : Heap :=
  { h with free := Function.update h.free a n }

/-- The token limiter of `try_admit_request`: a take of nothing credits the
time passed. -/
def Cells.tokensLeft (c : Cells) (now : Nat) : Cells × Bool :=
  match c.tpm with
  | none => (c, true)
  | some tpm =>
    let tpm := (tpm.tryConsume 0 now).1
    ({ c with tpm := some tpm }, tpm.availableTokens ≠ 0)

/-- Its request limiter. -/
def Cells.takeRequest (c : Cells) (now : Nat) : Cells × Bool :=
  match c.rpm with
  | none => (c, true)
  | some rpm =>
    let (rpm, took) := rpm.tryConsume 1 now
    ({ c with rpm := some rpm }, took)

/-- `try_admit_request`. -/
def Cells.tryAdmitRequest (c : Cells) (now : Nat) : Cells × Bool :=
  let (c, left) := c.tokensLeft now
  if left then c.takeRequest now else (c, false)

/-- `try_reserve_slot`. -/
def tryReserveSlot (h : Heap) (k : KeyRuntime) : Option (Heap × Option Addr) :=
  match k.inflight with
  | none => some (h, none)
  | some a => if h.free a = 0 then none else some (h.setFree a (h.free a - 1), some a)

/-- A permit is dropped. -/
def release (h : Heap) : Option Addr → Heap
  | none => h
  | some a => h.setFree a (h.free a + 1)

/-- `admit_now`. -/
def admitNow (h : Heap) (k : KeyRuntime) (now : Nat) : Heap × Option (Option Addr) :=
  match tryReserveSlot h k with
  | none => (h, none)
  | some (h, permit) =>
    let (c, admitted) := (h.cells k.addr).tryAdmitRequest now
    let h := h.setCells k.addr c
    if admitted then (h, some permit) else (release h permit, none)

/-- `take_lease`. -/
def takeLease (h : Heap) (k : KeyRuntime) : Heap :=
  h.setCells k.addr { h.cells k.addr with leases := ((h.cells k.addr).leases + 1) % 2 ^ 64 }

/-! ## Choosing a key -/

/-- What the choice of a key draws on besides the heap. -/
structure Selection (κ : Type) where
  /-- Dispatches per unit of weight. -/
  share : Nat → Rat → κ
  /-- `rendezvous_score`. -/
  score : String → String → Nat
  /-- Whether a key takes over from one it is level with, in each round. -/
  coin : Nat → Nat → Bool

variable {κ : Type} [LinearOrder κ] (sel : Selection κ)

def share (h : Heap) (k : KeyRuntime) : κ := sel.share (h.cells k.addr).leases k.weight

/-- `pinned_seat`: the last of the best scores. -/
def pinnedSeat (session : String) (keys : List KeyRuntime) : Option KeyRuntime :=
  keys.foldl (fun best k =>
    match best with
    | none => some k
    | some b => if sel.score session b.name ≤ sel.score session k.name then some k else some b) none

/-- The pass of `balanced_pick` over the keys after the first. -/
def levelWith (h : Heap) (coin : Nat → Bool) : KeyRuntime → Nat → List KeyRuntime → KeyRuntime
  | best, _, [] => best
  | best, i, k :: rest =>
    if share sel h k < share sel h best then levelWith h coin k (i + 1) rest
    else if share sel h k = share sel h best ∧ coin i then levelWith h coin k (i + 1) rest
    else levelWith h coin best (i + 1) rest

/-- `balanced_pick`. -/
def balancedPick (h : Heap) (coin : Nat → Bool) : List KeyRuntime → Option KeyRuntime
  | [] => none
  | k :: rest => some (levelWith sel h coin k 0 rest)

/-- The loop over the candidates; each round drops one of them. -/
def levelled (now : Nat) : (fuel round : Nat) → List KeyRuntime → Heap → Heap × Option KeyChoice
  | 0, _, _, h => (h, none)
  | fuel + 1, round, candidates, h =>
    match balancedPick sel h (sel.coin round) candidates with
    | none => (h, none)
    | some picked =>
      match admitNow h picked now with
      | (h, some permit) => (takeLease h picked, some ⟨some picked, .yes, permit⟩)
      | (h, none) => levelled now fuel (round + 1) (candidates.filter (·.addr ≠ picked.addr)) h

/-- The pass over the keys when nothing healthy was admitted. -/
def recovering (now : Nat) : List KeyRuntime → Heap → Heap × Option KeyChoice
  | [], h => (h, none)
  | key :: rest, h =>
    let (breaker, admission) := Breaker.admitAlone key.breaker (h.cells key.addr).breaker now
    let h := h.setCells key.addr { h.cells key.addr with breaker := breaker }
    match admission with
    | .no => recovering now rest h
    | .yes =>
      match admitNow h key now with
      | (h, some permit) => (takeLease h key, some ⟨some key, .yes, permit⟩)
      | (h, none) => recovering now rest h
    | .probe =>
      match tryReserveSlot h key with
      | some (h, permit) => (takeLease h key, some ⟨some key, .probe, permit⟩)
      | none => recovering now rest h

/-- `looks_healthy`. -/
def looksHealthy (h : Heap) (k : KeyRuntime) (now : Nat) : Bool :=
  Breaker.isClosed (h.cells k.addr).breaker &&
    !Breaker.isBenched (h.cells k.addr).breaker.benchUntilMs now

/-- The keys this caller may spend. -/
def ProviderRuntime.candidates (p : ProviderRuntime) (model tenant : Option String) :
    List KeyRuntime :=
  (p.eligible model).filter (p.ownedBy · tenant)

/-- The healthy keys, but for the pinned seat when that one just refused. -/
def afterPin (now : Nat) (affinity : Option String) (healthy : List KeyRuntime) (h : Heap) :
    Heap × (List KeyRuntime ⊕ KeyChoice) :=
  match affinity with
  | none => (h, .inl healthy)
  | some session =>
    match pinnedSeat sel session healthy with
    | none => (h, .inl healthy)
    | some pinned =>
      match admitNow h pinned now with
      | (h, some permit) => (takeLease h pinned, .inr ⟨some pinned, .yes, permit⟩)
      | (h, none) => (h, .inl (healthy.filter (·.addr ≠ pinned.addr)))

/-- `admit_for`. -/
def admitFor (p : ProviderRuntime) (model tenant affinity : Option String) (now : Nat) (h : Heap) :
    Heap × Option KeyChoice :=
  if p.keys = [] then
    let (breaker, admission) := Breaker.admitAlone p.breaker (h.cells p.addr).breaker now
    let h := h.setCells p.addr { h.cells p.addr with breaker := breaker }
    (h, if admission = .no then none else some ⟨none, admission, none⟩)
  else
    let eligible := p.candidates model tenant
    if eligible = [] then (h, none)
    else
      let healthy := eligible.filter (looksHealthy h · now)
      match afterPin sel now affinity healthy h with
      | (h, .inr choice) => (h, some choice)
      | (h, .inl candidates) =>
        match levelled sel now candidates.length 0 candidates h with
        | (h, some choice) => (h, some choice)
        | (h, none) =>
          recovering now (eligible.insertionSort fun a b => share sel h a ≤ share sel h b) h

/-! ## What a key has left -/

/-- What a key can spend, refilled to a reading, and what it has served. -/
structure Stock where
  rpm : Option Bucket
  tpm : Option Bucket
  leases : Nat

def Cells.stock (now : Nat) (c : Cells) : Stock :=
  ⟨c.rpm.map (·.refill now), c.tpm.map (·.refill now), c.leases⟩

/-- A request of the minute, and tokens left. -/
def Stock.headroom (t : Stock) : Bool :=
  (t.tpm.all fun b => b.availableTokens ≠ 0) && t.rpm.all fun b => 1000 ≤ b.available

/-- One request of the minute less. -/
def Stock.spend (t : Stock) : Stock :=
  { t with rpm := t.rpm.map fun b => { b with available := b.available - 1000 } }

def Stock.lease (t : Stock) : Stock := { t with leases := (t.leases + 1) % 2 ^ 64 }

theorem tryConsume_one (b : Bucket) (now : Nat) :
    b.tryConsume 1 now =
      if 1000 ≤ (b.refill now).available then
        ({ b.refill now with available := (b.refill now).available - 1000 }, true)
      else (b.refill now, false) := by
  have hone : TokenBucket.wrappingMul 1 1000 = 1000 := rfl
  unfold Bucket.tryConsume
  dsimp only
  rw [hone]
  by_cases hleft : 1000 ≤ (b.refill now).available
  · rw [if_neg (not_lt.mpr hleft), if_pos hleft]
  · rw [if_pos (not_le.mp hleft), if_neg hleft]

theorem tokensLeft_eq (c : Cells) (now : Nat) :
    (c.tokensLeft now).2 = (c.stock now).tpm.all (·.availableTokens ≠ 0) ∧
      (c.tokensLeft now).1.breaker = c.breaker ∧ (c.tokensLeft now).1.stock now = c.stock now := by
  obtain ⟨breaker, rpm, tpm, leases⟩ := c
  cases tpm with
  | none => exact ⟨rfl, rfl, rfl⟩
  | some tpm =>
    unfold Cells.tokensLeft
    dsimp only
    rw [Bucket.tryConsume_zero]
    refine ⟨rfl, rfl, ?_⟩
    show (⟨_, some ((tpm.refill now).refill now), _⟩ : Stock) = _
    rw [Bucket.refill_refill]
    rfl

theorem takeRequest_eq (c : Cells) (now : Nat) :
    (c.takeRequest now).2 = (c.stock now).rpm.all (1000 ≤ ·.available) ∧
      (c.takeRequest now).1.breaker = c.breaker ∧
      (c.takeRequest now).1.stock now =
        if (c.stock now).rpm.all (1000 ≤ ·.available) then (c.stock now).spend else c.stock now := by
  obtain ⟨breaker, rpm, tpm, leases⟩ := c
  cases rpm with
  | none => exact ⟨rfl, rfl, rfl⟩
  | some rpm =>
    unfold Cells.takeRequest
    dsimp only
    rw [tryConsume_one]
    by_cases hleft : 1000 ≤ (rpm.refill now).available
    · have hall : (Cells.stock now ⟨breaker, some rpm, tpm, leases⟩).rpm.all (1000 ≤ ·.available) =
          true := decide_eq_true hleft
      rw [if_pos hleft, hall]
      refine ⟨rfl, rfl, ?_⟩
      -- a bucket stays refilled when something is taken of it
      have htaken : ({ rpm.refill now with
          available := (rpm.refill now).available - 1000 } : Bucket).refill now =
          { rpm.refill now with available := (rpm.refill now).available - 1000 } :=
        Bucket.refill_of_le (Bucket.le_refill rpm now)
      show (⟨some (({ rpm.refill now with
        available := (rpm.refill now).available - 1000 } : Bucket).refill now), _, _⟩ : Stock) = _
      rw [htaken]
      rfl
    · have hall : (Cells.stock now ⟨breaker, some rpm, tpm, leases⟩).rpm.all (1000 ≤ ·.available) =
          false := decide_eq_false hleft
      rw [if_neg hleft, hall]
      refine ⟨rfl, rfl, ?_⟩
      show (⟨some ((rpm.refill now).refill now), _, _⟩ : Stock) = _
      rw [Bucket.refill_refill]
      rfl

theorem tryAdmitRequest_eq (c : Cells) (now : Nat) :
    (c.tryAdmitRequest now).2 = (c.stock now).headroom ∧
      (c.tryAdmitRequest now).1.breaker = c.breaker ∧
      (c.tryAdmitRequest now).1.stock now =
        if (c.stock now).headroom then (c.stock now).spend else c.stock now := by
  obtain ⟨htokens, hbreaker, hstock⟩ := tokensLeft_eq c now
  obtain ⟨hrequest, hbreaker', hstock'⟩ := takeRequest_eq (c.tokensLeft now).1 now
  rw [hstock] at hrequest hstock'
  unfold Cells.tryAdmitRequest Stock.headroom
  dsimp only
  rw [htokens]
  cases (c.stock now).tpm.all (·.availableTokens ≠ 0) with
  | false => exact ⟨rfl, hbreaker, hstock⟩
  | true => exact ⟨hrequest, hbreaker'.trans hbreaker, hstock'⟩

/-! ## One attempt on a key -/

/-- A slot is free. -/
def slotFree (h : Heap) (k : KeyRuntime) : Bool := k.inflight.all (h.free · ≠ 0)

/-- A key takes a request at a reading. -/
def takes (h : Heap) (k : KeyRuntime) (now : Nat) : Bool :=
  slotFree h k && ((h.cells k.addr).stock now).headroom

/-- The semaphores once a slot is taken. -/
def reserved (free : Addr → Nat) : Option Addr → Addr → Nat
  | none => free
  | some a => Function.update free a (free a - 1)

/-- What a call may leave behind of the attempts that failed: buckets
refilled, and the breakers of the keys it visited. -/
structure Asked (now : Nat) (visited : List Addr) (h h' : Heap) : Prop where
  free : h'.free = h.free
  stock : ∀ a, (h'.cells a).stock now = (h.cells a).stock now
  breaker : ∀ a, a ∉ visited → (h'.cells a).breaker = (h.cells a).breaker

theorem Asked.refl (now : Nat) (h : Heap) : Asked now [] h h := ⟨rfl, fun _ => rfl, fun _ _ => rfl⟩

theorem Asked.trans {now : Nat} {xs ys : List Addr} {h h' h'' : Heap} (h₁ : Asked now xs h h')
    (h₂ : Asked now ys h' h'') : Asked now (xs ++ ys) h h'' := by
  refine ⟨h₂.free.trans h₁.free, fun a => (h₂.stock a).trans (h₁.stock a), fun a ha => ?_⟩
  rw [List.mem_append, not_or] at ha
  exact (h₂.breaker a ha.2).trans (h₁.breaker a ha.1)

section
variable {now : Nat} {visited : List Addr} {h h' : Heap}

theorem Asked.slotFree (hasked : Asked now visited h h') (k : KeyRuntime) :
    slotFree h' k = slotFree h k := by
  unfold Live.slotFree
  rw [hasked.free]

theorem Asked.takes (hasked : Asked now visited h h') (k : KeyRuntime) :
    takes h' k now = takes h k now := by
  unfold Live.takes
  rw [hasked.slotFree, hasked.stock]

/-- What a call leaves behind when it admits a request to a key. -/
structure Granted (now : Nat) (visited : List Addr) (h h' : Heap) (k : KeyRuntime)
    (admission : Breaker.Admission) : Prop where
  free : h'.free = reserved h.free k.inflight
  stock : ∀ a, (h'.cells a).stock now =
    if a = k.addr then
      (if admission = .probe then (h.cells a).stock now else ((h.cells a).stock now).spend).lease
    else (h.cells a).stock now
  breaker : ∀ a, a ∉ visited → (h'.cells a).breaker = (h.cells a).breaker

theorem Asked.granted {ys : List Addr} {h'' : Heap} {k : KeyRuntime} {admission : Breaker.Admission}
    (h₁ : Asked now visited h h') (h₂ : Granted now ys h' h'' k admission) :
    Granted now (visited ++ ys) h h'' k admission := by
  refine ⟨by rw [h₂.free, h₁.free], fun a => by rw [h₂.stock, h₁.stock], fun a ha => ?_⟩
  rw [List.mem_append, not_or] at ha
  exact (h₂.breaker a ha.2).trans (h₁.breaker a ha.1)

theorem tryReserveSlot_eq (h : Heap) (k : KeyRuntime) :
    tryReserveSlot h k =
      if slotFree h k then some ({ h with free := reserved h.free k.inflight }, k.inflight)
      else none := by
  unfold tryReserveSlot Live.slotFree
  cases k.inflight with
  | none => rfl
  | some a =>
    by_cases hnone : h.free a = 0
    · simp [hnone]
    · simp [hnone, reserved, Heap.setFree]

/-- A slot given back. -/
theorem release_reserved (h : Heap) {k : KeyRuntime} (hslot : slotFree h k = true) :
    (release { h with free := reserved h.free k.inflight } k.inflight) = h := by
  unfold Live.slotFree at hslot
  cases hk : k.inflight with
  | none => rfl
  | some a =>
    rw [hk] at hslot
    have hsome : h.free a ≠ 0 := of_decide_eq_true hslot
    unfold release reserved Heap.setFree
    dsimp only
    rw [Function.update_self, Function.update_idem]
    have hback : h.free a - 1 + 1 = h.free a := by omega
    rw [hback, Function.update_eq_self]

@[simp] theorem setCells_free (h : Heap) (a : Addr) (c : Cells) : (h.setCells a c).free = h.free :=
  rfl

theorem setCells_cells (h : Heap) (a b : Addr) (c : Cells) :
    (h.setCells a c).cells b = if b = a then c else h.cells b := Function.update_apply h.cells a c b

theorem release_setCells (h : Heap) (a : Addr) (c : Cells) (permit : Option Addr) :
    release (h.setCells a c) permit = (release h permit).setCells a c := by
  cases permit <;> rfl

theorem takeLease_stock (h : Heap) (k : KeyRuntime) (a : Addr) :
    ((takeLease h k).cells a).stock now =
      if a = k.addr then ((h.cells a).stock now).lease else (h.cells a).stock now := by
  unfold takeLease
  rw [setCells_cells]
  by_cases ha : a = k.addr
  · subst ha
    rw [if_pos rfl, if_pos rfl]
    rfl
  · rw [if_neg ha, if_neg ha]

theorem takeLease_breaker (h : Heap) (k : KeyRuntime) (a : Addr) :
    ((takeLease h k).cells a).breaker = (h.cells a).breaker := by
  unfold takeLease
  rw [setCells_cells]
  split
  · next ha => rw [ha]
  · rfl

/-- An attempt that takes a request. -/
theorem admitNow_takes {k : KeyRuntime} (htakes : takes h k now = true) :
    ∃ h', admitNow h k now = (h', some k.inflight) ∧
      Granted now [] h (takeLease h' k) k .yes := by
  unfold Live.takes at htakes
  rw [Bool.and_eq_true] at htakes
  obtain ⟨hslot, hroom⟩ := htakes
  obtain ⟨hadmitted, hbreaker, hstock⟩ := tryAdmitRequest_eq (h.cells k.addr) now
  rw [hroom] at hadmitted
  rw [hroom, if_pos rfl] at hstock
  refine ⟨({ h with free := reserved h.free k.inflight } : Heap).setCells k.addr
    ((h.cells k.addr).tryAdmitRequest now).1, ?_, rfl, fun a => ?_, fun a _ => ?_⟩
  · unfold admitNow
    rw [tryReserveSlot_eq, hslot, if_pos rfl]
    dsimp only
    rw [hadmitted]
    rfl
  · rw [takeLease_stock, setCells_cells]
    by_cases ha : a = k.addr
    · subst ha
      rw [if_pos rfl, if_pos rfl, if_pos rfl, hstock, if_neg (by decide)]
    · rw [if_neg ha, if_neg ha, if_neg ha]
  · rw [takeLease_breaker, setCells_cells]
    split
    · next ha => rw [ha, hbreaker]
    · rfl

/-- An attempt that does not. -/
theorem admitNow_refuses {k : KeyRuntime} (htakes : takes h k now = false) :
    ∃ h', admitNow h k now = (h', none) ∧ Asked now [] h h' := by
  unfold Live.takes at htakes
  by_cases hslot : slotFree h k = true
  · rw [hslot, Bool.true_and] at htakes
    obtain ⟨hadmitted, hbreaker, hstock⟩ := tryAdmitRequest_eq (h.cells k.addr) now
    rw [htakes] at hadmitted
    rw [htakes, if_neg Bool.false_ne_true] at hstock
    refine ⟨h.setCells k.addr ((h.cells k.addr).tryAdmitRequest now).1, ?_, rfl, fun a => ?_,
      fun a _ => ?_⟩
    · unfold admitNow
      rw [tryReserveSlot_eq, hslot, if_pos rfl]
      dsimp only
      rw [hadmitted, release_setCells, release_reserved h hslot]
      rfl
    · rw [setCells_cells]
      split
      · next ha => rw [ha, hstock]
      · rfl
    · rw [setCells_cells]
      split
      · next ha => rw [ha, hbreaker]
      · rfl
  · refine ⟨h, ?_, Asked.refl now h⟩
    unfold admitNow
    rw [tryReserveSlot_eq, if_neg hslot]

end

/-! ## The passes -/

section
variable {now : Nat}

theorem levelWith_mem (h : Heap) (coin : Nat → Bool) (best : KeyRuntime) (i : Nat)
    (keys : List KeyRuntime) : levelWith sel h coin best i keys ∈ best :: keys := by
  induction keys generalizing best i with
  | nil => exact List.mem_cons_self
  | cons k rest ih =>
    unfold levelWith
    split
    · exact List.mem_cons_of_mem _ (ih k (i + 1))
    · split
      · exact List.mem_cons_of_mem _ (ih k (i + 1))
      · rcases List.mem_cons.mp (ih best (i + 1)) with hbest | hrest
        · rw [hbest]
          exact List.mem_cons_self
        · exact List.mem_cons_of_mem _ (List.mem_cons_of_mem _ hrest)

/-- No key is further behind its share than the one picked. -/
theorem levelWith_le (h : Heap) (coin : Nat → Bool) (best : KeyRuntime) (i : Nat)
    (keys : List KeyRuntime) :
    ∀ k ∈ best :: keys, share sel h (levelWith sel h coin best i keys) ≤ share sel h k := by
  induction keys generalizing best i with
  | nil =>
    intro k hk
    rw [List.mem_singleton.mp hk]
    exact le_rfl
  | cons c rest ih =>
    intro k hk
    unfold levelWith
    split
    · next hlt =>
      have hrest := ih c (i + 1)
      rcases List.mem_cons.mp hk with rfl | hk
      · exact (hrest c List.mem_cons_self).trans hlt.le
      · exact hrest k hk
    · next hlt =>
      split
      · next htie =>
        have hrest := ih c (i + 1)
        rcases List.mem_cons.mp hk with rfl | hk
        · exact (hrest c List.mem_cons_self).trans htie.1.le
        · exact hrest k hk
      · have hrest := ih best (i + 1)
        rcases List.mem_cons.mp hk with rfl | hk
        · exact hrest k List.mem_cons_self
        · rcases List.mem_cons.mp hk with rfl | hk
          · exact (hrest best List.mem_cons_self).trans (not_lt.mp hlt)
          · exact hrest k (List.mem_cons_of_mem _ hk)

omit [LinearOrder κ] in
theorem Asked.share {visited : List Addr} {h h' : Heap} (hasked : Asked now visited h h')
    (k : KeyRuntime) : share sel h' k = share sel h k := by
  have hleases : (h'.cells k.addr).leases = (h.cells k.addr).leases :=
    congrArg Stock.leases (hasked.stock k.addr)
  unfold Live.share
  rw [hleases]

/-- What the loop over the candidates comes to. -/
inductive Levelled (now : Nat) (h : Heap) (candidates : List KeyRuntime) :
    Heap × Option KeyChoice → Prop where
  /-- Of the keys that take the request, none is further behind its share. -/
  | served (h' : Heap) (k : KeyRuntime) (hmem : k ∈ candidates) (htakes : takes h k now = true)
      (hleast : ∀ c ∈ candidates, takes h c now = true → share sel h k ≤ share sel h c)
      (hgranted : Granted now [] h h' k .yes) :
      Levelled now h candidates (h', some ⟨some k, .yes, k.inflight⟩)
  | refused (h' : Heap) (hnone : ∀ k ∈ candidates, takes h k now = false)
      (hasked : Asked now [] h h') : Levelled now h candidates (h', none)

/-- An attempt that failed changes nothing for the ones after it. -/
theorem Levelled.after {h h' : Heap} {candidates : List KeyRuntime} {picked : KeyRuntime}
    {r : Heap × Option KeyChoice} (hmem : picked ∈ candidates)
    (hnodup : (candidates.map (·.addr)).Nodup) (hrefused : takes h picked now = false)
    (hasked : Asked now [] h h')
    (hr : Levelled sel now h' (candidates.filter (·.addr ≠ picked.addr)) r) :
    Levelled sel now h candidates r := by
  have hrest : ∀ c ∈ candidates, takes h c now = true →
      c ∈ candidates.filter (·.addr ≠ picked.addr) := by
    intro c hc htakes
    refine List.mem_filter.mpr ⟨hc, decide_eq_true fun haddr => ?_⟩
    have hsame : c = picked := List.inj_on_of_nodup_map hnodup hc hmem haddr
    rw [hsame, hrefused] at htakes
    cases htakes
  cases hr with
  | served h'' k hk htakes hleast hgranted =>
    rw [hasked.takes] at htakes
    refine .served h'' k (List.mem_filter.mp hk).1 htakes (fun c hc hctakes => ?_)
      (hasked.granted hgranted)
    have hle := hleast c (hrest c hc hctakes) (by rw [hasked.takes]; exact hctakes)
    rw [hasked.share, hasked.share] at hle
    exact hle
  | refused h'' hnone hasked' =>
    refine .refused h'' (fun c hc => ?_) (hasked.trans hasked')
    by_contra htakes
    rw [Bool.not_eq_false] at htakes
    have hc' := hnone c (hrest c hc htakes)
    rw [hasked.takes, htakes] at hc'
    cases hc'

theorem levelled_cases (fuel round : Nat) (candidates : List KeyRuntime) (h : Heap)
    (hfuel : candidates.length ≤ fuel) (hnodup : (candidates.map (·.addr)).Nodup) :
    Levelled sel now h candidates (levelled sel now fuel round candidates h) := by
  induction fuel generalizing round candidates h with
  | zero =>
    have hnil : candidates = [] := List.length_eq_zero_iff.mp (by omega)
    subst hnil
    exact .refused h (fun k hk => by cases hk) (Asked.refl now h)
  | succ fuel ih =>
    unfold levelled
    cases hcandidates : candidates with
    | nil => exact .refused h (fun k hk => by cases hk) (Asked.refl now h)
    | cons c rest =>
      unfold balancedPick
      dsimp only
      have hmem := levelWith_mem sel h (sel.coin round) c 0 rest
      have hleast := levelWith_le sel h (sel.coin round) c 0 rest
      rw [hcandidates] at hfuel hnodup
      generalize levelWith sel h (sel.coin round) c 0 rest = picked at hmem hleast
      by_cases htakes : takes h picked now = true
      · obtain ⟨h', hattempt, hgranted⟩ := admitNow_takes htakes
        rw [hattempt]
        exact .served _ picked hmem htakes (fun k hk _ => hleast k hk) hgranted
      · have hrefused : takes h picked now = false := Bool.not_eq_true _ ▸ htakes
        obtain ⟨h', hattempt, hasked⟩ := admitNow_refuses hrefused
        rw [hattempt]
        refine Levelled.after sel hmem hnodup hrefused hasked (ih _ _ h' ?_ ?_)
        · have hshorter : ((c :: rest).filter (·.addr ≠ picked.addr)).length < (c :: rest).length :=
            List.length_filter_lt_length_iff_exists.mpr ⟨picked, hmem, by simp⟩
          omega
        · exact hnodup.sublist (List.filter_sublist.map _)

/-- What the pass over the keys that are not healthy comes to. -/
inductive Recovered (now : Nat) (h : Heap) (keys : List KeyRuntime) :
    Heap × Option KeyChoice → Prop where
  | served (h' : Heap) (k : KeyRuntime) (admission : Breaker.Admission) (hmem : k ∈ keys)
      (hbreaker : (Breaker.admitAlone k.breaker (h.cells k.addr).breaker now).2 = admission)
      (hanswer : admission ≠ .no) (hslot : slotFree h k = true)
      (htakes : admission = .yes → takes h k now = true)
      (hgranted : Granted now (keys.map (·.addr)) h h' k admission) :
      Recovered now h keys (h', some ⟨some k, admission, k.inflight⟩)
  | refused (h' : Heap) (hasked : Asked now (keys.map (·.addr)) h h') :
      Recovered now h keys (h', none)

/-- A key that was visited and not admitted to. -/
theorem Recovered.after {h h' : Heap} {key : KeyRuntime} {rest : List KeyRuntime}
    {r : Heap × Option KeyChoice} (hnodup : ((key :: rest).map (·.addr)).Nodup)
    (hasked : Asked now [key.addr] h h') (hr : Recovered now h' rest r) :
    Recovered now h (key :: rest) r := by
  cases hr with
  | served h'' k admission hmem hbreaker hanswer hslot htakes hgranted =>
    have hother : k.addr ∉ [key.addr] := by
      intro haddr
      rw [List.mem_singleton] at haddr
      have hfresh : key.addr ∉ rest.map (·.addr) := (List.nodup_cons.mp hnodup).1
      rw [← haddr] at hfresh
      exact hfresh (List.mem_map_of_mem hmem)
    rw [hasked.breaker _ hother] at hbreaker
    rw [hasked.slotFree] at hslot
    refine .served h'' k admission (List.mem_cons_of_mem _ hmem) hbreaker hanswer hslot
      (fun hyes => ?_) (hasked.granted hgranted)
    rw [← hasked.takes]
    exact htakes hyes
  | refused h'' hasked' => exact .refused h'' (hasked.trans hasked')

/-- The breaker of a key moves. -/
theorem asked_setBreaker (h : Heap) (a : Addr) (breaker : Breaker.Shared) :
    Asked now [a] h (h.setCells a { h.cells a with breaker := breaker }) := by
  refine ⟨rfl, fun b => ?_, fun b hb => ?_⟩
  · rw [setCells_cells]
    split
    · next hba =>
      rw [hba]
      rfl
    · rfl
  · rw [setCells_cells, if_neg fun hba => hb (List.mem_singleton.mpr hba)]

/-- A probe takes a slot and nothing of the minute. -/
theorem granted_probe (h : Heap) (k : KeyRuntime) :
    Granted now [] h (takeLease { h with free := reserved h.free k.inflight } k) k .probe :=
  ⟨rfl, fun a => takeLease_stock _ k a, fun a _ => takeLease_breaker _ k a⟩

theorem recovering_cases (keys : List KeyRuntime) (h : Heap)
    (hnodup : (keys.map (·.addr)).Nodup) : Recovered now h keys (recovering now keys h) := by
  induction keys generalizing h with
  | nil => exact .refused h (Asked.refl now h)
  | cons key rest ih =>
    have hrest : (rest.map (·.addr)).Nodup := (List.nodup_cons.mp hnodup).2
    unfold recovering
    cases hadmission : Breaker.admitAlone key.breaker (h.cells key.addr).breaker now with
    | mk breaker admission =>
      have hbreaker : (Breaker.admitAlone key.breaker (h.cells key.addr).breaker now).2 =
          admission := by rw [hadmission]
      have hasked := @asked_setBreaker now h key.addr breaker
      dsimp only
      generalize h.setCells key.addr { h.cells key.addr with breaker := breaker } = h' at hasked
      cases admission with
      | no => exact Recovered.after hnodup hasked (ih h' hrest)
      | yes =>
        dsimp only
        by_cases htakes : takes h' key now = true
        · obtain ⟨h'', hattempt, hgranted⟩ := admitNow_takes htakes
          rw [hattempt]
          rw [hasked.takes] at htakes
          have hslot : slotFree h key = true := (Bool.and_eq_true _ _ ▸ htakes).1
          have hall := hasked.granted hgranted
          refine .served _ key .yes List.mem_cons_self hbreaker (by decide) hslot
            (fun _ => htakes) ⟨hall.free, hall.stock, fun a ha => hall.breaker a fun hmem => ?_⟩
          rw [List.append_nil, List.mem_singleton] at hmem
          exact ha (hmem ▸ List.mem_cons_self)
        · obtain ⟨h'', hattempt, hasked'⟩ := admitNow_refuses (Bool.not_eq_true _ ▸ htakes)
          rw [hattempt]
          refine Recovered.after hnodup ?_ (ih h'' hrest)
          have hboth := hasked.trans hasked'
          rw [List.append_nil] at hboth
          exact hboth
      | probe =>
        dsimp only
        rw [tryReserveSlot_eq]
        by_cases hslot : slotFree h' key = true
        · rw [if_pos hslot]
          rw [hasked.slotFree] at hslot
          have hall := hasked.granted (granted_probe h' key)
          refine .served _ key .probe List.mem_cons_self hbreaker (by decide) hslot
            (fun hyes => by cases hyes) ⟨hall.free, hall.stock, fun a ha => hall.breaker a fun hmem => ?_⟩
          rw [List.append_nil, List.mem_singleton] at hmem
          exact ha (hmem ▸ List.mem_cons_self)
        · rw [if_neg hslot]
          exact Recovered.after hnodup hasked (ih h' hrest)

omit [LinearOrder κ] in
theorem pinnedSeat_mem {session : String} {keys : List KeyRuntime} {k : KeyRuntime}
    (hpin : pinnedSeat sel session keys = some k) : k ∈ keys := by
  have hfold : ∀ (l : List KeyRuntime) (best : Option KeyRuntime),
      (∀ b, best = some b → b ∈ keys) → (∀ c ∈ l, c ∈ keys) →
      ∀ b, l.foldl (fun best k =>
        match best with
        | none => some k
        | some b =>
          if sel.score session b.name ≤ sel.score session k.name then some k else some b) best =
        some b → b ∈ keys := by
    intro l
    induction l with
    | nil => exact fun best hbest _ => hbest
    | cons c l ih =>
      intro best hbest hl b hb
      refine ih _ ?_ (fun d hd => hl d (List.mem_cons_of_mem _ hd)) b hb
      intro d hd
      cases best with
      | none =>
        cases hd
        exact hl c List.mem_cons_self
      | some best =>
        dsimp only at hd
        split at hd
        · cases hd
          exact hl c List.mem_cons_self
        · exact hbest d hd
  exact hfold keys none (fun b hb => by cases hb) (fun c hc => hc) k hpin

/-- The seat a session is pinned to, when it takes the request. -/
def pinnedReady (now : Nat) (affinity : Option String) (healthy : List KeyRuntime) (h : Heap) :
    Option KeyRuntime :=
  (affinity.bind fun session => pinnedSeat sel session healthy).filter (takes h · now)

/-- What the healthy keys come to, pinned seat and all. -/
theorem afterPin_cases (affinity : Option String) (healthy : List KeyRuntime) (h : Heap)
    (hnodup : (healthy.map (·.addr)).Nodup) :
    (∃ h' pinned, afterPin sel now affinity healthy h =
        (h', .inr ⟨some pinned, .yes, pinned.inflight⟩) ∧
        pinnedReady sel now affinity healthy h = some pinned ∧ pinned ∈ healthy ∧
        takes h pinned now = true ∧ Granted now [] h h' pinned .yes) ∨
      ∃ h' candidates, afterPin sel now affinity healthy h = (h', .inl candidates) ∧
        pinnedReady sel now affinity healthy h = none ∧ (candidates.map (·.addr)).Nodup ∧
        ∀ r, Levelled sel now h' candidates r → Levelled sel now h healthy r := by
  unfold afterPin pinnedReady
  cases affinity with
  | none => exact Or.inr ⟨h, healthy, rfl, rfl, hnodup, fun r hr => hr⟩
  | some session =>
    rw [Option.bind_some]
    dsimp only
    cases hpin : pinnedSeat sel session healthy with
    | none => exact Or.inr ⟨h, healthy, rfl, rfl, hnodup, fun r hr => hr⟩
    | some pinned =>
      have hmem := pinnedSeat_mem sel hpin
      dsimp only
      by_cases htakes : takes h pinned now = true
      · obtain ⟨h', hattempt, hgranted⟩ := admitNow_takes htakes
        rw [hattempt]
        exact Or.inl ⟨_, pinned, rfl, Option.filter_some_pos htakes, hmem, htakes, hgranted⟩
      · have hrefused : takes h pinned now = false := Bool.not_eq_true _ ▸ htakes
        obtain ⟨h', hattempt, hasked⟩ := admitNow_refuses hrefused
        rw [hattempt]
        refine Or.inr ⟨h', _, rfl, Option.filter_some_neg hrefused,
          hnodup.sublist (List.filter_sublist.map _), fun r hr => ?_⟩
        exact Levelled.after sel hmem hnodup hrefused hasked hr

/-! ## What an answer means -/

/-- A key that may carry a request of this caller: it serves the model, and it
is the caller's own or in a pool that nobody has divided up. -/
structure Entitled (p : ProviderRuntime) (model tenant : Option String) (k : KeyRuntime) : Prop where
  mem : k ∈ p.keys
  serves : ∀ m models, model = some m → k.models = some models → m ∈ models
  owned : (∀ c ∈ p.keys, c.tenant = none) ∨ ∃ service, k.tenant = some service ∧ tenant = some service

theorem ownedBy_iff {p : ProviderRuntime} {tenant : Option String} {k : KeyRuntime} :
    p.ownedBy k tenant = true ↔ (∀ c ∈ p.keys, c.tenant = none) ∨
      ∃ service, k.tenant = some service ∧ tenant = some service := by
  have hmanaged : p.static.managed = false ↔ ∀ c ∈ p.keys, c.tenant = none := by
    unfold Core.ProviderRuntime.managed ProviderRuntime.static
    simp
  unfold ProviderRuntime.ownedBy Core.ProviderRuntime.ownedBy
  by_cases hshared : p.static.managed = false
  · rw [hshared]
    exact ⟨fun _ => Or.inl (hmanaged.mp hshared), fun _ => rfl⟩
  · have hlabelled : ¬ ∀ c ∈ p.keys, c.tenant = none := fun hall => hshared (hmanaged.mpr hall)
    rw [Bool.not_eq_false] at hshared
    rw [hshared, if_neg (by decide), or_iff_right hlabelled]
    cases hkey : k.tenant with
    | none =>
      refine ⟨fun howned => ?_, fun ⟨_, hsome, _⟩ => by cases hsome⟩
      cases howned
    | some owner =>
      cases tenant with
      | none =>
        refine ⟨fun howned => ?_, fun ⟨_, _, hsome⟩ => by cases hsome⟩
        cases howned
      | some caller =>
        constructor
        · intro howned
          exact ⟨owner, rfl, by rw [of_decide_eq_true howned]⟩
        · rintro ⟨service, howner, hcaller⟩
          rw [Option.some.injEq] at howner hcaller
          exact decide_eq_true (howner.trans hcaller.symm)

theorem mem_candidates {p : ProviderRuntime} {model tenant : Option String} {k : KeyRuntime} :
    k ∈ p.candidates model tenant ↔ Entitled p model tenant k := by
  have hserves : (model.all fun m => k.models.all (·.contains m)) = true ↔
      ∀ m models, model = some m → k.models = some models → m ∈ models := by
    cases model with
    | none => exact ⟨fun _ m models hm => (by cases hm), fun _ => rfl⟩
    | some m =>
      rw [Option.all_some]
      cases k.models with
      | none => exact ⟨fun _ m models _ hmodels => (by cases hmodels), fun _ => rfl⟩
      | some models =>
        rw [Option.all_some, List.contains_iff_mem]
        constructor
        · intro hmem m' models' hm hmodels
          cases hm
          cases hmodels
          exact hmem
        · intro h
          exact h m models rfl rfl
  unfold ProviderRuntime.candidates ProviderRuntime.eligible
  rw [List.mem_filter, List.mem_filter, ownedBy_iff, hserves]
  exact ⟨fun ⟨⟨hmem, hmodel⟩, howned⟩ => ⟨hmem, hmodel, howned⟩,
    fun ⟨hmem, hmodel, howned⟩ => ⟨⟨hmem, hmodel⟩, howned⟩⟩

/-- Neither benched nor open in its cooldown. -/
structure Rested (h : Heap) (k : KeyRuntime) (now : Nat) : Prop where
  bench : Breaker.isBenched (h.cells k.addr).breaker.benchUntilMs now = false
  word : Breaker.isClosed (h.cells k.addr).breaker = true ∨
    k.breaker.cooldownMs ≤ now - (Breaker.unpack (h.cells k.addr).breaker.words.word).1

theorem rested_of_healthy {h : Heap} {k : KeyRuntime} (hhealthy : looksHealthy h k now = true) :
    Rested h k now := by
  unfold looksHealthy at hhealthy
  rw [Bool.and_eq_true, Bool.not_eq_true'] at hhealthy
  exact ⟨hhealthy.2, Or.inl hhealthy.1⟩

theorem rested_of_admission {h : Heap} {k : KeyRuntime}
    (hanswer : (Breaker.admitAlone k.breaker (h.cells k.addr).breaker now).2 ≠ .no) :
    Rested h k now := by
  unfold Breaker.admitAlone at hanswer
  split at hanswer
  · exact absurd rfl hanswer
  · next hbench =>
    refine ⟨?_, ?_⟩
    · unfold Breaker.isBenched
      split
      · rfl
      · next hset =>
        rw [decide_eq_false_iff_not]
        exact fun hlt => hbench ⟨hset, hlt⟩
    · dsimp only at hanswer
      unfold Breaker.admitWord at hanswer
      split at hanswer
      · next hclosed => exact Or.inl (Breaker.isClosed_iff.mpr hclosed)
      · split at hanswer
        · exact absurd rfl hanswer
        · next hwait => exact Or.inr (not_lt.mp hwait)

/-- A breaker refuses exactly while its seat does not rest. -/
theorem rested_iff {h : Heap} {k : KeyRuntime} : Rested h k now ↔
    (Breaker.admitAlone k.breaker (h.cells k.addr).breaker now).2 ≠ .no := by
  refine ⟨fun hrested => ?_, rested_of_admission⟩
  obtain ⟨hbench, hword⟩ := hrested
  have hset : ¬ ((h.cells k.addr).breaker.benchUntilMs ≠ 0 ∧
      now < (h.cells k.addr).breaker.benchUntilMs) := by
    rintro ⟨hne, hlt⟩
    unfold Breaker.isBenched at hbench
    rw [if_neg hne, decide_eq_false_iff_not] at hbench
    exact hbench hlt
  unfold Breaker.admitAlone
  rw [if_neg hset]
  unfold Breaker.admitWord
  dsimp only
  by_cases hclosed : (Breaker.unpack (h.cells k.addr).breaker.words.word).2 = Breaker.closed
  · rw [if_pos hclosed]
    show Breaker.Admission.yes ≠ .no
    decide
  · rw [if_neg hclosed]
    rcases hword with hyes | hwait
    · exact absurd (Breaker.isClosed_iff.mp hyes) hclosed
    · rw [if_neg (not_lt.mpr hwait)]
      show Breaker.Admission.probe ≠ .no
      decide

/-- A seat that rests goes on resting. -/
theorem Rested.later {h : Heap} {k : KeyRuntime} (hrested : Rested h k now) {t : Nat}
    (ht : now ≤ t) : Rested h k t := by
  obtain ⟨hbench, hword⟩ := hrested
  refine ⟨?_, hword.imp_right fun hwait => by omega⟩
  unfold Breaker.isBenched at hbench ⊢
  split
  · rfl
  · next hset =>
    rw [if_neg hset, decide_eq_false_iff_not] at hbench
    rw [decide_eq_false_iff_not]
    omega

/-- What `admit_for` may answer in a state. -/
structure AdmitLaw (p : ProviderRuntime) (model tenant : Option String) (now : Nat) (h : Heap)
    (r : Heap × Option KeyChoice) : Prop where
  /-- A key comes with a slot of its own, if it has a ceiling, and one request
  of its minute, and nothing is taken of any other key. -/
  sound : ∀ choice k, r.2 = some choice → choice.key = some k →
    Entitled p model tenant k ∧ Rested h k now ∧ slotFree h k = true ∧
      choice.permit = k.inflight ∧
      (choice.admission ≠ .probe → ((h.cells k.addr).stock now).headroom = true) ∧
      Granted now (p.keys.map (·.addr)) h r.1 k choice.admission
  /-- A provider with keys answers with one of them. -/
  keyed : ∀ choice, r.2 = some choice → choice.key = none → p.keys = [] ∧ choice.permit = none
  /-- Some key is admitted to when one can be. -/
  complete : (∃ k, Entitled p model tenant k ∧ looksHealthy h k now = true ∧ takes h k now = true) →
    ∃ k, r.2 = some ⟨some k, .yes, k.inflight⟩
  /-- A probe only when none can. -/
  probe : ∀ choice, r.2 = some choice → choice.admission = .probe →
    ¬ ∃ k, Entitled p model tenant k ∧ looksHealthy h k now = true ∧ takes h k now = true
  /-- Whatever no key was admitted to keeps its slots. -/
  unkeyed : (∀ choice k, r.2 = some choice → choice.key ≠ some k) → r.1.free = h.free

/-- What `admit_for` comes to with keys to choose from. -/
inductive Chosen (p : ProviderRuntime) (model tenant : Option String) (now : Nat) (h : Heap) :
    Heap × Option KeyChoice → Prop where
  | healthy (h' : Heap) (k : KeyRuntime) (hentitled : Entitled p model tenant k)
      (hhealthy : looksHealthy h k now = true) (htakes : takes h k now = true)
      (hgranted : Granted now [] h h' k .yes) :
      Chosen p model tenant now h (h', some ⟨some k, .yes, k.inflight⟩)
  | recovered (h₁ : Heap) (r : Heap × Option KeyChoice) (keys : List KeyRuntime)
      (hkeys : ∀ k, k ∈ keys ↔ Entitled p model tenant k)
      (hnone : ∀ k, Entitled p model tenant k → looksHealthy h k now = true → takes h k now = false)
      (hasked : Asked now [] h h₁) (hr : Recovered now h₁ keys r) : Chosen p model tenant now h r

theorem admitFor_chosen {p : ProviderRuntime} (hkeys : p.keys ≠ [])
    (hnodup : (p.keys.map (·.addr)).Nodup) (model tenant affinity : Option String) (h : Heap) :
    Chosen p model tenant now h (admitFor sel p model tenant affinity now h) := by
  unfold admitFor
  rw [if_neg hkeys]
  dsimp only
  have hcandidates : ((p.candidates model tenant).map (·.addr)).Nodup :=
    hnodup.sublist ((List.filter_sublist.trans List.filter_sublist).map _)
  by_cases hnil : p.candidates model tenant = []
  · rw [if_pos hnil]
    have hnobody : ∀ k, ¬ Entitled p model tenant k := by
      intro k hk
      rw [← mem_candidates, hnil] at hk
      cases hk
    refine .recovered h _ [] (fun k => ⟨fun hk => (by cases hk), fun hk => absurd hk (hnobody k)⟩)
      (fun k hk => absurd hk (hnobody k)) (Asked.refl now h) (.refused h (Asked.refl now h))
  · rw [if_neg hnil]
    have hmem : ∀ k, k ∈ (p.candidates model tenant).filter (looksHealthy h · now) ↔
        Entitled p model tenant k ∧ looksHealthy h k now = true := by
      intro k
      rw [List.mem_filter, mem_candidates]
    have hhealthy : (((p.candidates model tenant).filter (looksHealthy h · now)).map
        (·.addr)).Nodup := hcandidates.sublist (List.filter_sublist.map _)
    rcases afterPin_cases sel affinity _ h hhealthy with
      ⟨h', pinned, hpin, -, hpinned, htakes, hgranted⟩ | ⟨h', candidates, hpin, -, hdistinct, hlift⟩
    · rw [hpin]
      obtain ⟨hentitled, hwell⟩ := (hmem pinned).mp hpinned
      exact .healthy h' pinned hentitled hwell htakes hgranted
    · rw [hpin]
      dsimp only
      have hlevelled := hlift _ (levelled_cases sel candidates.length 0 candidates h' le_rfl hdistinct)
      generalize levelled sel now candidates.length 0 candidates h' = r at hlevelled
      cases hlevelled with
      | served h'' k hk htakes _ hgranted =>
        obtain ⟨hentitled, hwell⟩ := (hmem k).mp hk
        exact .healthy h'' k hentitled hwell htakes hgranted
      | refused h'' hnone hasked =>
        have hperm := List.perm_insertionSort (fun a b => share sel h'' a ≤ share sel h'' b)
          (p.candidates model tenant)
        refine .recovered h'' _ _ (fun k => ?_) (fun k hk hwell => hnone k ((hmem k).mpr ⟨hk, hwell⟩))
          hasked (recovering_cases _ h'' ((hperm.map _).nodup_iff.mpr hcandidates))
        rw [hperm.mem_iff, mem_candidates]

/-- Of any provider and in any state, as long as no two keys of the provider
share their cells. -/
theorem admit_law {p : ProviderRuntime} (hnodup : (p.keys.map (·.addr)).Nodup)
    (model tenant affinity : Option String) (now : Nat) (h : Heap) :
    AdmitLaw p model tenant now h (admitFor sel p model tenant affinity now h) := by
  by_cases hkeys : p.keys = []
  · have hnobody : ∀ k, ¬ Entitled p model tenant k := by
      intro k hk
      have hmem := hk.mem
      rw [hkeys] at hmem
      cases hmem
    have hkeyless : ∀ choice, (admitFor sel p model tenant affinity now h).2 = some choice →
        choice.key = none ∧ choice.permit = none := by
      intro choice hchoice
      unfold admitFor at hchoice
      rw [if_pos hkeys] at hchoice
      dsimp only at hchoice
      split at hchoice <;> cases hchoice
      exact ⟨rfl, rfl⟩
    refine ⟨fun choice k hchoice hk => ?_, fun choice hchoice _ => ⟨hkeys, (hkeyless choice hchoice).2⟩,
      fun ⟨k, hk, _⟩ => absurd hk (hnobody k), fun choice _ _ ⟨k, hk, _⟩ => hnobody k hk, fun _ => ?_⟩
    · rw [(hkeyless choice hchoice).1] at hk
      cases hk
    · unfold admitFor
      rw [if_pos hkeys]
      rfl
  · have hchosen := @admitFor_chosen κ _ sel now p hkeys hnodup model tenant affinity h
    generalize admitFor sel p model tenant affinity now h = r at hchosen
    cases hchosen with
    | healthy h' k hentitled hwell htakes hgranted =>
      have hboth := Bool.and_eq_true _ _ ▸ htakes
      refine ⟨fun choice c hchoice hc => ?_, fun choice hchoice hnone => ?_, fun _ => ⟨k, rfl⟩,
        fun choice hchoice hprobe => ?_, fun hnone => absurd rfl (hnone _ k rfl)⟩
      · cases hchoice
        cases hc
        exact ⟨hentitled, rested_of_healthy hwell, hboth.1, rfl, fun _ => hboth.2, hgranted.free,
          hgranted.stock, fun a _ => hgranted.breaker a List.not_mem_nil⟩
      · cases hchoice
        cases hnone
      · cases hchoice
        cases hprobe
    | recovered h₁ r keys hkeys' hnone hasked hr =>
      have hnobody : ¬ ∃ k, Entitled p model tenant k ∧ looksHealthy h k now = true ∧
          takes h k now = true := by
        rintro ⟨k, hentitled, hwell, htakes⟩
        rw [hnone k hentitled hwell] at htakes
        cases htakes
      cases hr with
      | served h' k admission hmem hbreaker hanswer hslot htakes hgranted =>
        rw [hasked.slotFree] at hslot
        rw [hasked.takes] at htakes
        rw [hasked.breaker _ List.not_mem_nil] at hbreaker
        have hentitled := (hkeys' k).mp hmem
        refine ⟨fun choice c hchoice hc => ?_, fun choice hchoice hnone' => ?_,
          fun hsome => absurd hsome hnobody, fun _ _ _ => hnobody,
          fun hnone' => absurd rfl (hnone' _ k rfl)⟩
        · cases hchoice
          cases hc
          have hall := hasked.granted hgranted
          refine ⟨hentitled, rested_of_admission (by rw [hbreaker]; exact hanswer), hslot, rfl,
            fun hnotprobe => ?_, hall.free, hall.stock, fun a ha => hall.breaker a fun hvisited => ?_⟩
          · have hyes : admission = .yes := by
              cases admission with
              | yes => rfl
              | probe => exact absurd rfl hnotprobe
              | no => exact absurd rfl hanswer
            exact (Bool.and_eq_true _ _ ▸ htakes hyes).2
          · rw [List.nil_append, List.mem_map] at hvisited
            obtain ⟨c, hc, rfl⟩ := hvisited
            exact ha (List.mem_map_of_mem ((hkeys' c).mp hc).mem)
        · cases hchoice
          cases hnone'
      | refused h' hasked' =>
        refine ⟨fun choice k hchoice => (by cases hchoice), fun choice hchoice => (by cases hchoice),
          fun hsome => absurd hsome hnobody, fun choice hchoice => (by cases hchoice),
          fun _ => (hasked'.free).trans hasked.free⟩

end

end Live

end RapidRouter.Core
