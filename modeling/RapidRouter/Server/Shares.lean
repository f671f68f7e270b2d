import Mathlib.Algebra.Order.BigOperators.Group.Finset
import RapidRouter.Lib.Lists
import RapidRouter.Lib.Potential
import RapidRouter.Server.Gateway

/-!
# A key's request limit over a fleet

`VkRuntime::new` of `router-core/src/vkey.rs` gives every node a share of a
key's `rpm`: the limit divided by the number of live nodes, refilled each
second with a sixtieth of the share, both in whole requests and at least one.
`VkTable::build_with_shares` carries a key's buckets over to the next table
while its limits and the number of shares stay, and makes new ones, which are
full, when they do not. `vk_gate` of `router-server/src/proxy.rs` asks the
bucket of the key the request was authenticated with: its body is read in
between, so the table may have been replaced meanwhile.

The nodes of a fleet take turns here, each a whole `Gateway.State` with a
clock of its own, and the requests that have looked their key up and not
asked it yet.

`limit_kept` is what a fleet admits in any stretch of a run, to the request:
what its buckets hold, what the time passed refills, what a new bucket starts
with, and one for each request that was between its key and the bucket when a
table was replaced. Where the tables keep the limit and the shares, and the
limit is sixty a node or more, that is the limit and its refill. Below that
the floors of one let more through, and so does a bucket that is made anew
(`exceeds_limit`).

The calls on one bucket follow each other here, each at the clock's reading;
`TokenBucket.late_deposit` is what happens when they overlap.
-/

namespace RapidRouter.Server.Shares

open Lts Gateway Core.Live
open RapidRouter.Core (VirtualKeyDef)
open Core.TokenBucket (Bucket Limits wrappingMul)

/-! ## The fleet -/

structure Node where
  gateway : Gateway.State
  /-- `clock::now_ms`. -/
  clock : Nat
  /-- The keys of requests whose body is being read. -/
  looked : List VkRuntime

inductive Act (κ : Type) where
  /-- A request is authenticated. -/
  | look (id : String)
  /-- Its key is asked. -/
  | ask (k : Nat) (budgetLeft : Bool)
  /-- It is given up before that. -/
  | drop (k : Nat)
  /-- Anything else a gateway does. -/
  | gateway (l : Gateway.Label κ)
  /-- The process starts again, or another node joins in its place. -/
  | restart (config : Core.Live.Config) (defs : List VirtualKeyDef) (shares : Nat)

inductive Move (ι κ : Type) where
  | tick (ms : Nat)
  | at_ (n : ι) (a : Act κ)

/-- A key is looked up and asked at once: here these are two steps. -/
def asksKey {κ : Type} : Gateway.Label κ → Bool
  | .begin_ (some _) _ _ => true
  | _ => false

/-- The key table a gateway builds, with its shares. -/
def newTable {κ : Type} : Gateway.Label κ → Option (List VirtualKeyDef × Nat)
  | .reload _ defs shares => some (defs, shares)
  | .refresh defs shares => some (defs, shares)
  | _ => none

def booted (config : Core.Live.Config) (defs : List VirtualKeyDef) (shares : Nat) : Node :=
  ⟨boot config defs shares, 0, []⟩

section
variable {ι κ : Type} [Fintype ι] [DecidableEq ι] [LinearOrder κ]

def Node.next (v : Node) : Act κ → Option Node
  | .look id => (v.gateway.vkeys.get? id).map fun vk => { v with looked := vk :: v.looked }
  | .ask k budgetLeft =>
    (v.looked[k]?).map fun vk =>
      { v with
        gateway := begins v.gateway vk v.clock budgetLeft
        looked := v.looked.eraseIdx k }
  | .drop k => some { v with looked := v.looked.eraseIdx k }
  | .gateway l =>
    if asksKey l then none
    else (Gateway.next v.gateway l).map fun g => { v with gateway := g }
  | .restart config defs shares => some (booted config defs shares)

def next (s : ι → Node) : Move ι κ → Option (ι → Node)
  | .tick ms => some fun n => { s n with clock := (s n).clock + ms }
  | .at_ n a => ((s n).next a).map (Function.update s n)

/-! ## What is counted -/

variable (id : String)

/-- The request bucket of the key, in the table in force. -/
def Node.bucket (v : Node) : Option Bucket :=
  (v.gateway.vkeys.get? id).bind fun vk => (v.gateway.vkCells vk.addr).rpm

def Node.inForce (v : Node) (vk : VkRuntime) : Bool :=
  (v.gateway.vkeys.get? vk.addr.id).map (·.addr) = some vk.addr

/-- The requests that are about to ask the key of the table in force. -/
def Node.pending (v : Node) : Nat := v.looked.countP fun vk => vk.addr.id = id && v.inForce vk

/-- Those that are about to ask it in an older table. -/
def Node.leftOver (v : Node) : Nat := v.looked.countP fun vk => vk.addr.id = id && !v.inForce vk

/-- A request of the key is admitted. -/
def Node.admits (v : Node) : Act κ → Nat
  | .ask k budgetLeft =>
    match v.looked[k]? with
    | some vk =>
      if vk.addr.id = id ∧ ((v.gateway.vkCells vk.addr).admitted v.clock).2 = true ∧
        budgetLeft = true then 1 else 0
    | none => 0
  | _ => 0

def admits (s : ι → Node) : Move ι κ → Nat
  | .tick _ => 0
  | .at_ n a => (s n).admits id a

def Move.ms : Move ι κ → Nat
  | .tick ms => ms
  | .at_ _ _ => 0

/-- How long a stretch of a run takes. -/
def elapsed (as : List (Move ι κ)) : Nat := (as.map Move.ms).sum

/-! ## What pays for it -/

/-- What a node can admit as it stands, in thousandths. -/
def Node.room (v : Node) : Nat :=
  (match v.bucket id with
  | none => 0
  | some b => b.room v.clock) + 1000 * v.leftOver id

def Node.refillRate (v : Node) : Nat :=
  match v.bucket id with
  | none => 0
  | some b => b.limits.refillMilliPerMs

/-- The bucket of a key is carried over to a table. -/
def Node.carries (v : Node) (defs : List VirtualKeyDef) (shares : Nat) : Bool :=
  match v.gateway.vkeys.get? id, (byId defs).get? id with
  | some p, some d => p.definition.rate = d.rate ∧ p.shares = max shares 1
  | _, _ => false

/-- What a new bucket of the key starts with. -/
def fresh (defs : List VirtualKeyDef) (shares : Nat) : Nat :=
  match (byId defs).get? id with
  | none => 0
  | some d =>
    match (vkCells d shares none).rpm with
    | none => 0
    | some b => b.limits.capacityMilli

/-- What a new table grants. -/
def Node.rebuilt (v : Node) (defs : List VirtualKeyDef) (shares : Nat) : Nat :=
  1000 * v.pending id + if v.carries id defs shares then 0 else fresh id defs shares

def Node.granted (v : Node) : Act κ → Nat
  | .gateway l =>
    match newTable l with
    | some (defs, shares) => v.rebuilt id defs shares
    | none => 0
  | .restart _ defs shares => fresh id defs shares
  | _ => 0

def granted (s : ι → Node) : Move ι κ → Nat
  | .tick ms => ∑ n, (s n).refillRate id * ms
  | .at_ n a => (s n).granted id a

/-! ## The runs -/

/-- Where the key is defined, its requests are limited. -/
def LimitedIn (defs : List VirtualKeyDef) : Prop :=
  ∀ d, (byId defs).get? id = some d → ((d.rate.bind (·.rpm)).isSome = true)

def Act.limited : Act κ → Prop
  | .gateway l => ∀ table ∈ newTable l, LimitedIn id table.1
  | .restart _ defs _ => LimitedIn id defs
  | _ => True

def Limited (_ : ι → Node) : Move ι κ → Prop
  | .tick _ => True
  | .at_ _ a => a.limited id

def start (s : ι → Node) : Prop :=
  ∀ n, ∃ config defs shares, LimitedIn id defs ∧ s n = booted config defs shares

variable (ι κ) in
def fleet : System (ι → Node) (Move ι κ) := ofNext (start id) next

def Node.settled (limit shares : Nat) (v : Node) : Prop :=
  (v.gateway.vkeys.get? id).map (fun vk => (vk.definition.rate.bind (·.rpm), vk.shares)) =
    some (some limit, shares)

/-- Every node has the key, with this limit and this many shares. -/
def Settled (limit shares : Nat) (s : ι → Node) : Prop := ∀ n, (s n).settled id limit shares

def Node.carried (v : Node) : Act κ → Prop
  | .gateway l => ∀ table ∈ newTable l, v.carries id table.1 table.2 = true
  | .restart _ _ _ => False
  | _ => True

/-- A new table keeps the bucket, and no node starts again. -/
def Carried (s : ι → Node) : Move ι κ → Prop
  | .tick _ => True
  | .at_ n a => (s n).carried id a

def Node.left (v : Node) : Act κ → Nat
  | .gateway l => if (newTable l).isSome then v.pending id else 0
  | _ => 0

/-- The requests that a new table leaves behind. -/
def left (s : ι → Node) : Move ι κ → Nat
  | .tick _ => 0
  | .at_ n a => (s n).left id a

/-! ## Buckets -/

/-- A node's share of a limit. -/
def shareOf (limit shares : Nat) : Nat := max (limit / max shares 1) 1

/-- The limits of its bucket. -/
def sized (limit shares : Nat) : Limits :=
  .new (shareOf limit shares) (max (shareOf limit shares / 60) 1)

theorem sized_max (limit shares : Nat) : sized limit (max shares 1) = sized limit shares := by
  unfold sized shareOf
  rw [max_assoc, max_self]

theorem tokensLeft_rpm (c : VkCells) (now : Nat) : (c.tokensLeft now).1.rpm = c.rpm := by
  unfold VkCells.tokensLeft
  cases c.tpm with
  | none => rfl
  | some tpm =>
    dsimp only
    by_cases hempty : tpm.availableTokens = 0
    · rw [if_pos hempty]
    · rw [if_neg hempty]

/-- Who is admitted has taken a request of the bucket. -/
theorem admitted_rpm {c : VkCells} {b : Bucket} (h : c.rpm = some b) (now : Nat) :
    (c.admitted now).1.rpm = some (b.tryConsume 1 now).1 ∧
      ((c.admitted now).2 = true → (b.tryConsume 1 now).2 = true) := by
  unfold VkCells.admitted
  rw [h]
  dsimp only
  by_cases htook : (b.tryConsume 1 now).2 = true
  · rw [if_pos htook]
    exact ⟨tokensLeft_rpm _ now, fun _ => htook⟩
  · rw [if_neg htook]
    refine ⟨rfl, fun hfalse => ?_⟩
    cases hfalse

theorem getD_rpm (rate : Option Core.RateLimit) :
    (rate.getD ⟨none, none⟩).rpm = rate.bind (·.rpm) := by
  cases rate with
  | none => rfl
  | some r => rfl

/-- A new bucket is full. -/
theorem fresh_rpm {d : VirtualKeyDef} {limit : Nat} (h : d.rate.bind (·.rpm) = some limit)
    (shares : Nat) :
    ∃ b, (vkCells d shares none).rpm = some b ∧ b.limits = sized limit shares ∧
      b.available = b.limits.capacityMilli := by
  have hrpm : (vkCells d shares none).rpm =
      newVkBucket (((d.rate.getD ⟨none, none⟩).rpm).map fun l => max (l / max shares 1) 1) := rfl
  rw [hrpm, getD_rpm, h]
  exact ⟨_, rfl, rfl, rfl⟩

/-- The bucket of a key that was there before: the same one, or a new one. -/
theorem carried_rpm {d : VirtualKeyDef} {limit : Nat} (h : d.rate.bind (·.rpm) = some limit)
    (shares : Nat) (p : VkRuntime) (cells : VkCells) {b : Bucket} (hb : cells.rpm = some b) :
    (vkCells d shares (some (p, cells))).rpm =
      if p.definition.rate = d.rate ∧ p.shares = max shares 1 then some b
      else (vkCells d shares none).rpm := by
  unfold vkCells
  dsimp only
  by_cases hsame : p.definition.rate = d.rate ∧ p.shares = max shares 1
  · rw [if_pos hsame, if_pos hsame, getD_rpm, h, hb]
    rfl
  · rw [if_neg hsame, if_neg hsame]

/-! ## What every step keeps -/

/-- The tables and the requests know each other by their addresses, and the
bucket of the key has the limits of its share. -/
structure Sound (v : Node) : Prop where
  own : ∀ id' vk, v.gateway.vkeys.get? id' = some vk →
    vk.addr.id = id' ∧ vk.addr.gen ≤ v.gateway.gen
  looked : ∀ vk ∈ v.looked, vk.addr.gen ≤ v.gateway.gen
  bucket : ∀ vk, v.gateway.vkeys.get? id = some vk →
    ∃ limit b, vk.definition.rate.bind (·.rpm) = some limit ∧
      (v.gateway.vkCells vk.addr).rpm = some b ∧ b.limits = sized limit vk.shares ∧
      b.available ≤ b.limits.capacityMilli

variable {id}

theorem bucket_eq {v : Node} {vk : VkRuntime} (h : v.gateway.vkeys.get? id = some vk) :
    v.bucket id = (v.gateway.vkCells vk.addr).rpm := by
  unfold Node.bucket
  rw [h]
  rfl

theorem bucket_eq_none {v : Node} (h : v.gateway.vkeys.get? id = none) : v.bucket id = none := by
  unfold Node.bucket
  rw [h]
  rfl

theorem inForce_iff {v : Node} {vk : VkRuntime} :
    v.inForce vk = true ↔ ∃ vk', v.gateway.vkeys.get? vk.addr.id = some vk' ∧ vk'.addr = vk.addr := by
  unfold Node.inForce
  rw [decide_eq_true_eq, Option.map_eq_some_iff]

/-! ## One node -/

theorem attempts_keeps (g : Gateway.State) (i : Nat) (r : Request) (p : ProviderRuntime)
    (answer : Heap × Option KeyChoice) :
    (attempts g i r p answer).vkeys = g.vkeys ∧ (attempts g i r p answer).gen = g.gen ∧
      (attempts g i r p answer).vkCells = g.vkCells := by
  obtain ⟨heap, choice⟩ := answer
  cases choice with
  | none => exact ⟨rfl, rfl, rfl⟩
  | some choice =>
    unfold attempts
    dsimp only
    by_cases hfull : heap.free p.addr = 0
    · rw [if_pos hfull]
      exact ⟨rfl, rfl, rfl⟩
    · rw [if_neg hfull]
      exact ⟨rfl, rfl, rfl⟩

/-- What a gateway does of its own leaves the key table and what requests it
has let through. -/
theorem next_keeps {g g' : Gateway.State} {l : Gateway.Label κ} (h : Gateway.next g l = some g')
    (hask : asksKey l = false) (htable : newTable l = none) :
    g'.vkeys = g.vkeys ∧ g'.gen = g.gen ∧ ∀ a, (g'.vkCells a).rpm = (g.vkCells a).rpm := by
  cases l with
  | begin_ vkey now budgetLeft =>
    cases vkey with
    | none =>
      cases h
      exact ⟨rfl, rfl, fun _ => rfl⟩
    | some id => cases hask
  | route i =>
    unfold Gateway.next at h
    dsimp only at h
    split at h
    · cases h
      exact ⟨rfl, rfl, fun _ => rfl⟩
    · cases h
  | attempt i provider model tenant affinity sel now =>
    obtain ⟨⟨r, p⟩, -, heq⟩ := Option.map_eq_some_iff.mp h
    subst heq
    obtain ⟨hkeys, hgen, hcells⟩ := attempts_keeps g i r p
      (admitFor sel p model tenant affinity now g.heap)
    exact ⟨hkeys, hgen, fun a => congrArg (fun cells => (cells a).rpm) hcells⟩
  | relay i provider tenant needsKey sel now =>
    unfold Gateway.next at h
    dsimp only at h
    split at h
    · split at h
      · cases h
        exact ⟨rfl, rfl, fun _ => rfl⟩
      · cases h
        unfold relays
        split
        · split
          · exact ⟨rfl, rfl, fun _ => rfl⟩
          · exact ⟨rfl, rfl, fun _ => rfl⟩
        · exact ⟨rfl, rfl, fun _ => rfl⟩
    · cases h
  | report i r =>
    unfold Gateway.next at h
    dsimp only at h
    split at h
    · cases h
      exact ⟨rfl, rfl, fun _ => rfl⟩
    · cases h
  | retry i =>
    unfold Gateway.next at h
    dsimp only at h
    split at h
    · cases h
      exact ⟨rfl, rfl, fun _ => rfl⟩
    · cases h
  | complete i tokens vkNow seatNow =>
    unfold Gateway.next at h
    dsimp only at h
    split at h
    · next r _ =>
      cases h
      refine ⟨rfl, rfl, fun a => ?_⟩
      -- tokens are debited to the other bucket
      show ((debit g r tokens vkNow seatNow).vkCells a).rpm = _
      unfold debit
      dsimp only
      cases r.vkey with
      | none => rfl
      | some vk =>
        dsimp only
        unfold debitUsage
        by_cases htokens : tokens > 0
        · rw [if_pos htokens]
          by_cases ha : a = vk.addr
          · rw [ha, Function.update_self]
          · rw [Function.update_of_ne ha]
        · rw [if_neg htokens]
    · cases h
  | recover a config now =>
    cases h
    exact ⟨rfl, rfl, fun _ => rfl⟩
  | check a config r =>
    cases h
    exact ⟨rfl, rfl, fun _ => rfl⟩
  | reload config defs shares => cases htable
  | refresh defs shares => cases htable

theorem inForce_congr {v v' : Node} (h : v'.gateway.vkeys = v.gateway.vkeys) :
    v'.inForce = v.inForce := by
  funext vk
  unfold Node.inForce
  rw [h]

theorem bucket_congr {v v' : Node} (h : v'.gateway.vkeys = v.gateway.vkeys)
    (hrpm : ∀ vk, v.gateway.vkeys.get? id = some vk →
      (v'.gateway.vkCells vk.addr).rpm = (v.gateway.vkCells vk.addr).rpm) :
    v'.bucket id = v.bucket id := by
  cases hkey : v.gateway.vkeys.get? id with
  | none => rw [bucket_eq_none hkey, bucket_eq_none (h ▸ hkey)]
  | some vk => rw [bucket_eq hkey, bucket_eq (v := v') (h ▸ hkey), hrpm vk hkey]

/-- A step that leaves the table and its bucket of the key. -/
theorem Sound.same {v v' : Node} (hs : Sound id v) (hkeys : v'.gateway.vkeys = v.gateway.vkeys)
    (hgen : v'.gateway.gen = v.gateway.gen)
    (hrpm : ∀ vk, v.gateway.vkeys.get? id = some vk →
      (v'.gateway.vkCells vk.addr).rpm = (v.gateway.vkCells vk.addr).rpm)
    (hlooked : ∀ vk ∈ v'.looked, vk.addr.gen ≤ v.gateway.gen) : Sound id v' := by
  refine ⟨fun id' vk hvk => ?_, fun vk hvk => hgen ▸ hlooked vk hvk, fun vk hvk => ?_⟩
  · rw [hkeys] at hvk
    exact hgen ▸ hs.own id' vk hvk
  · rw [hkeys] at hvk
    rw [hrpm vk hvk]
    exact hs.bucket vk hvk

/-- A request looks up a key of the table in force. -/
theorem look_paid {v : Node} (hs : Sound id v) {id' : String} {vk : VkRuntime}
    (h : v.gateway.vkeys.get? id' = some vk) :
    Sound id { v with looked := vk :: v.looked } ∧
      Node.room id { v with looked := vk :: v.looked } = v.room id := by
  obtain ⟨hid, hgen⟩ := hs.own id' vk h
  refine ⟨hs.same rfl rfl (fun _ _ => rfl) fun c hc => ?_, ?_⟩
  · rcases List.mem_cons.mp hc with rfl | hc
    · exact hgen
    · exact hs.looked c hc
  · have hforce : v.inForce vk = true := inForce_iff.mpr ⟨vk, by rw [hid]; exact h, rfl⟩
    have hleft : Node.leftOver id { v with looked := vk :: v.looked } = v.leftOver id := by
      show (vk :: v.looked).countP (fun c => c.addr.id = id && !v.inForce c) = _
      rw [List.countP_cons_of_neg (by rw [hforce, Bool.not_true, Bool.and_false]; exact Bool.false_ne_true)]
      rfl
    unfold Node.room
    rw [hleft]
    rfl

theorem drop_paid {v : Node} (hs : Sound id v) (k : Nat) :
    Sound id { v with looked := v.looked.eraseIdx k } ∧
      Node.room id { v with looked := v.looked.eraseIdx k } ≤ v.room id := by
  refine ⟨hs.same rfl rfl (fun _ _ => rfl) fun c hc => hs.looked c (List.mem_of_mem_eraseIdx hc),
    ?_⟩
  have hleft : Node.leftOver id { v with looked := v.looked.eraseIdx k } ≤ v.leftOver id :=
    (List.eraseIdx_sublist ..).countP_le
  show (match v.bucket id with
    | none => 0
    | some b => b.room v.clock) + 1000 * _ ≤ _
  unfold Node.room
  omega

/-- A key of the table in force is asked: what it admits comes out of its
bucket. -/
theorem admit_inForce {v : Node} (hs : Sound id v) {k : Nat} {vk : VkRuntime}
    (hk : v.looked[k]? = some vk) (hid : vk.addr.id = id) (hforce : v.inForce vk = true)
    (budgetLeft : Bool) {v' : Node}
    (hv' : v' = { v with
      gateway := begins v.gateway vk v.clock budgetLeft, looked := v.looked.eraseIdx k }) :
    Sound id v' ∧
      v'.room id + (if ((v.gateway.vkCells vk.addr).admitted v.clock).2 then 1000 else 0) ≤
        v.room id := by
  obtain ⟨cur, hcur, haddr⟩ := inForce_iff.mp hforce
  rw [hid] at hcur
  obtain ⟨limit, b, hlimit, hb, hlimits, havail⟩ := hs.bucket cur hcur
  have hasked := admitted_rpm (haddr ▸ hb) v.clock
  obtain ⟨hsame, hbalance, hroom⟩ := Bucket.tryConsume_one_room havail v.clock
  have hcells : (v'.gateway.vkCells cur.addr).rpm = some (b.tryConsume 1 v.clock).1 := by
    rw [hv', haddr]
    show (Function.update v.gateway.vkCells vk.addr _ vk.addr).rpm = _
    rw [Function.update_self]
    exact hasked.1
  have hkeys : v'.gateway.vkeys = v.gateway.vkeys := by rw [hv']; rfl
  have hgen : v'.gateway.gen = v.gateway.gen := by rw [hv']; rfl
  have hcur' : v'.gateway.vkeys.get? id = some cur := hkeys ▸ hcur
  refine ⟨⟨fun id' c hc => ?_, fun c hc => ?_, fun c hc => ?_⟩, ?_⟩
  · rw [hkeys] at hc
    exact hgen ▸ hs.own id' c hc
  · rw [hv'] at hc
    exact hgen ▸ hs.looked c (List.mem_of_mem_eraseIdx hc)
  · rw [hcur'] at hc
    cases hc
    exact ⟨limit, _, hlimit, hcells, hsame.trans hlimits, hsame.symm ▸ hbalance⟩
  · have hcount := Lists.countP_eraseIdx (fun c => c.addr.id = id && !v.inForce c) hk
    rw [hforce, Bool.not_true, Bool.and_false] at hcount
    have hleft : v'.leftOver id = v.leftOver id := by
      unfold Node.leftOver
      rw [inForce_congr hkeys, hv']
      exact hcount
    have hclock : v'.clock = v.clock := by rw [hv']
    unfold Node.room
    rw [hleft, bucket_eq hcur', hcells, bucket_eq hcur, hb, hclock]
    dsimp only
    by_cases hadmitted : ((v.gateway.vkCells vk.addr).admitted v.clock).2 = true
    · have htook := hasked.2 hadmitted
      rw [htook] at hroom
      rw [hadmitted]
      simp only [if_true] at hroom ⊢
      omega
    · rw [if_neg hadmitted]
      omega

/-- A key of an older table is asked, or another key: the bucket stays. -/
theorem admit_elsewhere {v : Node} (hs : Sound id v) {k : Nat} {vk : VkRuntime}
    (hk : v.looked[k]? = some vk) (hnot : ¬ (vk.addr.id = id ∧ v.inForce vk = true))
    (budgetLeft : Bool) {v' : Node}
    (hv' : v' = { v with
      gateway := begins v.gateway vk v.clock budgetLeft, looked := v.looked.eraseIdx k }) :
    Sound id v' ∧ v'.room id + (if vk.addr.id = id then 1000 else 0) ≤ v.room id := by
  have hkeys : v'.gateway.vkeys = v.gateway.vkeys := by rw [hv']; rfl
  have hclock : v'.clock = v.clock := by rw [hv']
  have hrpm : ∀ cur, v.gateway.vkeys.get? id = some cur →
      (v'.gateway.vkCells cur.addr).rpm = (v.gateway.vkCells cur.addr).rpm := by
    intro cur hcur
    have hother : cur.addr ≠ vk.addr := by
      intro heq
      have hid : vk.addr.id = id := heq ▸ (hs.own id cur hcur).1
      exact hnot ⟨hid, inForce_iff.mpr ⟨cur, hid.symm ▸ hcur, heq⟩⟩
    rw [hv']
    show (Function.update v.gateway.vkCells vk.addr _ cur.addr).rpm = _
    rw [Function.update_of_ne hother]
  refine ⟨hs.same hkeys (by rw [hv']; rfl) hrpm fun c hc => ?_, ?_⟩
  · rw [hv'] at hc
    exact hs.looked c (List.mem_of_mem_eraseIdx hc)
  · have hcount := Lists.countP_eraseIdx (fun c => c.addr.id = id && !v.inForce c) hk
    have hleft : v'.leftOver id + (if vk.addr.id = id then 1 else 0) ≤ v.leftOver id := by
      unfold Node.leftOver
      rw [inForce_congr hkeys, hv', ← hcount]
      refine Nat.add_le_add_left ?_ _
      by_cases hid : vk.addr.id = id
      · have hold : v.inForce vk = false := by
          rw [← Bool.not_eq_true]
          intro hforce
          exact hnot ⟨hid, hforce⟩
        rw [hold, decide_eq_true hid]
        exact le_of_eq (if_pos hid)
      · rw [if_neg hid]
        exact Nat.zero_le _
    unfold Node.room
    rw [bucket_congr hkeys hrpm, hclock]
    by_cases hid : vk.addr.id = id
    · rw [if_pos hid] at hleft ⊢
      omega
    · rw [if_neg hid] at hleft ⊢
      omega

theorem get?_vkTable (defs : List VirtualKeyDef) (shares gen : Nat) (id' : String) :
    (vkTable defs shares gen).get? id' =
      ((byId defs).get? id').map fun d => ⟨d, max shares 1, ⟨gen, id'⟩⟩ :=
  OrdMap.get?_mapWithKey ..

/-- A limited key has a bucket in a new table: its own, or a full one. -/
theorem rebuilt_bucket {v : Node} (hs : Sound id v) {defs : List VirtualKeyDef} {shares : Nat}
    {d : VirtualKeyDef} (hd : (byId defs).get? id = some d) {limit : Nat}
    (hlimit : d.rate.bind (·.rpm) = some limit) :
    ∃ b, (vkCells d shares ((v.gateway.vkeys.get? id).map fun p =>
        (p, v.gateway.vkCells p.addr))).rpm = some b ∧
      b.limits = sized limit (max shares 1) ∧ b.available ≤ b.limits.capacityMilli ∧
      ((v.carries id defs shares = true ∧ v.bucket id = some b) ∨
        v.carries id defs shares = false ∧ b.limits.capacityMilli = fresh id defs shares) := by
  have hmax := sized_max limit shares
  obtain ⟨new, hnew, hlimits, hfull⟩ := fresh_rpm hlimit shares
  have hfresh : fresh id defs shares = new.limits.capacityMilli := by
    unfold fresh
    rw [hd]
    dsimp only
    rw [hnew]
  cases hp : v.gateway.vkeys.get? id with
  | none =>
    have hnot : v.carries id defs shares = false := by
      unfold Node.carries
      rw [hp]
    exact ⟨new, hnew, hlimits.trans hmax.symm, hfull.le, Or.inr ⟨hnot, hfresh.symm⟩⟩
  | some p =>
    obtain ⟨limit', b, hlimit', hb, hlimits', havail⟩ := hs.bucket p hp
    have hrpm := carried_rpm hlimit shares p (v.gateway.vkCells p.addr) hb
    have hcarries : v.carries id defs shares =
        decide (p.definition.rate = d.rate ∧ p.shares = max shares 1) := by
      unfold Node.carries
      rw [hp, hd]
    by_cases hsame : p.definition.rate = d.rate ∧ p.shares = max shares 1
    · rw [if_pos hsame] at hrpm
      have hlimit'' : limit' = limit := by
        rw [hsame.1, hlimit] at hlimit'
        exact (Option.some.inj hlimit').symm
      refine ⟨b, hrpm, ?_, havail, Or.inl ⟨hcarries.trans (decide_eq_true hsame), ?_⟩⟩
      · rw [hlimits', hlimit'', hsame.2]
      · rw [bucket_eq hp]
        exact hb
    · rw [if_neg hsame, hnew] at hrpm
      exact ⟨new, hrpm, hlimits.trans hmax.symm, hfull.le,
        Or.inr ⟨hcarries.trans (decide_eq_false hsame), hfresh.symm⟩⟩

/-- A node puts a new key table in force. -/
structure Rebuilds (v v' : Node) (defs : List VirtualKeyDef) (shares : Nat) : Prop where
  keys : v'.gateway.vkeys = vkTable defs shares (v.gateway.gen + 1)
  cells : v'.gateway.vkCells = (rebuildKeys v.gateway defs shares).vkCells
  gen : v.gateway.gen + 1 ≤ v'.gateway.gen
  looked : v'.looked = v.looked
  clock : v'.clock = v.clock

/-- The table stays, and what requests it has let through. -/
structure Keeps (v v' : Node) : Prop where
  keys : v'.gateway.vkeys = v.gateway.vkeys
  gen : v'.gateway.gen = v.gateway.gen
  rpm : ∀ a, (v'.gateway.vkCells a).rpm = (v.gateway.vkCells a).rpm
  looked : v'.looked = v.looked
  clock : v'.clock = v.clock

theorem gateway_cases {v v' : Node} {l : Gateway.Label κ} (h : v.next (.gateway l) = some v') :
    (∃ defs shares, newTable l = some (defs, shares) ∧ Rebuilds v v' defs shares) ∨
      newTable l = none ∧ Keeps v v' := by
  unfold Node.next at h
  dsimp only at h
  by_cases hask : asksKey l = true
  · rw [if_pos hask] at h
    cases h
  · rw [if_neg hask] at h
    obtain ⟨g, hg, rfl⟩ := Option.map_eq_some_iff.mp h
    cases htable : newTable l with
    | none =>
      obtain ⟨hkeys, hgen, hrpm⟩ := next_keeps hg (Bool.not_eq_true _ ▸ hask) htable
      exact Or.inr ⟨rfl, hkeys, hgen, hrpm, rfl, rfl⟩
    | some table =>
      obtain ⟨defs, shares⟩ := table
      refine Or.inl ⟨defs, shares, rfl, ?_⟩
      unfold newTable at htable
      split at htable
      · cases htable
        cases hg
        exact ⟨rfl, rfl, Nat.le_succ _, rfl, rfl⟩
      · cases htable
        cases hg
        exact ⟨rfl, rfl, le_rfl, rfl, rfl⟩
      · cases htable

/-- A new key table: the requests that looked the key up before are of an
older one now, and a bucket that is not carried over is full. -/
theorem rebuild_paid {v v' : Node} (hs : Sound id v) {defs : List VirtualKeyDef} {shares : Nat}
    (hlimited : LimitedIn id defs) (hrebuilds : Rebuilds v v' defs shares) :
    Sound id v' ∧ v'.room id ≤ v.room id + v.rebuilt id defs shares := by
  obtain ⟨hkeys, hcells, hgen, hlooked, hclock⟩ := hrebuilds
  have hget : ∀ id', v'.gateway.vkeys.get? id' = ((byId defs).get? id').map fun d =>
      (⟨d, max shares 1, ⟨v.gateway.gen + 1, id'⟩⟩ : VkRuntime) := by
    intro id'
    rw [hkeys]
    exact get?_vkTable ..
  have hcell : ∀ d, (byId defs).get? id = some d →
      v'.gateway.vkCells ⟨v.gateway.gen + 1, id⟩ =
        vkCells d shares ((v.gateway.vkeys.get? id).map fun p =>
          (p, v.gateway.vkCells p.addr)) := by
    intro d hd
    rw [hcells]
    unfold rebuildKeys
    dsimp only
    rw [if_pos rfl, hd]
  have hbucket : ∀ d, (byId defs).get? id = some d →
      ∃ limit, d.rate.bind (·.rpm) = some limit := fun d hd =>
    Option.isSome_iff_exists.mp (hlimited d hd)
  refine ⟨⟨fun id' vk hvk => ?_, fun vk hvk => ?_, fun vk hvk => ?_⟩, ?_⟩
  · rw [hget, Option.map_eq_some_iff] at hvk
    obtain ⟨d, -, rfl⟩ := hvk
    exact ⟨rfl, hgen⟩
  · rw [hlooked] at hvk
    have := hs.looked vk hvk
    omega
  · rw [hget, Option.map_eq_some_iff] at hvk
    obtain ⟨d, hd, rfl⟩ := hvk
    obtain ⟨limit, hlimit⟩ := hbucket d hd
    obtain ⟨b, hb, hlimits, havail, -⟩ := @rebuilt_bucket id v hs defs shares d hd limit hlimit
    refine ⟨limit, b, hlimit, ?_, hlimits, havail⟩
    show (v'.gateway.vkCells ⟨v.gateway.gen + 1, id⟩).rpm = some b
    rw [hcell d hd]
    exact hb
  · -- nobody holds a key of the new table yet
    have hold : ∀ vk ∈ v.looked, v'.inForce vk = false := by
      intro vk hvk
      rw [← Bool.not_eq_true, inForce_iff]
      rintro ⟨c, hc, haddr⟩
      rw [hget, Option.map_eq_some_iff] at hc
      obtain ⟨d, -, rfl⟩ := hc
      have hgen' : v.gateway.gen + 1 = vk.addr.gen := congrArg VkAddr.gen haddr
      have := hs.looked vk hvk
      omega
    have hleft : v'.leftOver id = v.leftOver id + v.pending id := by
      unfold Node.leftOver Node.pending
      rw [hlooked]
      have hall : v.looked.countP (fun vk => vk.addr.id = id && !v'.inForce vk) =
          v.looked.countP fun vk => decide (vk.addr.id = id) := by
        refine List.countP_congr fun vk hvk => ?_
        rw [hold vk hvk, Bool.not_false, Bool.and_true]
      rw [hall, List.countP_eq_countP_filter_add v.looked _ v.inForce, List.countP_filter,
        List.countP_filter, Nat.add_comm]
    have hroom : (match v'.bucket id with
        | none => 0
        | some b => b.room v'.clock) ≤
        (match v.bucket id with
          | none => 0
          | some b => b.room v.clock) +
          if v.carries id defs shares then 0 else fresh id defs shares := by
      cases hd : (byId defs).get? id with
      | none =>
        rw [bucket_eq_none (by rw [hget, hd]; rfl)]
        exact Nat.zero_le _
      | some d =>
        obtain ⟨limit, hlimit⟩ := hbucket d hd
        obtain ⟨b, hb, hlimits, havail, hwhich⟩ :=
          @rebuilt_bucket id v hs defs shares d hd limit hlimit
        have hnew : v'.bucket id = some b := by
          rw [bucket_eq (v := v') (by rw [hget, hd]; rfl)]
          show (v'.gateway.vkCells ⟨v.gateway.gen + 1, id⟩).rpm = some b
          rw [hcell d hd]
          exact hb
        rw [hnew, hclock]
        rcases hwhich with ⟨hcarries, hsame⟩ | ⟨hcarries, hfull⟩
        · rw [hsame]
          exact Nat.le_add_right ..
        · rw [hcarries, ← hfull]
          have hle := b.room_le v.clock
          simp only [Bool.false_eq_true, if_false]
          omega
    unfold Node.room Node.rebuilt
    rw [hleft]
    omega

/-- A process that starts has full buckets and no requests. -/
theorem booted_sound {defs : List VirtualKeyDef} (hlimited : LimitedIn id defs)
    (config : Core.Live.Config) (shares : Nat) :
    Sound id (booted config defs shares) ∧
      (booted config defs shares).room id ≤ fresh id defs shares := by
  have hget : ∀ id', (booted config defs shares).gateway.vkeys.get? id' =
      ((byId defs).get? id').map fun d => (⟨d, max shares 1, ⟨0, id'⟩⟩ : VkRuntime) :=
    fun id' => get?_vkTable ..
  have hcell : ∀ d, (byId defs).get? id = some d →
      (booted config defs shares).gateway.vkCells ⟨0, id⟩ = vkCells d shares none := by
    intro d hd
    unfold booted boot
    dsimp only
    rw [hd]
  refine ⟨⟨fun id' vk hvk => ?_, fun vk hvk => ?_, fun vk hvk => ?_⟩, ?_⟩
  · rw [hget, Option.map_eq_some_iff] at hvk
    obtain ⟨d, -, rfl⟩ := hvk
    exact ⟨rfl, le_rfl⟩
  · cases hvk
  · rw [hget, Option.map_eq_some_iff] at hvk
    obtain ⟨d, hd, rfl⟩ := hvk
    obtain ⟨limit, hlimit⟩ := Option.isSome_iff_exists.mp (hlimited d hd)
    obtain ⟨b, hb, hlimits, hfull⟩ := fresh_rpm hlimit shares
    refine ⟨limit, b, hlimit, ?_, ?_, hfull.le⟩
    · show ((booted config defs shares).gateway.vkCells ⟨0, id⟩).rpm = some b
      rw [hcell d hd]
      exact hb
    · show b.limits = sized limit (max shares 1)
      rw [hlimits, sized_max]
  · unfold Node.room fresh
    cases hd : (byId defs).get? id with
    | none =>
      rw [bucket_eq_none (by rw [hget, hd]; rfl)]
      exact le_rfl
    | some d =>
      obtain ⟨limit, hlimit⟩ := Option.isSome_iff_exists.mp (hlimited d hd)
      obtain ⟨b, hb, -, -⟩ := fresh_rpm hlimit shares
      rw [bucket_eq (by rw [hget, hd]; rfl)]
      show (match ((booted config defs shares).gateway.vkCells ⟨0, id⟩).rpm with
        | none => 0
        | some b => b.room 0) + 0 ≤ _
      rw [hcell d hd, hb]
      dsimp only
      rw [hb]
      exact b.room_le 0

/-- What a node admits is paid by its room and by what it is granted. -/
theorem node_paid {v v' : Node} (hs : Sound id v) {a : Act κ} (h : v.next a = some v')
    (hok : a.limited id) :
    Sound id v' ∧ v'.room id + 1000 * v.admits id a ≤ v.room id + v.granted id a := by
  cases a with
  | look id' =>
    obtain ⟨vk, hvk, rfl⟩ := Option.map_eq_some_iff.mp h
    obtain ⟨hsound, hroom⟩ := look_paid hs hvk
    exact ⟨hsound, hroom.le⟩
  | ask k budgetLeft =>
    obtain ⟨vk, hvk, hv'⟩ := Option.map_eq_some_iff.mp h
    have hadmits : v.admits id (.ask k budgetLeft : Act κ) =
        if vk.addr.id = id ∧ ((v.gateway.vkCells vk.addr).admitted v.clock).2 = true ∧
          budgetLeft = true then 1 else 0 := by
      unfold Node.admits
      dsimp only
      rw [hvk]
    rw [hadmits]
    show _ ∧ _ ≤ v.room id + 0
    by_cases hforce : vk.addr.id = id ∧ v.inForce vk = true
    · obtain ⟨hsound, hroom⟩ := admit_inForce hs hvk hforce.1 hforce.2 budgetLeft hv'.symm
      refine ⟨hsound, ?_⟩
      by_cases hall : vk.addr.id = id ∧ ((v.gateway.vkCells vk.addr).admitted v.clock).2 = true ∧
          budgetLeft = true
      · rw [if_pos hall]
        rw [if_pos hall.2.1] at hroom
        omega
      · rw [if_neg hall]
        omega
    · obtain ⟨hsound, hroom⟩ := admit_elsewhere hs hvk hforce budgetLeft hv'.symm
      refine ⟨hsound, ?_⟩
      by_cases hall : vk.addr.id = id ∧ ((v.gateway.vkCells vk.addr).admitted v.clock).2 = true ∧
          budgetLeft = true
      · rw [if_pos hall]
        rw [if_pos hall.1] at hroom
        omega
      · rw [if_neg hall]
        omega
  | drop k =>
    cases h
    exact drop_paid hs k
  | gateway l =>
    rcases gateway_cases h with ⟨defs, shares, htable, hrebuilds⟩ | ⟨htable, hkeeps⟩
    · have hgranted : v.granted id (.gateway l) = v.rebuilt id defs shares := by
        unfold Node.granted
        dsimp only
        rw [htable]
      rw [hgranted]
      exact rebuild_paid hs (hok _ htable) hrebuilds
    · refine ⟨hs.same hkeeps.keys hkeeps.gen (fun _ _ => hkeeps.rpm _) fun vk hvk => ?_, ?_⟩
      · rw [hkeeps.looked] at hvk
        exact hs.looked vk hvk
      · have hleft : v'.leftOver id = v.leftOver id := by
          unfold Node.leftOver
          rw [inForce_congr hkeeps.keys, hkeeps.looked]
        have hbucket : v'.bucket id = v.bucket id :=
          bucket_congr hkeeps.keys fun _ _ => hkeeps.rpm _
        show v'.room id + 1000 * 0 ≤ _
        unfold Node.room
        rw [hleft, hbucket, hkeeps.clock]
        exact Nat.le_add_right ..
  | restart config defs shares =>
    cases h
    obtain ⟨hsound, hroom⟩ := @booted_sound id defs hok config shares
    exact ⟨hsound, Nat.le_trans hroom (Nat.le_add_left ..)⟩

/-! ## A step of the fleet -/

theorem tick_paid {v : Node} (hs : Sound id v) (ms : Nat) :
    Sound id { v with clock := v.clock + ms } ∧
      Node.room id { v with clock := v.clock + ms } ≤ v.room id + v.refillRate id * ms := by
  refine ⟨hs.same rfl rfl (fun _ _ => rfl) hs.looked, ?_⟩
  show (match v.bucket id with
    | none => 0
    | some b => b.room (v.clock + ms)) + 1000 * v.leftOver id ≤ _
  unfold Node.room Node.refillRate
  cases v.bucket id with
  | none => exact Nat.le_add_right ..
  | some b =>
    have hpassed := b.room_add_le v.clock ms
    dsimp only
    omega

/-- One step of a fleet. -/
theorem fleet_paid {s s' : ι → Node} {m : Move ι κ} (hs : ∀ n, Sound id (s n))
    (hok : Limited id s m) (h : next s m = some s') :
    (∀ n, Sound id (s' n)) ∧
      ∑ n, (s' n).room id + 1000 * admits id s m ≤ ∑ n, (s n).room id + granted id s m := by
  cases m with
  | tick ms =>
    cases h
    refine ⟨fun n => (tick_paid (hs n) ms).1, ?_⟩
    show ∑ n, _ + 0 ≤ ∑ n, (s n).room id + ∑ n, (s n).refillRate id * ms
    rw [← Finset.sum_add_distrib]
    exact Finset.sum_le_sum fun n _ => (tick_paid (hs n) ms).2
  | at_ n a =>
    obtain ⟨v, hv, rfl⟩ := Option.map_eq_some_iff.mp h
    obtain ⟨hsound, hpaid⟩ := node_paid (hs n) hv hok
    refine ⟨fun j => ?_, ?_⟩
    · by_cases hj : j = n
      · rw [hj, Function.update_self]
        exact hsound
      · rw [Function.update_of_ne hj]
        exact hs j
    · have hsum := sum_update (Node.room id) s n v
      show _ + 1000 * (s n).admits id a ≤ _ + (s n).granted id a
      omega

theorem sound_of_reach {s : ι → Node} (h : Reach (fleet ι κ id) (Limited id) s) :
    ∀ n, Sound id (s n) := by
  refine h.invariant (I := fun s => ∀ n, Sound id (s n)) ?_ ?_
  · intro s hstart n
    obtain ⟨config, defs, shares, hlimited, heq⟩ := hstart n
    rw [heq]
    exact (booted_sound hlimited config shares).1
  · intro s m s' hs hok hnext
    exact (fleet_paid hs hok hnext).1

/-! ## While the shares stay -/

theorem settled_of_keys {v v' : Node} {limit shares : Nat} (h : v.settled id limit shares)
    (hkeys : v'.gateway.vkeys = v.gateway.vkeys) : v'.settled id limit shares := by
  unfold Node.settled
  rw [hkeys]
  exact h

/-- A step that carries the key's bucket over leaves its limit and its shares,
and grants one for each request it leaves behind. -/
theorem node_settled {v v' : Node} {limit shares : Nat} {a : Act κ} (hok : v.carried id a)
    (hset : v.settled id limit shares) (h : v.next a = some v') :
    v'.settled id limit shares ∧ v.granted id a = 1000 * v.left id a := by
  cases a with
  | look id' =>
    obtain ⟨vk, -, rfl⟩ := Option.map_eq_some_iff.mp h
    exact ⟨hset, rfl⟩
  | ask k budgetLeft =>
    obtain ⟨vk, -, rfl⟩ := Option.map_eq_some_iff.mp h
    exact ⟨hset, rfl⟩
  | drop k =>
    cases h
    exact ⟨hset, rfl⟩
  | gateway l =>
    rcases gateway_cases h with ⟨defs, n, htable, hrebuilds⟩ | ⟨htable, hkeeps⟩
    · have hcarries : v.carries id defs n = true := hok _ htable
      refine ⟨?_, ?_⟩
      · unfold Node.carries at hcarries
        unfold Node.settled at hset ⊢
        rw [hrebuilds.keys, get?_vkTable]
        cases hp : v.gateway.vkeys.get? id with
        | none =>
          rw [hp] at hset
          cases hset
        | some p =>
          cases hd : (byId defs).get? id with
          | none =>
            rw [hp, hd] at hcarries
            cases hcarries
          | some d =>
            rw [hp, hd] at hcarries
            obtain ⟨hrate, hshares⟩ := of_decide_eq_true hcarries
            rw [hp] at hset
            show some (d.rate.bind (·.rpm), max n 1) = _
            rw [← hrate, ← hshares]
            exact hset
      · unfold Node.granted Node.left
        dsimp only
        rw [htable]
        dsimp only
        unfold Node.rebuilt
        rw [hcarries, if_pos rfl]
        rfl
    · refine ⟨settled_of_keys hset hkeeps.keys, ?_⟩
      unfold Node.granted Node.left
      dsimp only
      rw [htable]
      rfl
  | restart config defs n => exact hok.elim

/-- What a node with its share can admit, and what each millisecond adds. -/
theorem room_of_settled {v : Node} {limit shares : Nat} (hs : Sound id v)
    (hset : v.settled id limit shares) :
    v.refillRate id = max (shareOf limit shares / 60) 1 ∧
      v.room id ≤ 1000 * shareOf limit shares + 1000 * v.leftOver id := by
  obtain ⟨vk, hvk, heq⟩ := Option.map_eq_some_iff.mp hset
  obtain ⟨limit', b, hlimit, hb, hlimits, -⟩ := hs.bucket vk hvk
  rw [Prod.mk.injEq, hlimit] at heq
  obtain ⟨hsame, hshares⟩ := heq
  cases hsame
  rw [hshares] at hlimits
  have hbucket := (bucket_eq hvk).trans hb
  refine ⟨?_, ?_⟩
  · unfold Node.refillRate
    rw [hbucket]
    dsimp only
    rw [hlimits]
    rfl
  · have hle := b.room_le v.clock
    have hcapacity : b.limits.capacityMilli ≤ shareOf limit shares * 1000 := by
      rw [hlimits]
      exact Nat.mod_le _ _
    unfold Node.room
    rw [hbucket]
    dsimp only
    omega

/-- The requests left behind when the stretch begins, and by its tables. -/
def stragglers (id : String) (s : ι → Node) (as : List (Move ι κ)) : Nat :=
  ∑ n, (s n).leftOver id + runTotal (left id) next s as

theorem settled_paid {s s' : ι → Node} {limit shares : Nat} {m : Move ι κ}
    (hs : (∀ n, Sound id (s n)) ∧ Settled id limit shares s)
    (hok : Limited id s m ∧ Carried id s m) (h : next s m = some s') :
    ((∀ n, Sound id (s' n)) ∧ Settled id limit shares s') ∧
      ∑ n, (s' n).room id + 1000 * admits id s m ≤
        ∑ n, (s n).room id +
          (Fintype.card ι * max (shareOf limit shares / 60) 1 * m.ms + 1000 * left id s m) := by
  obtain ⟨hsound, hpaid⟩ := fleet_paid hs.1 hok.1 h
  cases m with
  | tick ms =>
    cases h
    refine ⟨⟨hsound, hs.2⟩, ?_⟩
    have hrate : granted id s (.tick ms : Move ι κ) =
        Fintype.card ι * max (shareOf limit shares / 60) 1 * ms := by
      have hall : ∀ n, (s n).refillRate id * ms = max (shareOf limit shares / 60) 1 * ms :=
        fun n => by rw [(room_of_settled (hs.1 n) (hs.2 n)).1]
      show ∑ n, (s n).refillRate id * ms = _
      rw [Finset.sum_congr rfl fun n _ => hall n, Finset.sum_const, smul_eq_mul, Finset.card_univ,
        Nat.mul_assoc]
    rw [hrate] at hpaid
    exact hpaid
  | at_ n a =>
    obtain ⟨v, hv, rfl⟩ := Option.map_eq_some_iff.mp h
    obtain ⟨hset, hgranted⟩ := node_settled hok.2 (hs.2 n) hv
    refine ⟨⟨hsound, fun j => ?_⟩, ?_⟩
    · by_cases hj : j = n
      · rw [hj, Function.update_self]
        exact hset
      · rw [Function.update_of_ne hj]
        exact hs.2 j
    · have hleft : granted id s (.at_ n a) = 1000 * left id s (.at_ n a) := hgranted
      omega

/-- The shares of a limit, of sixty a node and more, come to the limit, and
what they are refilled with to a sixtieth of it each second. -/
theorem shares_le {limit shares : Nat} (h : 60 * shares ≤ limit) (ms : Nat) :
    60 * (shares * (1000 * shareOf limit shares + max (shareOf limit shares / 60) 1 * ms)) ≤
      60000 * limit + limit * ms := by
  cases shares with
  | zero => rw [Nat.zero_mul]; exact Nat.zero_le _
  | succ k =>
    have hmax : max (k + 1) 1 = k + 1 := Nat.max_eq_left (Nat.succ_pos k)
    have hsixty : 60 ≤ limit / (k + 1) := (Nat.le_div_iff_mul_le (Nat.succ_pos k)).mpr h
    have hshare : shareOf limit (k + 1) = limit / (k + 1) := by
      unfold shareOf
      rw [hmax]
      omega
    have hrate : max (limit / (k + 1) / 60) 1 = limit / (k + 1) / 60 := by omega
    have hall : (k + 1) * (limit / (k + 1)) ≤ limit := Nat.mul_div_le limit (k + 1)
    have hsecond : 60 * (limit / (k + 1) / 60) ≤ limit / (k + 1) := Nat.mul_div_le _ 60
    rw [hshare, hrate]
    calc 60 * ((k + 1) * (1000 * (limit / (k + 1)) + limit / (k + 1) / 60 * ms))
        = 60000 * ((k + 1) * (limit / (k + 1))) +
            (k + 1) * (60 * (limit / (k + 1) / 60)) * ms := by ring
      _ ≤ 60000 * limit + (k + 1) * (limit / (k + 1)) * ms :=
          Nat.add_le_add (Nat.mul_le_mul_left _ hall)
            (Nat.mul_le_mul_right _ (Nat.mul_le_mul_left _ hsecond))
      _ ≤ 60000 * limit + limit * ms :=
          Nat.add_le_add_left (Nat.mul_le_mul_right _ hall) _

/-- **What a fleet admits.** In any stretch of a run, of requests, reloads and
nodes that come and go, no more than its buckets hold and are granted. With
the key's limit and one share for each node throughout, no more than the
nodes' shares and their refill, and with a limit of sixty a node or more no
more than the limit and its refill, but for the requests a new table leaves
behind. -/
theorem limit_kept {s s' : ι → Node} {as : List (Move ι κ)}
    (h : Reach (fleet ι κ id) (Limited id) s) (hlimited : Admitted (Limited id) next s as)
    (hrun : run next s as = some s') :
    1000 * runTotal (admits id) next s as ≤ ∑ n, (s n).room id + runTotal (granted id) next s as ∧
      ∀ limit, Settled id limit (Fintype.card ι) s → Admitted (Carried id) next s as →
        1000 * runTotal (admits id) next s as ≤
          Fintype.card ι * (1000 * shareOf limit (Fintype.card ι) +
              max (shareOf limit (Fintype.card ι) / 60) 1 * elapsed as) +
            1000 * stragglers id s as ∧
        (60 * Fintype.card ι ≤ limit →
          60000 * runTotal (admits id) next s as ≤
            60000 * limit + limit * elapsed as + 60000 * stragglers id s as) := by
  have hs := sound_of_reach h
  have htotal : runTotal (fun s m => 1000 * admits id s m) next s as =
      1000 * runTotal (admits id) next s as := runTotal_mul 1000 (admits id) as s
  refine ⟨?_, fun limit hset hcarried => ?_⟩
  · have hpaid : ∑ n, (s' n).room id + runTotal (fun s m => 1000 * admits id s m) next s as ≤
        ∑ n, (s n).room id + runTotal (granted id) next s as :=
      (@paid _ _ next (Limited id) (fun s => ∀ n, Sound id (s n)) (fun s => ∑ n, (s n).room id)
        (fun s m => 1000 * admits id s m) (granted id)
        (fun s m s' hs hok hnext => fleet_paid hs hok hnext) as s s' hs hlimited hrun).2
    omega
  · have hboth : Admitted (fun s m => Limited id s m ∧ Carried id s m) next s as :=
      Admitted.and as s hlimited hcarried
    have hpaid : ∑ n, (s' n).room id + runTotal (fun s m => 1000 * admits id s m) next s as ≤
        ∑ n, (s n).room id + runTotal (fun s m =>
          Fintype.card ι * max (shareOf limit (Fintype.card ι) / 60) 1 * m.ms +
            1000 * left id s m) next s as :=
      (@paid _ _ next (fun s m => Limited id s m ∧ Carried id s m)
        (fun s => (∀ n, Sound id (s n)) ∧ Settled id limit (Fintype.card ι) s)
        (fun s => ∑ n, (s n).room id) (fun s m => 1000 * admits id s m) _
        (fun s m s' hs hok hnext => settled_paid hs hok hnext) as s s' ⟨hs, hset⟩ hboth hrun).2
    have hms : runTotal (fun (_ : ι → Node) (m : Move ι κ) =>
        Fintype.card ι * max (shareOf limit (Fintype.card ι) / 60) 1 * m.ms) next s as =
        Fintype.card ι * max (shareOf limit (Fintype.card ι) / 60) 1 * elapsed as := by
      rw [runTotal_mul, runTotal_of_run Move.ms as hrun]
      rfl
    have hleft : runTotal (fun s m => 1000 * left id s m) next s as =
        1000 * runTotal (left id) next s as := runTotal_mul 1000 (left id) as s
    have hroom : ∑ n, (s n).room id ≤
        Fintype.card ι * (1000 * shareOf limit (Fintype.card ι)) +
          1000 * ∑ n, (s n).leftOver id := by
      calc ∑ n, (s n).room id
          ≤ ∑ n, (1000 * shareOf limit (Fintype.card ι) + 1000 * (s n).leftOver id) :=
            Finset.sum_le_sum fun n _ => (room_of_settled (hs n) (hset n)).2
        _ = _ := by
            rw [Finset.sum_add_distrib, Finset.sum_const, smul_eq_mul, Finset.card_univ,
              Finset.mul_sum]
    rw [runTotal_add, hms, hleft] at hpaid
    have hbound : 1000 * runTotal (admits id) next s as ≤
        Fintype.card ι * (1000 * shareOf limit (Fintype.card ι) +
            max (shareOf limit (Fintype.card ι) / 60) 1 * elapsed as) +
          1000 * stragglers id s as := by
      have hdistrib := Nat.mul_add (Fintype.card ι) (1000 * shareOf limit (Fintype.card ι))
        (max (shareOf limit (Fintype.card ι) / 60) 1 * elapsed as)
      have hassoc := Nat.mul_assoc (Fintype.card ι) (max (shareOf limit (Fintype.card ι) / 60) 1)
        (elapsed as)
      unfold stragglers
      omega
    refine ⟨hbound, fun hsixty => ?_⟩
    have hshares := shares_le hsixty (elapsed as)
    omega

end

/-! ## Two fleets -/

/-- A key of so many requests a minute. -/
def limitedKey (rpm : Nat) : VirtualKeyDef :=
  ⟨"k", "k", "", none, [], none, none, some ⟨some rpm, none⟩, none, OrdMap.empty, true, 0⟩

def noProviders : Core.Live.Config := ⟨⟨1, 100, 10⟩, OrdMap.empty⟩

/-- Each of `shares` nodes starts with its share. -/
def sharing (rpm shares : Nat) : Fin shares → Node :=
  fun _ => booted noProviders [limitedKey rpm] shares

theorem limitedIn_key (rpm : Nat) : LimitedIn "k" [limitedKey rpm] := by
  intro d hd
  cases hd
  rfl

theorem start_sharing (rpm shares : Nat) : start "k" (sharing rpm shares) :=
  fun _ => ⟨noProviders, [limitedKey rpm], shares, limitedIn_key rpm, rfl⟩

instance (v : Node) (id : String) (limit shares : Nat) : Decidable (v.settled id limit shares) :=
  inferInstanceAs (Decidable (_ = _))

instance {ι : Type} [Fintype ι] (s : ι → Node) (id : String) (limit shares : Nat) :
    Decidable (Settled id limit shares s) := inferInstanceAs (Decidable (∀ _, _))

/-- A request looks its key up, the table is replaced by one like it, and the
request is asked in the old one; half a second later another one follows. -/
def replaced : List (Move (Fin 2) Nat) :=
  [.at_ 0 (.look "k"), .at_ 0 (.gateway (.refresh [limitedKey 120] 2)), .at_ 0 (.ask 0 true),
    .tick 500, .at_ 1 (.look "k"), .at_ 1 (.ask 0 true)]

theorem limit_kept_replaced :
    runTotal (admits "k") next (sharing 120 2) replaced = 2 ∧
      stragglers "k" (sharing 120 2) replaced = 1 ∧
      60000 * runTotal (admits "k") next (sharing 120 2) replaced ≤
        60000 * 120 + 120 * elapsed replaced +
          60000 * stragglers "k" (sharing 120 2) replaced := by
  have hrun : (run next (sharing 120 2) replaced).isSome = true := by decide
  have hlimited : Admitted (Limited "k") next (sharing 120 2) replaced := by
    refine ⟨trivial, ?_, trivial, trivial, trivial, trivial, trivial⟩
    intro table htable
    cases htable
    exact limitedIn_key 120
  have hcarried : Admitted (Carried "k") next (sharing 120 2) replaced := by
    refine ⟨trivial, ?_, trivial, trivial, trivial, trivial, trivial⟩
    intro table htable
    cases htable
    decide
  have hkept := limit_kept (.start (start_sharing 120 2)) hlimited (Option.some_get hrun).symm
  exact ⟨by decide, by decide, (hkept.2 120 (by decide) hcarried).2 (by decide)⟩

/-- Tables of one limit and of as many shares as there are nodes, before and
after, and more let through than the limit and its refill. -/
def Exceeds {nodes : Nat} (rpm : Nat) (as : List (Move (Fin nodes) Nat)) : Prop :=
  Admitted (Limited "k") next (sharing rpm nodes) as ∧
    (∃ s', run next (sharing rpm nodes) as = some s' ∧ Settled "k" rpm nodes s') ∧
    60000 * rpm + rpm * elapsed as < 60000 * runTotal (admits "k") next (sharing rpm nodes) as

/-- A request of each node. -/
def oneEach : List (Move (Fin 2) Nat) :=
  [.at_ 0 (.look "k"), .at_ 0 (.ask 0 true), .at_ 1 (.look "k"), .at_ 1 (.ask 0 true)]

/-- A request, and another one after a second. -/
def secondLater : List (Move (Fin 1) Nat) :=
  [.at_ 0 (.look "k"), .at_ 0 (.ask 0 true), .tick 1000, .at_ 0 (.look "k"),
    .at_ 0 (.ask 0 true)]

/-- A peer joins and leaves between two requests. -/
def peerPasses : List (Move (Fin 1) Nat) :=
  [.at_ 0 (.look "k"), .at_ 0 (.ask 0 true), .at_ 0 (.gateway (.refresh [limitedKey 1] 2)),
    .at_ 0 (.gateway (.refresh [limitedKey 1] 1)), .at_ 0 (.look "k"), .at_ 0 (.ask 0 true)]

/-- With a limit of one a minute: each node has one, each second brings one,
and so does each change of the shares. -/
theorem exceeds_limit : Exceeds 1 oneEach ∧ Exceeds 1 secondLater ∧ Exceeds 1 peerPasses := by
  refine ⟨⟨⟨trivial, trivial, trivial, trivial, trivial⟩, ⟨_, (Option.some_get (by decide)).symm,
      by decide⟩, by decide⟩,
    ⟨⟨trivial, trivial, trivial, trivial, trivial, trivial⟩, ⟨_, (Option.some_get (by decide)).symm,
      by decide⟩, by decide⟩,
    ⟨⟨trivial, trivial, ?_, ?_, trivial, trivial, trivial⟩, ⟨_, (Option.some_get (by decide)).symm,
      by decide⟩, by decide⟩⟩
  · intro table htable
    cases htable
    exact limitedIn_key 1
  · intro table htable
    cases htable
    exact limitedIn_key 1

end RapidRouter.Server.Shares
