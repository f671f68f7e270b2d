import Mathlib.Algebra.Order.Field.Basic
import Mathlib.Algebra.Order.Ring.Rat
import RapidRouter.Core.Reload
import RapidRouter.Lib.Lts

/-!
# How even a pool is served

`balanced_pick` of `router-core/src/router.rs` gives a request to the key
furthest behind its share, a share being the dispatches of a key over its
weight. Here shares are exact: `exactShare` is the quotient over the
rationals, which the source takes in floating point.

In one table, while every key may be picked, no key gets ahead of another by
more than one dispatch of its own (`pool_levels`), however the pool began and
whatever the coin says. Across a reload a key keeps its count, and one that is
new starts at the least count of the pool (`new_key_level_iff`): the count, and
not the share, so that a new key of a larger weight starts behind the pool.
-/

namespace RapidRouter.Core.Live

open Lts

/-- `share`, exactly. -/
def exactShare (leases : Nat) (weight : Rat) : Rat := leases / weight

/-- The dispatch count of a key, and how far through its share it is. -/
def leasesOf (h : Heap) (k : KeyRuntime) : Nat := (h.cells k.addr).leases

def shareOf (h : Heap) (k : KeyRuntime) : Rat := exactShare (leasesOf h k) k.weight

/-- Selection by exact shares. -/
def exactly (score : String → String → Nat) (coin : Nat → Nat → Bool) : Selection Rat :=
  ⟨exactShare, score, coin⟩

/-! ## One table -/

/-- No key of the pool is out of rotation or limited in any way. -/
structure Unlimited (p : ProviderRuntime) (h : Heap) (now : Nat) : Prop where
  healthy : ∀ k ∈ p.keys, looksHealthy h k now = true
  rpm : ∀ k ∈ p.keys, (h.cells k.addr).rpm = none
  tpm : ∀ k ∈ p.keys, (h.cells k.addr).tpm = none
  slots : ∀ k ∈ p.keys, k.inflight = none

inductive PoolAct where
  /-- An unpinned request any key of the pool may serve. -/
  | request (score : String → String → Nat) (coin : Nat → Nat → Bool) (model tenant : Option String)
      (now : Nat)
  /-- Anything that leaves the dispatch counts. -/
  | other

/-- A pool in one table. -/
def poolSystem (p : ProviderRuntime) : System Heap PoolAct where
  init _ := True
  step h a h' :=
    match a with
    | .request score coin model tenant now =>
      Unlimited p h now ∧ p.candidates model tenant = p.keys ∧
        h' = (admitFor (exactly score coin) p model tenant none now h).1
    | .other => ∀ k ∈ p.keys, leasesOf h' k = leasesOf h k

/-- No dispatch count is at its end. -/
def Countable (p : ProviderRuntime) (h : Heap) : Prop := ∀ k ∈ p.keys, leasesOf h k + 1 < 2 ^ 64

theorem admitNow_unlimited {h : Heap} {k : KeyRuntime} (now : Nat)
    (hrpm : (h.cells k.addr).rpm = none) (htpm : (h.cells k.addr).tpm = none)
    (hslots : k.inflight = none) : admitNow h k now = (h, some none) := by
  have hcells : (h.cells k.addr).tryAdmitRequest now = (h.cells k.addr, true) := by
    unfold Cells.tryAdmitRequest Cells.tokensLeft Cells.takeRequest
    rw [htpm]
    dsimp only
    rw [if_pos rfl, hrpm]
  unfold admitNow tryReserveSlot
  rw [hslots]
  dsimp only
  rw [hcells]
  show (h.setCells k.addr (h.cells k.addr), some none) = (h, some none)
  unfold Heap.setCells
  rw [Function.update_eq_self]

/-- The request goes to a key nobody is behind. -/
theorem admitFor_unlimited {p : ProviderRuntime} {h : Heap} {now : Nat} (hkeys : p.keys ≠ [])
    (hfree : Unlimited p h now) (score : String → String → Nat) (coin : Nat → Nat → Bool)
    {model tenant : Option String} (hall : p.candidates model tenant = p.keys) :
    ∃ m ∈ p.keys, (∀ k ∈ p.keys, shareOf h m ≤ shareOf h k) ∧
      admitFor (exactly score coin) p model tenant none now h =
        (takeLease h m, some ⟨some m, .yes, none⟩) := by
  have hhealthy : p.keys.filter (looksHealthy h · now) = p.keys :=
    List.filter_eq_self.mpr hfree.healthy
  obtain ⟨first, rest, hlist⟩ := List.exists_cons_of_ne_nil hkeys
  let m := levelWith (exactly score coin) h (coin 0) first 0 rest
  have hmem : m ∈ p.keys := hlist ▸ levelWith_mem (exactly score coin) h (coin 0) first 0 rest
  refine ⟨m, hmem, fun k hk => ?_, ?_⟩
  · exact levelWith_le (exactly score coin) h (coin 0) first 0 rest k (hlist ▸ hk)
  · have hpick : balancedPick (exactly score coin) h (coin 0) p.keys = some m := by
      rw [hlist]
      rfl
    have hserve :=
      admitNow_unlimited now (hfree.rpm m hmem) (hfree.tpm m hmem) (hfree.slots m hmem)
    unfold admitFor
    rw [if_neg hkeys, hall]
    dsimp only
    rw [if_neg hkeys, hhealthy]
    unfold afterPin
    dsimp only
    have hlevelled : levelled (exactly score coin) now p.keys.length 0 p.keys h =
        (takeLease h m, some ⟨some m, .yes, none⟩) := by
      rw [hlist, List.length_cons, ← hlist]
      have hcoin : (exactly score coin).coin 0 = coin 0 := rfl
      unfold levelled
      rw [hcoin, hpick]
      dsimp only
      rw [hserve]
    rw [hlevelled]

theorem leasesOf_takeLease (h : Heap) (m k : KeyRuntime) :
    leasesOf (takeLease h m) k =
      if k.addr = m.addr then (leasesOf h m + 1) % 2 ^ 64 else leasesOf h k := by
  unfold leasesOf takeLease Heap.setCells
  dsimp only
  by_cases haddr : k.addr = m.addr
  · rw [haddr, Function.update_self, if_pos rfl]
  · rw [Function.update_of_ne haddr, if_neg haddr]

/-- What an admission does to the shares: one key nobody is behind moves up
by one dispatch, and no other moves. -/
structure Served (p : ProviderRuntime) (h h' : Heap) (m : KeyRuntime) : Prop where
  mem : m ∈ p.keys
  least : ∀ k ∈ p.keys, shareOf h m ≤ shareOf h k
  moved : shareOf h' m = shareOf h m + 1 / m.weight
  others : ∀ k ∈ p.keys, k ≠ m → shareOf h' k = shareOf h k

variable {p : ProviderRuntime}

/-- The step. -/
theorem served_of_step (hnodup : (p.keys.map (·.addr)).Nodup) {h h' : Heap} {a : PoolAct}
    (hroom : Countable p h) (hstep : (poolSystem p).step h a h') :
    (∀ k ∈ p.keys, shareOf h' k = shareOf h k) ∨ ∃ m, Served p h h' m := by
  cases a with
  | other =>
    left
    intro k hk
    unfold shareOf
    rw [hstep k hk]
  | request score coin model tenant now =>
    obtain ⟨hfree, hall, rfl⟩ := hstep
    by_cases hkeys : p.keys = []
    · left
      intro k hk
      rw [hkeys] at hk
      cases hk
    · right
      obtain ⟨m, hmem, hleast, hserve⟩ := admitFor_unlimited hkeys hfree score coin hall
      rw [hserve]
      refine ⟨m, hmem, hleast, ?_, ?_⟩
      · unfold shareOf exactShare
        rw [leasesOf_takeLease, if_pos rfl, Nat.mod_eq_of_lt (hroom m hmem)]
        push_cast
        rw [add_div]
      · intro k hk hne
        have haddr : k.addr ≠ m.addr := fun heq =>
          hne (List.inj_on_of_nodup_map hnodup hk hmem heq)
        unfold shareOf
        rw [leasesOf_takeLease, if_neg haddr]

/-- No key is ahead of another by more than its own last dispatch. -/
def Level (p : ProviderRuntime) (h : Heap) : Prop :=
  ∀ i ∈ p.keys, ∀ j ∈ p.keys, shareOf h i ≤ shareOf h j + 1 / i.weight

/-- No two keys are further apart than the two furthest apart in `h₀`, or than
one dispatch of some key. -/
def Within (p : ProviderRuntime) (h₀ h : Heap) : Prop :=
  ∀ i ∈ p.keys, ∀ j ∈ p.keys, (∃ a ∈ p.keys, ∃ b ∈ p.keys,
    shareOf h i - shareOf h j ≤ shareOf h₀ a - shareOf h₀ b) ∨
    ∃ k ∈ p.keys, shareOf h i - shareOf h j ≤ 1 / k.weight

theorem level_step (hpositive : ∀ k ∈ p.keys, 0 < k.weight) {h h' : Heap} {m : KeyRuntime}
    (hserved : Served p h h' m) (hlevel : Level p h) : Level p h' := by
  intro i hi j hj
  have hstep : 0 < 1 / m.weight := one_div_pos.mpr (hpositive m hserved.mem)
  have hup : ∀ k ∈ p.keys, shareOf h k ≤ shareOf h' k := by
    intro k hk
    by_cases hk' : k = m
    · rw [hk', hserved.moved]
      linarith
    · rw [hserved.others k hk hk']
  by_cases hi' : i = m
  · -- It was behind everybody, and is now ahead by its own dispatch at most.
    rw [hi', hserved.moved]
    have hleast := hserved.least j hj
    have hj' := hup j hj
    linarith
  · rw [hserved.others i hi hi']
    have hbefore := hlevel i hi j hj
    have hj' := hup j hj
    linarith

theorem within_step (hpositive : ∀ k ∈ p.keys, 0 < k.weight) {h₀ h h' : Heap} {m : KeyRuntime}
    (hserved : Served p h h' m) (hwithin : Within p h₀ h) : Within p h₀ h' := by
  intro i hi j hj
  have hstep : 0 < 1 / m.weight := one_div_pos.mpr (hpositive m hserved.mem)
  have hup : shareOf h j ≤ shareOf h' j := by
    by_cases hj' : j = m
    · rw [hj', hserved.moved]
      linarith
    · rw [hserved.others j hj hj']
  by_cases hi' : i = m
  · right
    refine ⟨m, hserved.mem, ?_⟩
    rw [hi', hserved.moved]
    have hleast := hserved.least j hj
    linarith
  · rw [hserved.others i hi hi']
    rcases hwithin i hi j hj with ⟨a, ha, b, hb, hle⟩ | ⟨k, hk, hle⟩
    · exact Or.inl ⟨a, ha, b, hb, by linarith⟩
    · exact Or.inr ⟨k, hk, by linarith⟩

/-- The run. -/
theorem pool_levels (p : ProviderRuntime) (hnodup : (p.keys.map (·.addr)).Nodup)
    (hpositive : ∀ k ∈ p.keys, 0 < k.weight) (h₀ h : Heap)
    (hreach : Reach ((poolSystem p).after h₀) (fun h _ => Countable p h) h) :
    ((∀ k ∈ p.keys, leasesOf h₀ k = 0) → Level p h) ∧ Within p h₀ h := by
  have hsame : ∀ {h h' : Heap}, (∀ k ∈ p.keys, shareOf h' k = shareOf h k) →
      (Level p h → Level p h') ∧ (Within p h₀ h → Within p h₀ h') := by
    intro h h' heq
    constructor
    · intro hlevel i hi j hj
      rw [heq i hi, heq j hj]
      exact hlevel i hi j hj
    · intro hwithin i hi j hj
      rw [heq i hi, heq j hj]
      exact hwithin i hi j hj
  constructor
  · intro hzero
    refine hreach.invariant ?_ ?_
    · intro s hs i hi j hj
      have hshare : ∀ k ∈ p.keys, shareOf h₀ k = 0 := by
        intro k hk
        unfold shareOf exactShare
        rw [hzero k hk, Nat.cast_zero, zero_div]
      rw [hs, hshare i hi, hshare j hj, zero_add]
      exact (one_div_pos.mpr (hpositive i hi)).le
    · intro s a s' hlevel hroom hstep
      rcases served_of_step hnodup hroom hstep with heq | ⟨m, hserved⟩
      · exact (hsame heq).1 hlevel
      · exact level_step hpositive hserved hlevel
  · refine hreach.invariant ?_ ?_
    · intro s hs i hi j hj
      rw [hs]
      exact Or.inl ⟨i, hi, j, hj, le_rfl⟩
    · intro s a s' hwithin hroom hstep
      rcases served_of_step hnodup hroom hstep with heq | ⟨m, hserved⟩
      · exact (hsame heq).2 hwithin
      · exact within_step hpositive hserved hwithin

/-- Two keys of one weight. -/
def evenPool : ProviderConfig :=
  ⟨.openAi, [⟨"one", 1, none, none, none, none, none⟩, ⟨"two", 1, none, none, none, none, none⟩], 8⟩

def evenConfig : Config := ⟨⟨1, 100, 10⟩, OrdMap.empty.insert "openai" evenPool⟩

def evenProvider : ProviderRuntime := providerRuntime 0 ⟨1, 100, 10⟩ none "openai" evenPool

/-- The pool as it starts, but for what it has been dispatched to before. -/
def evenHeap (leases : Nat) : Heap :=
  { (fromConfigWith evenConfig none 0 Heap.empty).2 with
    cells := fun a => { (fromConfigWith evenConfig none 0 Heap.empty).2.cells a with leases := leases } }

def evenOne : KeyRuntime :=
  keyRuntime 0 ⟨1, 100, 10⟩ none "openai" 0 ⟨"one", 1, none, none, none, none, none⟩

def evenTwo : KeyRuntime :=
  keyRuntime 0 ⟨1, 100, 10⟩ none "openai" 1 ⟨"two", 1, none, none, none, none, none⟩

theorem even_keys : evenProvider.keys = [evenOne, evenTwo] := rfl

theorem even_unlimited (leases : Nat) : Unlimited evenProvider (evenHeap leases) 0 := by
  constructor <;> rw [even_keys] <;> intro k hk <;>
    rcases List.mem_pair.mp hk with rfl | rfl <;> rfl

/-- The coin takes no key from the one before it. -/
def noCoin (_ _ : Nat) : Bool := false

/-- The pool after one request. -/
def evenServed (leases : Nat) : Heap :=
  (admitFor (exactly (fun _ _ => 0) noCoin) evenProvider none none none 0 (evenHeap leases)).1

def evenAct : PoolAct := .request (fun _ _ => 0) noCoin none none 0

theorem even_step (leases : Nat) :
    (poolSystem evenProvider).step (evenHeap leases) evenAct (evenServed leases) :=
  ⟨even_unlimited leases, rfl, rfl⟩

theorem pool_levels_even :
    Level evenProvider (evenServed 0) ∧ Within evenProvider (evenHeap 0) (evenServed 0) := by
  have hreach : Reach ((poolSystem evenProvider).after (evenHeap 0))
      (fun h _ => Countable evenProvider h) (evenServed 0) := by
    refine .step (a := evenAct) (.start rfl) ?_ (even_step 0)
    rw [Countable, even_keys]
    intro k hk
    rcases List.mem_pair.mp hk with rfl | rfl <;> decide
  have hlevels := pool_levels evenProvider (by decide) (by decide) (evenHeap 0) (evenServed 0) hreach
  exact ⟨hlevels.1 (by rw [even_keys]; decide), hlevels.2⟩

/-- **A dispatch count wraps round.** Two keys are level at the end of their
counters; the next request leaves one of them at zero. -/
theorem wrapped_count_unlevels :
    ¬ ∀ p : ProviderRuntime, (p.keys.map (·.addr)).Nodup → (∀ k ∈ p.keys, 0 < k.weight) →
      ∀ h₀ h, (∀ k ∈ p.keys, leasesOf h₀ k < 2 ^ 64) →
        Reach ((poolSystem p).after h₀) free h →
          ((∀ k ∈ p.keys, leasesOf h₀ k = 0) → Level p h) ∧ Within p h₀ h := by
  intro hclaim
  have hreach : Reach ((poolSystem evenProvider).after (evenHeap (2 ^ 64 - 1))) free
      (evenServed (2 ^ 64 - 1)) := .step (a := evenAct) (.start rfl) trivial (even_step _)
  have hwithin := (hclaim evenProvider (by decide) (by decide) (evenHeap (2 ^ 64 - 1)) _
    (by rw [even_keys]; decide) hreach).2
  have hbefore : ∀ k ∈ evenProvider.keys, shareOf (evenHeap (2 ^ 64 - 1)) k = 2 ^ 64 - 1 := by
    rw [even_keys]
    decide +kernel
  have hone : shareOf (evenServed (2 ^ 64 - 1)) evenOne = 0 := by decide +kernel
  have htwo : shareOf (evenServed (2 ^ 64 - 1)) evenTwo = 2 ^ 64 - 1 := by decide +kernel
  have hweight : ∀ k ∈ evenProvider.keys, k.weight = 1 := by
    rw [even_keys]
    decide
  rcases hwithin evenTwo (by rw [even_keys]; simp) evenOne (by rw [even_keys]; simp) with
    ⟨a, ha, b, hb, hle⟩ | ⟨k, hk, hle⟩
  · rw [hone, htwo, hbefore a ha, hbefore b hb] at hle
    norm_num at hle
  · rw [hone, htwo, hweight k hk] at hle
    norm_num at hle

/-! ## Across reloads -/

section

variable (config : Config) (prev : Option RoutingTable) (gen : Nat) (h : Heap)

/-- A key of that name stands in the table before. -/
def Survives (name key : String) : Prop := (previousKey prev name key).isSome

/-- The keys of a provider in the table that is built. -/
def builtKeys (name : String) (p : ProviderConfig) : List KeyRuntime :=
  (providerRuntime gen config.breaker prev name p).keys

/-- A key that survives keeps its dispatch count. -/
def KeepsCounts : Prop :=
  ∀ name p, config.providers.get? name = some p → ∀ k ∈ builtKeys config prev gen name p, ∀ old,
    previousKey prev name k.name = some old →
      leasesOf (fromConfigWith config prev gen h).2 k = leasesOf h old

/-- A key that is new to a pool starts with no less than the least share of
those that survive. -/
def StartsLevel : Prop :=
  ∀ name p, config.providers.get? name = some p → ∀ new ∈ builtKeys config prev gen name p,
    ¬ Survives prev name new.name →
      (∃ k ∈ builtKeys config prev gen name p, Survives prev name k.name) →
        ∃ k ∈ builtKeys config prev gen name p, Survives prev name k.name ∧
          shareOf (fromConfigWith config prev gen h).2 k ≤
            shareOf (fromConfigWith config prev gen h).2 new

/-- Its weight is small enough for the least count of the pool before. -/
def FloorLevel : Prop :=
  ∀ name p, config.providers.get? name = some p → ∀ new ∈ p.keys,
    ¬ Survives prev name new.name → (∃ k ∈ p.keys, Survives prev name k.name) →
      ∃ k ∈ p.keys, ∃ old, previousKey prev name k.name = some old ∧
        exactShare (leasesOf h old) k.weight ≤ exactShare (floor prev name h) new.weight

end

section

variable {config : Config} {prev : Option RoutingTable} {gen : Nat} {h : Heap} {name : String}
  {p : ProviderConfig}

/-- A built key is one of the configuration, with the count of the pool
before. -/
structure Stands (prev : Option RoutingTable) (h h' : Heap) (name : String) (key : ApiKey)
    (k : KeyRuntime) : Prop where
  name_eq : k.name = key.name
  weight_eq : k.weight = key.weight
  survivor : ∀ old, previousKey prev name key.name = some old → leasesOf h' k = leasesOf h old
  fresh : previousKey prev name key.name = none → leasesOf h' k = floor prev name h

theorem stands_built (hp : config.providers.get? name = some p) {i : Nat} {key : ApiKey}
    (hkey : p.keys[i]? = some key) :
    Stands prev h (fromConfigWith config prev gen h).2 name key
      (keyRuntime gen config.breaker prev name i key) := by
  have hcells : leasesOf (fromConfigWith config prev gen h).2
      (keyRuntime gen config.breaker prev name i key) = (keyCells prev name h key).leases := by
    show ((fromConfigWith config prev gen h).2.cells ⟨gen, name, some i⟩).leases = _
    rw [cells_built hp hkey]
  refine ⟨rfl, rfl, fun old hold => ?_, fun hnone => ?_⟩
  · rw [hcells]
    unfold keyCells
    rw [hold]
    rfl
  · rw [hcells]
    unfold keyCells
    rw [hnone]
    rfl

theorem mem_builtKeys (hp : config.providers.get? name = some p) {k : KeyRuntime}
    (hk : k ∈ builtKeys config prev gen name p) :
    ∃ key ∈ p.keys, Stands prev h (fromConfigWith config prev gen h).2 name key k := by
  obtain ⟨i, hi⟩ := List.mem_iff_getElem?.mp hk
  unfold builtKeys at hi
  rw [getElem?_built, Option.map_eq_some_iff] at hi
  obtain ⟨key, hkey, rfl⟩ := hi
  exact ⟨key, List.mem_of_getElem? hkey, stands_built hp hkey⟩

theorem builtKeys_of_mem (hp : config.providers.get? name = some p) {key : ApiKey}
    (hkey : key ∈ p.keys) :
    ∃ k ∈ builtKeys config prev gen name p,
      Stands prev h (fromConfigWith config prev gen h).2 name key k := by
  obtain ⟨i, hi⟩ := List.mem_iff_getElem?.mp hkey
  refine ⟨keyRuntime gen config.breaker prev name i key, ?_, stands_built hp hi⟩
  refine List.mem_iff_getElem?.mpr ⟨i, ?_⟩
  unfold builtKeys
  rw [getElem?_built, hi]
  rfl

/-- The shares a survivor and a new key begin with. -/
theorem Stands.share_survivor {h' : Heap} {key : ApiKey} {k old : KeyRuntime}
    (hk : Stands prev h h' name key k) (hold : previousKey prev name key.name = some old) :
    shareOf h' k = exactShare (leasesOf h old) key.weight := by
  unfold shareOf
  rw [hk.survivor old hold, hk.weight_eq]

theorem Stands.share_fresh {h' : Heap} {key : ApiKey} {k : KeyRuntime}
    (hk : Stands prev h h' name key k) (hfresh : ¬ Survives prev name key.name) :
    shareOf h' k = exactShare (floor prev name h) key.weight := by
  unfold shareOf
  rw [hk.fresh (Option.not_isSome_iff_eq_none.mp hfresh), hk.weight_eq]

theorem keepsCounts (config : Config) (prev : Option RoutingTable) (gen : Nat) (h : Heap) :
    KeepsCounts config prev gen h := by
  intro name p hp k hk old hold
  obtain ⟨key, -, hstands⟩ := mem_builtKeys (h := h) hp hk
  exact hstands.survivor old (hstands.name_eq ▸ hold)

theorem startsLevel_iff (config : Config) (prev : Option RoutingTable) (gen : Nat) (h : Heap) :
    StartsLevel config prev gen h ↔ FloorLevel config prev h := by
  unfold StartsLevel FloorLevel
  refine forall₃_congr fun name p hp => ?_
  constructor
  · intro hlevel new hnew hfresh ⟨e, he, hsurvives⟩
    obtain ⟨new', hnew', hstands⟩ := builtKeys_of_mem (h := h) hp hnew
    obtain ⟨e', he', hstandsE⟩ := builtKeys_of_mem (h := h) hp he
    obtain ⟨k', hk', hkept, hle⟩ := hlevel new' hnew' (hstands.name_eq ▸ hfresh)
      ⟨e', he', hstandsE.name_eq ▸ hsurvives⟩
    obtain ⟨k, hk, hstandsK⟩ := mem_builtKeys (h := h) hp hk'
    obtain ⟨old, hold⟩ := Option.isSome_iff_exists.mp hkept
    rw [hstandsK.name_eq] at hold
    rw [hstandsK.share_survivor hold, hstands.share_fresh hfresh] at hle
    exact ⟨k, hk, old, hold, hle⟩
  · intro hfloor new' hnew' hfresh ⟨e', he', hsurvives⟩
    obtain ⟨new, hnew, hstands⟩ := mem_builtKeys (h := h) hp hnew'
    obtain ⟨e, he, hstandsE⟩ := mem_builtKeys (h := h) hp he'
    rw [hstands.name_eq] at hfresh
    rw [hstandsE.name_eq] at hsurvives
    obtain ⟨k, hk, old, hold, hle⟩ := hfloor new hnew hfresh ⟨e, he, hsurvives⟩
    obtain ⟨k', hk', hstandsK⟩ := builtKeys_of_mem (h := h) hp hk
    refine ⟨k', hk', ?_, ?_⟩
    · rw [hstandsK.name_eq]
      exact Option.isSome_iff_exists.mpr ⟨old, hold⟩
    · rw [hstandsK.share_survivor hold, hstands.share_fresh hfresh]
      exact hle

end

/-- A new key no heavier than the least used one, if that one survives,
starts level. -/
theorem floorLevel_of_light {config : Config} {prev : Option RoutingTable} {h : Heap}
    (hlight : ∀ name p, config.providers.get? name = some p → ∀ new ∈ p.keys,
      ¬ Survives prev name new.name → 0 < new.weight ∧ ∃ k ∈ p.keys, ∃ old,
        previousKey prev name k.name = some old ∧ leasesOf h old = floor prev name h ∧
          new.weight ≤ k.weight) : FloorLevel config prev h := by
  intro name p hp new hnew hfresh _
  obtain ⟨hpositive, k, hk, old, hold, hleast, hweight⟩ := hlight name p hp new hnew hfresh
  refine ⟨k, hk, old, hold, ?_⟩
  rw [hleast]
  unfold exactShare
  gcongr

/-- What happens to a deployment. -/
inductive Event where
  | reload (config : Config)
  /-- Whatever is served in between. -/
  | runtime (h : Heap)

/-- Something holds of every reload of a history. -/
def Along (P : Config → Option RoutingTable → Nat → Heap → Prop) :
    Option RoutingTable → Nat → Heap → List Event → Prop
  | _, _, _, [] => True
  | prev, gen, h, .reload config :: rest =>
    P config prev gen h ∧ Along P (some (fromConfigWith config prev gen h).1) (gen + 1)
      (fromConfigWith config prev gen h).2 rest
  | prev, gen, _, .runtime h :: rest => Along P prev gen h rest

theorem Along.iff {P Q : Config → Option RoutingTable → Nat → Heap → Prop}
    (hPQ : ∀ config prev gen h, P config prev gen h ↔ Q config prev gen h) (events : List Event) :
    ∀ prev gen h, Along P prev gen h events ↔ Along Q prev gen h events := by
  induction events with
  | nil =>
    intro prev gen h
    exact Iff.rfl
  | cons event rest ih =>
    intro prev gen h
    cases event with
    | reload config => exact and_congr (hPQ config prev gen h) (ih _ _ _)
    | runtime h' => exact ih _ _ _

theorem Along.all {P : Config → Option RoutingTable → Nat → Heap → Prop}
    (hP : ∀ config prev gen h, P config prev gen h) (events : List Event) :
    ∀ prev gen h, Along P prev gen h events := by
  induction events with
  | nil =>
    intro prev gen h
    exact trivial
  | cons event rest ih =>
    intro prev gen h
    cases event with
    | reload config => exact ⟨hP config prev gen h, ih _ _ _⟩
    | runtime h' => exact ih _ _ _

/-- Of every history, whatever is served between its reloads: a key keeps its
count at all of them, and new keys start level at all of them exactly when
their weights are small enough for the counts they start with. -/
theorem new_key_level_iff (prev : Option RoutingTable) (gen : Nat) (h : Heap) (events : List Event) :
    Along KeepsCounts prev gen h events ∧
      (Along StartsLevel prev gen h events ↔
        Along (fun config prev _ h => FloorLevel config prev h) prev gen h events) :=
  ⟨Along.all keepsCounts events prev gen h, Along.iff startsLevel_iff events prev gen h⟩

/-- The pool of one key. -/
def lonePool : Config :=
  ⟨⟨1, 100, 10⟩,
    OrdMap.empty.insert "openai" ⟨.openAi, [⟨"one", 1, none, none, none, none, none⟩], 8⟩⟩

/-- A key of ten times its weight joins it. -/
def joinedPool : Config :=
  ⟨⟨1, 100, 10⟩, OrdMap.empty.insert "openai" ⟨.openAi,
    [⟨"one", 1, none, none, none, none, none⟩, ⟨"ten", 10, none, none, none, none, none⟩], 8⟩⟩

/-- Ten requests are served by the one key. -/
def loneServed : Heap :=
  { (fromConfigWith lonePool none 0 Heap.empty).2 with
    cells := fun _ => { providerCells with leases := 10 } }

/-- **A heavy key starts behind the pool.** Its count is the pool's, so its
share is a tenth of it. -/
theorem heavy_key_starts_behind :
    ¬ ∀ (prev : Option RoutingTable) (gen : Nat) (h : Heap) (events : List Event),
      Along StartsLevel prev gen h events := by
  intro hclaim
  obtain ⟨-, hjoined, -⟩ :=
    hclaim none 0 Heap.empty [.reload lonePool, .runtime loneServed, .reload joinedPool]
  have hfloor := (startsLevel_iff _ _ _ _).mp hjoined
  have hstart : floor (some (fromConfigWith lonePool none 0 Heap.empty).1) "openai" loneServed = 10 :=
    rfl
  obtain ⟨k, hk, old, hold, hle⟩ := hfloor "openai" _ rfl ⟨"ten", 10, none, none, none, none, none⟩
    (by simp) (by unfold Survives; decide +kernel)
    ⟨⟨"one", 1, none, none, none, none, none⟩, by simp, by unfold Survives; decide +kernel⟩
  rw [hstart] at hle
  rcases List.mem_pair.mp hk with rfl | rfl
  · have hten : leasesOf loneServed old = 10 := rfl
    rw [hten] at hle
    exact absurd hle (by decide +kernel)
  · have hnew : previousKey (some (fromConfigWith lonePool none 0 Heap.empty).1) "openai" "ten" =
        none := by decide +kernel
    rw [hnew] at hold
    cases hold

end RapidRouter.Core.Live
