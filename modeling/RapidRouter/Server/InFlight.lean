import RapidRouter.Core.Headroom
import RapidRouter.Server.Gateway

/-!
# The requests in flight on a key

`in_flight` of `router-core/src/router.rs` reads a key's semaphore for the console:
how many slots are taken, of how many. An attempt takes its slot of the table that
its request loaded, and a reload may have built two more tables since, which go on
with the same semaphore as long as the ceiling stays.

In every state that requests, outcomes and reloads lead to, the count is the number
of requests whose attempt has a slot of the key, whatever table they came by
(`in_flight_exact`).
-/

namespace RapidRouter.Server.Gateway

open Lts Core.Live

/-! ## Where an attempt was made -/

/-- An attempt is made with a provider of the table that the request has loaded. -/
def Placed (r : Request) : Prop :=
  ∀ t, r.attempt = some t → ∃ table, r.table = some table ∧
    ∃ name, table.providers.get? name = some t.provider

theorem Placed.without_attempt (r : Request) : Placed { r with attempt := none } :=
  fun _ ht => by cases ht

/-- The attempt of a request that turned to a provider. -/
theorem Placed.target {s : State} {i : Nat} {provider : String} {r : Request}
    {p : ProviderRuntime} (h : target s i provider = some (r, p)) (key : Option KeyRuntime)
    (slot : Option Addr) : Placed { r with attempt := some ⟨p, key, slot⟩ } := by
  obtain ⟨-, -, table, htable, hp⟩ := target_eq h
  intro t ht
  cases ht
  exact ⟨table, htable, provider, hp⟩

theorem placed_set {requests : List Request} (hall : ∀ r ∈ requests, Placed r) (i : Nat)
    {r : Request} (hr : Placed r) : ∀ c ∈ requests.set i r, Placed c := by
  intro c hc
  rcases List.mem_or_eq_of_mem_set hc with hold | rfl
  · exact hall c hold
  · exact hr

theorem placed_append {requests : List Request} (hall : ∀ r ∈ requests, Placed r)
    (vkey : Option VkRuntime) : ∀ c ∈ requests ++ [⟨vkey, none, none⟩], Placed c := by
  intro c hc
  rcases List.mem_append.mp hc with hold | hnew
  · exact hall c hold
  · rw [List.mem_singleton.mp hnew]
    exact fun _ ht => by cases ht

/-- One step. -/
theorem placed_next {κ : Type} [LinearOrder κ] {s s' : State} {l : Label κ}
    (hall : ∀ r ∈ s.requests, Placed r) (h : next s l = some s') : ∀ r ∈ s'.requests, Placed r := by
  cases l with
  | begin_ vkey now budgetLeft =>
    cases vkey with
    | none =>
      cases h
      exact placed_append hall none
    | some id =>
      obtain ⟨vk, -, rfl⟩ := Option.map_eq_some_iff.mp h
      unfold begins
      dsimp only
      split
      · exact placed_append hall (some vk)
      · exact hall
  | route i =>
    unfold next at h
    dsimp only at h
    split at h
    · next vkey t hi =>
      cases h
      refine placed_set hall i fun t' ht' => ?_
      -- a request without a table has no attempt
      obtain ⟨table, htable, -⟩ := hall _ (List.mem_of_getElem? hi) t' ht'
      cases htable
    · cases h
  | attempt i provider model tenant affinity sel now =>
    obtain ⟨⟨r, p⟩, htarget, rfl⟩ := Option.map_eq_some_iff.mp h
    dsimp only
    unfold attempts
    split
    · exact hall
    · split
      · exact hall
      · exact placed_set hall i (.target htarget _ _)
  | relay i provider tenant needsKey sel now =>
    unfold next at h
    dsimp only at h
    split at h
    · next r p htarget =>
      split at h
      · cases h
        exact hall
      · cases h
        unfold relays
        split
        · split
          · exact hall
          · exact placed_set hall i (.target htarget _ _)
        · exact placed_set hall i (.target htarget _ _)
    · cases h
  | report i r =>
    unfold next at h
    dsimp only at h
    split at h
    · cases h
      exact hall
    · cases h
  | retry i =>
    unfold next at h
    dsimp only at h
    split at h
    · next r hi =>
      cases h
      exact placed_set hall i (.without_attempt r)
    · cases h
  | complete i tokens vkNow seatNow =>
    unfold next at h
    dsimp only at h
    split at h
    · cases h
      exact fun c hc => hall c (List.mem_of_mem_eraseIdx hc)
    · cases h
  | recover a config now =>
    cases h
    exact hall
  | check a config r =>
    cases h
    exact hall
  | reload config defs shares =>
    cases h
    exact hall
  | refresh defs shares =>
    cases h
    exact hall

theorem placed_of_reach {κ : Type} [LinearOrder κ] {s : State} (h : Reach (gateway κ) free s) :
    ∀ r ∈ s.requests, Placed r := by
  refine h.invariant (I := fun s => ∀ r ∈ s.requests, Placed r) ?_ ?_
  · rintro s ⟨config, defs, shares, rfl⟩ r hr
    cases hr
  · intro s l s' hs _ hstep
    exact placed_next hs hstep

/-! ## Slots -/

/-- The request's attempt has a slot of this semaphore. -/
def Request.seated (r : Request) (a : Addr) : Bool := r.attempt.any (·.slot = some a)

/-- Of a slot's semaphore a request holds its slot and nothing else. -/
theorem holds_slot {r : Request} {a : Addr}
    (hapart : ∀ t, r.attempt = some t → t.provider.addr ≠ a) :
    r.holds a = if r.seated a then 1 else 0 := by
  unfold Request.holds Request.seated
  cases hattempt : r.attempt with
  | none => rfl
  | some t =>
    dsimp only
    unfold Attempt.holds
    rw [if_neg (hapart t hattempt), Nat.zero_add, Option.any_some]
    by_cases hslot : t.slot = some a
    · rw [if_pos hslot, if_pos (decide_eq_true hslot)]
    · rw [if_neg hslot, if_neg fun htrue => hslot (of_decide_eq_true htrue)]

theorem held_slot {requests : List Request} {a : Addr}
    (hapart : ∀ r ∈ requests, ∀ t, r.attempt = some t → t.provider.addr ≠ a) :
    held requests a = requests.countP (·.seated a) := by
  induction requests with
  | nil => rfl
  | cons r rest ih =>
    obtain ⟨hr, hrest⟩ := List.forall_mem_cons.mp hapart
    have hsum : held (r :: rest) a = r.holds a + held rest a := List.sum_cons
    rw [hsum, ih hrest, holds_slot hr, List.countP_cons]
    exact Nat.add_comm _ _

/-- What the console is told of a key. -/
structure Counted (s : State) (k : KeyRuntime) : Prop where
  unlimited : k.maxConcurrency = none → inFlight s.heap k = none
  limited : ∀ limit, k.maxConcurrency = some limit → ∃ a, k.inflight = some a ∧
    inFlight s.heap k = some (s.requests.countP (·.seated a), limit) ∧
    s.requests.countP (·.seated a) ≤ limit ∧
    (slotFree s.heap k = true ↔ s.requests.countP (·.seated a) < limit)

/-- Over every run of requests, outcomes and reloads. -/
theorem in_flight_exact {κ : Type} [LinearOrder κ] {s : State} (h : Reach (gateway κ) free s) :
    ∀ t ∈ s.tables, ∀ name p, t.providers.get? name = some p → ∀ k ∈ p.keys, Counted s k := by
  intro t ht name p hp k hk
  have hs := sound_of_reach h
  have hapart := apart_of_reach h
  have hceiling := (hs.tables ht name p hp).ceiling k hk
  refine ⟨fun hnone => ?_, fun limit hlimit => ?_⟩
  · unfold inFlight
    rw [hnone]
    rfl
  · rw [hlimit, eq_comm, Option.map_eq_some_iff] at hceiling
    obtain ⟨a, ha, hsize⟩ := hceiling
    have hslot : a.key ≠ none := (hapart t ht name p hp).slots k hk a ha
    -- no attempt's provider has its permits there
    have hcount : held s.requests a = s.requests.countP (·.seated a) := by
      refine held_slot fun r hr t' ht' haddr => ?_
      obtain ⟨table, htable, name', hplaced⟩ := placed_of_reach h r hr t' ht'
      have hmem : table ∈ s.tables := mem_tables.mpr (Or.inr ⟨r, hr, htable⟩)
      have hpermits := (hapart table hmem name' t'.provider hplaced).permits
      rw [haddr] at hpermits
      exact hslot hpermits
    have hslots := hs.slots a
    rw [hcount, hsize] at hslots
    refine ⟨a, ha, ?_, by omega, ?_⟩
    · have htaken : limit - s.heap.free a = s.requests.countP (·.seated a) := by omega
      unfold inFlight
      rw [hlimit, ha]
      show some (limit - s.heap.free a, limit) = _
      rw [htaken]
    · unfold slotFree
      rw [ha, Option.all_some, decide_eq_true_iff]
      omega

theorem in_flight_exact_seated : ∃ s, Reach (gateway Nat) free s ∧
    ∃ p, s.table.providers.get? "openai" = some p ∧
      ∃ k ∈ p.keys, inFlight s.heap k = some (1, 1) ∧ Counted s k := by
  have hreach : Reach (gateway Nat) free ((run next (boot oneSeat [] 1) seated).get (by decide)) :=
    Reach.of_run seated (.start ⟨oneSeat, [], 1, rfl⟩) (by decide) (Option.some_get _).symm
  generalize hs : (run next (boot oneSeat [] 1) seated).get (by decide) = s at hreach
  have hfound : (s.table.providers.get? "openai").isSome = true := by
    rw [← hs]
    decide
  obtain ⟨p, hp⟩ := Option.isSome_iff_exists.mp hfound
  have hfull : ∀ q ∈ s.table.providers.get? "openai",
      ∃ k ∈ q.keys, inFlight s.heap k = some (1, 1) := by
    rw [← hs]
    decide
  obtain ⟨k, hk, hcount⟩ := hfull p hp
  exact ⟨s, hreach, p, hp, k, hk, hcount,
    in_flight_exact hreach s.table List.mem_cons_self "openai" p hp k hk⟩

end RapidRouter.Server.Gateway
