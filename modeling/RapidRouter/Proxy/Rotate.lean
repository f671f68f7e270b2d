import RapidRouter.Core.Seat
import RapidRouter.Providers.Dialect
import RapidRouter.Server.Gateway

/-!
# Rotating through a pool

The dispatch loops of `run_chat` and `run_responses`
(`router-server/src/proxy.rs`) over the shared state of the keys. Every attempt
of a request asks `admit_key` from scratch: what keeps a retry away from the
seat that just failed is the dispatch count of that seat and, once enough
failures are recorded, its breaker.

`rotates` says of every run when that is enough. It is not when a session is
pinned to a seat that has failed, nor when the seat that failed is still no
further through its share than the others (`not_rotated`).

What other requests do to the cells between two attempts is arbitrary, as are
the answers of the upstream.
-/

namespace RapidRouter.Proxy.Rotate

open RapidRouter.Core (RetryOn)
open RapidRouter.Core.Live Server.Gateway

/-! ## One request -/

structure Route where
  provider : ProviderRuntime
  upstreamModel : String

structure Plan where
  targets : List Route
  maxAttemptsPerTarget : Nat
  retryOn : List RetryOn

/-- The loop a request runs in. -/
inductive Surface where
  | chat
  /-- With the `prompt_cache_key` the caller sent. -/
  | responses (affinity : Option String)

/-- What `admit_key` is told of the session. -/
def Surface.affinity : Surface → Option String
  | .chat => none
  | .responses affinity => affinity

/-- How the upstream answers an attempt. -/
inductive Answer where
  | sendFailed
  /-- A status; whether a seat was renewed on it; until when the headers of a
  429 bench it; and whether the turn is refused inside a 200, with the end of
  the bench if the refusal is about the account. -/
  | answered (status : Nat) (renewed : Bool) (benchUntil : Option Nat)
    (refused : Option (Option Nat))

structure Meets where
  now : Nat
  /-- What others do to the cells before the attempt. -/
  others : Heap → Heap
  coin : Nat → Nat → Bool
  /-- The upstream request could be built. -/
  built : Bool
  answer : Answer
  /-- The clock when the answer is recorded. -/
  answeredAt : Nat

structure Request (κ : Type) where
  surface : Surface
  plan : Plan
  tenant : Option String
  sel : Selection κ
  /-- The body of a target could be built. -/
  body : Nat → Bool
  /-- The clock when a target's turn comes. -/
  turn : Nat → Nat
  meets : Nat → Nat → Meets

/-- An attempt that was sent, and the cells `admit_key` found. -/
structure Sent where
  target : Nat
  route : Route
  now : Nat
  heap : Heap
  key : Option KeyRuntime

structure Progress where
  heap : Heap
  sent : List Sent

inductive Walk where
  | ended (p : Progress)
  | onward (p : Progress)

def Walk.progress : Walk → Progress
  | .ended p | .onward p => p

variable {κ : Type}

/-- `holding().usable`. -/
def usable (route : Route) (tenant : Option String) (now : Nat) (h : Heap) : Nat :=
  (route.provider.healthy (some route.upstreamModel) tenant now h).length

/-- `healthy_key_count`. -/
def healthyKeyCount (route : Route) (tenant : Option String) (now : Nat) (h : Heap) : Nat :=
  if route.provider.keys = [] then 1 else max (usable route tenant now h) 1

/-- `attempt_budget`; the loop for `/responses` has none. -/
def budget (c : Request κ) (route : Route) (now : Nat) (h : Heap) : Nat :=
  match c.surface with
  | .chat => min (max c.plan.maxAttemptsPerTarget (healthyKeyCount route c.tenant now h)) 8
  | .responses _ => c.plan.maxAttemptsPerTarget

/-- A seat is held out until a deadline, if there is one. -/
def benchUntil (h : Heap) (made : Attempt) : Option Nat → Heap
  | none => h
  | some untilMs => record h made (.bench untilMs)

/-- `attempt`: what it records, and whether the request is to be retried. -/
def attempt (c : Request κ) (route : Route) (isLast : Bool) (m : Meets) (made : Attempt)
    (h : Heap) : Heap × Bool :=
  match m.answer with
  | .sendFailed => (record h made (.failure m.answeredAt), true)
  | .answered status renewed bench refused =>
    let subscription := route.provider.kind.isSubscription
    let seatAuthFailure := subscription && (status = 401 || status = 403)
    let serverError := 500 ≤ status && status ≤ 599
    let retryable := (status = 429 && c.plan.retryOn.contains .status429)
      || (serverError && c.plan.retryOn.contains .status5xx) || seatAuthFailure
    let failed := serverError || status = 429 || seatAuthFailure
    let h := record h made (if failed then .failure m.answeredAt else .success)
    let h := if subscription && status = 429 then benchUntil h made bench else h
    let renewed := subscription && status = 401 && renewed
    if renewed && !isLast then (h, true)
    else
      let h := if renewed then record h made .success else h
      if retryable && !isLast then (h, true)
      else
        match refused with
        | none => (h, false)
        | some bench =>
          -- `hold_out_refused_seat`; with nobody left the refusal is the answer
          let h := benchUntil (record h made (.failure m.answeredAt)) made bench
          let nobodyLeft := made.key.any fun k => usable route k.tenant m.answeredAt h = 0
          (h, !isLast && !nobodyLeft)

variable [LinearOrder κ]

/-- The attempts on one target. -/
def runAttempts (c : Request κ) (t : Nat) (route : Route) (budget : Nat) :
    (left a : Nat) → Progress → Walk
  | 0, _, p => .onward p
  | left + 1, a, p =>
    let m := c.meets t a
    let found := m.others p.heap
    let isLast := t + 1 = c.plan.targets.length && a + 1 = budget
    match admitFor { c.sel with coin := m.coin } route.provider (some route.upstreamModel) c.tenant
        c.surface.affinity m.now found with
    | (h, none) => .onward { p with heap := h }
    | (h, some choice) =>
      if h.free route.provider.addr = 0 then .onward { p with heap := release h choice.permit }
      else
        let h := h.setFree route.provider.addr (h.free route.provider.addr - 1)
        let made : Attempt := ⟨route.provider, choice.key, choice.permit⟩
        if !m.built then .ended { p with heap := returnPermits h (some made) }
        else
          let sent := p.sent ++ [⟨t, route, m.now, found, choice.key⟩]
          match attempt c route isLast m made h with
          | (h, false) => .ended ⟨h, sent⟩
          | (h, true) =>
            runAttempts c t route budget left (a + 1) ⟨returnPermits h (some made), sent⟩

/-- One target of the plan. -/
def runTarget (c : Request κ) (t : Nat) (route : Route) (p : Progress) : Walk :=
  if (Providers.wireDialect route.provider.kind).isNone then .onward p
  else if !c.body t then .ended p
  else
    let tries := budget c route (c.turn t) p.heap
    runAttempts c t route tries tries 0 p

def runTargets (c : Request κ) : Nat → List Route → Progress → Walk
  | _, [], p => .onward p
  | t, route :: rest, p =>
    match runTarget c t route p with
    | .onward p => runTargets c (t + 1) rest p
    | done => done

/-- The attempts of a request, in order; all but the last one failed. -/
def sent (c : Request κ) (h : Heap) : List Sent :=
  (runTargets c 0 c.plan.targets ⟨h, []⟩).progress.sent

/-! ## Every attempt is an answer of `admit_key` -/

/-- The key of an attempt is the one `admit_key` named. -/
structure Named (c : Request κ) (x : Sent) : Prop where
  route : x.route ∈ c.plan.targets
  key : ∃ coin, (admitFor { c.sel with coin := coin } x.route.provider (some x.route.upstreamModel)
    c.tenant c.surface.affinity x.now x.heap).2.bind (·.key) = x.key

variable {c : Request κ}

theorem named_runAttempts {t : Nat} {route : Route} (hroute : route ∈ c.plan.targets)
    (budget left a : Nat) (p : Progress) (hp : ∀ x ∈ p.sent, Named c x) :
    ∀ x ∈ (runAttempts c t route budget left a p).progress.sent, Named c x := by
  induction left generalizing a p with
  | zero => exact hp
  | succ left ih =>
    unfold runAttempts
    dsimp only
    split
    · exact hp
    · next h choice hchoice =>
      split
      · exact hp
      · split
        · exact hp
        · have hsent : ∀ x ∈ p.sent ++ [⟨t, route, (c.meets t a).now,
              (c.meets t a).others p.heap, choice.key⟩], Named c x := by
            intro x hx
            rcases List.mem_append.mp hx with hold | hnew
            · exact hp x hold
            · rw [List.mem_singleton.mp hnew]
              exact ⟨hroute, (c.meets t a).coin, by rw [hchoice]; rfl⟩
          split
          · exact hsent
          · exact ih _ _ hsent

theorem named_runTargets (t : Nat) (routes : List Route) (hroutes : ∀ r ∈ routes, r ∈ c.plan.targets)
    (p : Progress) (hp : ∀ x ∈ p.sent, Named c x) :
    ∀ x ∈ (runTargets c t routes p).progress.sent, Named c x := by
  induction routes generalizing t p with
  | nil => exact hp
  | cons route rest ih =>
    have hfirst : ∀ x ∈ (runTarget c t route p).progress.sent, Named c x := by
      unfold runTarget
      split
      · exact hp
      · split
        · exact hp
        · exact named_runAttempts (hroutes route List.mem_cons_self) _ _ 0 p hp
    unfold runTargets
    split
    · next p' hp' =>
      rw [hp'] at hfirst
      exact ih (t + 1) (fun r hr => hroutes r (List.mem_cons_of_mem _ hr)) p' hfirst
    · exact hfirst

theorem named_sent (c : Request κ) (h : Heap) : ∀ x ∈ sent c h, Named c x :=
  named_runTargets 0 _ (fun _ hr => hr) _ fun _ hx => absurd hx List.not_mem_nil

/-! ## When a retry goes to another seat -/

/-- The keys a request has been sent with. -/
def tried (before : List Sent) : List Addr := before.filterMap fun y => y.key.map (·.addr)

/-- A request of the minute is left. -/
def requestLeft (h : Heap) (k : KeyRuntime) (now : Nat) : Bool :=
  ((h.cells k.addr).stock now).rpm.all fun b => 1000 ≤ b.available

/-- The keys of the target that have not been tried: those of the caller's that
serve the model, are in rotation, and have a slot and a request of their minute
left. -/
def spare (c : Request κ) (before : List Sent) (x : Sent) : List KeyRuntime :=
  (x.route.provider.healthy (some x.route.upstreamModel) c.tenant x.now x.heap).filter fun k =>
    slotFree x.heap k && requestLeft x.heap k x.now && !(tried before).contains k.addr

/-- Not the first attempt for its target. -/
def Again (before : List Sent) (x : Sent) : Prop := ∃ y ∈ before, y.target = x.target

/-- An attempt is not made with a key that has failed while there is a spare
one. -/
def Rotates (c : Request κ) (before : List Sent) (x : Sent) : Prop :=
  Again before x → ∀ k ∈ x.key, k.addr ∈ tried before → spare c before x = []

/-- What the cells say of the keys that have failed: the seat of the session is
none of them; or, with no such seat, each of them that would take the request
is further through its share than another key that would; or, with no key that
would, none of them is the one to be probed. -/
def Behind (c : Request κ) (failed : List Addr) (x : Sent) : Prop :=
  let p := x.route.provider
  let model := some x.route.upstreamModel
  let pin := pinnedReady c.sel x.now c.surface.affinity (p.healthy model c.tenant x.now x.heap) x.heap
  let ready := p.ready model c.tenant x.now x.heap
  (∀ k ∈ pin, k.addr ∉ failed) ∧
    (pin = none →
      (∀ k ∈ ready, k.addr ∈ failed →
        ∃ k' ∈ ready, share c.sel x.heap k' < share c.sel x.heap k) ∧
      (ready = [] → ∀ k ∈ p.probed c.sel model c.tenant x.now x.heap, k.addr ∉ failed))

/-- Asked of every attempt but the first for its target, while there is a spare
key. -/
def Apart (c : Request κ) (before : List Sent) (x : Sent) : Prop :=
  Again before x → spare c before x ≠ [] → Behind c (tried before) x

/-- Of every attempt, and those before it. -/
def Throughout (P : List Sent → Sent → Prop) : (before : List Sent) → List Sent → Prop
  | _, [] => True
  | before, x :: rest => P before x ∧ Throughout P (before ++ [x]) rest

instance (before : List Sent) (x : Sent) : Decidable (Again before x) :=
  inferInstanceAs (Decidable (∃ y ∈ before, _))

instance (before : List Sent) (x : Sent) : Decidable (Rotates c before x) :=
  inferInstanceAs (Decidable (_ → _))

instance (failed : List Addr) (x : Sent) : Decidable (Behind c failed x) :=
  inferInstanceAs (Decidable (_ ∧ _))

instance (before : List Sent) (x : Sent) : Decidable (Apart c before x) :=
  inferInstanceAs (Decidable (_ → _))

instance decidableThroughout (P : List Sent → Sent → Prop) [∀ before x, Decidable (P before x)] :
    (before sent : List Sent) → Decidable (Throughout P before sent)
  | _, [] => isTrue trivial
  | before, x :: rest =>
    have := decidableThroughout P (before ++ [x]) rest
    inferInstanceAs (Decidable (_ ∧ _))

theorem rotates_of_apart {before : List Sent} {x : Sent} (hnamed : Named c x)
    (hnodup : (x.route.provider.keys.map (·.addr)).Nodup) (hapart : Apart c before x) :
    Rotates c before x := by
  intro hagain k hkey hfailed
  by_contra hspare
  have hbehind := hapart hagain hspare
  obtain ⟨coin, hanswer⟩ := hnamed.key
  rw [Option.mem_def.mp hkey] at hanswer
  have hseated := seated_of_admitFor { c.sel with coin := coin } hnodup hanswer
  unfold Behind at hbehind
  dsimp only at hbehind
  -- the coins settle ties and nothing else
  cases hseated with
  | pinned hpin =>
    exact hbehind.1 k hpin hfailed
  | level hpin hready hleast =>
    obtain ⟨k', hready', hlt⟩ := (hbehind.2 hpin).1 k hready hfailed
    exact absurd (hleast k' hready') (not_le.mpr hlt)
  | probe hpin hready hprobe =>
    exact (hbehind.2 hpin).2 hready k hprobe hfailed

/-- Every request, every plan over keys with cells of their own, every session
and whatever is answered. -/
theorem rotates (c : Request κ) (h : Heap)
    (hnodup : ∀ r ∈ c.plan.targets, (r.provider.keys.map (·.addr)).Nodup)
    (hapart : Throughout (Apart c) [] (sent c h)) : Throughout (Rotates c) [] (sent c h) := by
  have hnamed := named_sent c h
  generalize sent c h = attempts at hapart hnamed
  generalize ([] : List Sent) = before at hapart
  induction attempts generalizing before with
  | nil => trivial
  | cons x rest ih =>
    have hx := hnamed x List.mem_cons_self
    exact ⟨rotates_of_apart hx (hnodup x.route hx.route) hapart.1,
      ih (fun y hy => hnamed y (List.mem_cons_of_mem _ hy)) _ hapart.2⟩

/-! ## Two seats -/

def pool (weight : Rat) : Core.Live.Config :=
  ⟨⟨5, 30000, 15000⟩, OrdMap.empty.insert "openai"
    ⟨.openAi, [⟨"a", weight, none, none, none, none, none⟩, ⟨"b", 1, none, none, none, none, none⟩], 8⟩⟩

/-- The table of such a pool, just built. -/
def built (weight : Rat) : Core.Live.RoutingTable × Heap :=
  fromConfigWith (pool weight) none 1 Heap.empty

/-- Both attempts of a request fail to connect; before the first of them other
requests have been dispatched to the second seat. -/
def unreachable (surface : Surface) (weight : Rat) (others : Nat) : Request ℚ where
  surface := surface
  plan := ⟨((built weight).1.providers.get? "openai").toList.map (⟨·, "gpt-4o"⟩), 2,
    [.connectError, .status429, .status5xx]⟩
  tenant := none
  sel := ⟨fun leases weight => leases / weight, fun _ seat => if seat = "a" then 1 else 0,
    fun _ _ => false⟩
  body _ := true
  turn _ := 1000
  meets _ a :=
    { now := 1000
      others := fun h =>
        if a = 0 then
          h.setCells ⟨1, "openai", some 1⟩ { h.cells ⟨1, "openai", some 1⟩ with leases := others }
        else h
      coin := fun _ _ => false
      built := true
      answer := .sendFailed
      answeredAt := 1000 }

/-- Seats of one weight take turns. -/
theorem rotates_even : Throughout (Rotates (unreachable .chat 1 0)) []
    (sent (unreachable .chat 1 0) (built 1).2) :=
  rotates _ _ (by decide +kernel) (by decide +kernel)

/-- A seat of weight 10 is tried again while the other one, with a single
dispatch, is further through its share; and a pinned session goes back to the
seat that just failed. -/
theorem not_rotated :
    ¬ Throughout (Rotates (unreachable .chat 10 1)) [] (sent (unreachable .chat 10 1) (built 10).2) ∧
      ¬ Throughout (Rotates (unreachable (.responses (some "session")) 1 0)) []
        (sent (unreachable (.responses (some "session")) 1 0) (built 1).2) := by
  decide +kernel

end RapidRouter.Proxy.Rotate
