import RapidRouter.Core.VKey
import RapidRouter.Providers.Dialect

/-!
# Dispatching a chat request

`run_chat` of `router-server/src/proxy.rs`: the gate in front of a virtual
key, then the walk over the plan, each target tried as often as its pool
allows, until an attempt serves the caller.

What the rest of the world contributes to one request is an `Environment`:
whether a body can be built for a target, which accounts are healthy, and
what each attempt meets. `dispatch` records every target a request was sent
to.

The gate asks the allowlist about the requested name and the *first* target
of the plan; the walk goes on to all of them. `confined_iff` says for which
tables and keys that is enough.
-/

namespace RapidRouter.Proxy

open RapidRouter.Core Providers

/-- `MAX_ATTEMPTS_PER_TARGET`. -/
def maxAttemptsPerTarget : Nat := 8

/-- The derived `Debug` text of a kind. -/
def debugText : ProviderKind → String
  | .openAi => "OpenAi"
  | .anthropic => "Anthropic"
  | .gemini => "Gemini"
  | .azure => "Azure"
  | .bedrock => "Bedrock"
  | .vertex => "Vertex"
  | .openAiCompat => "OpenAiCompat"
  | .claudeSubscription => "ClaudeSubscription"
  | .codexSubscription => "CodexSubscription"

/-- Why `VkRuntime::admit` refuses. -/
inductive VkDeny where
  | rateLimited
  | budgetExhausted
  deriving DecidableEq, Repr

/-- `vk_gate`. The limiters and the budget answer `deny`. -/
def vkGate (vk : VirtualKeyDef) (deny : Option VkDeny) (requested : String) (plan : RoutePlan) :
    Except GatewayError Unit :=
  let resolved := plan.targets.head?.map ResolvedRoute.text
  if !vk.allowsModel requested resolved then
    .error ((GatewayError.new .permission
      ("virtual key `" ++ vk.name ++ "` does not allow model `" ++ requested ++ "`")).withParam
      "model")
  else
    match deny with
    | none => .ok ()
    | some .rateLimited =>
      .error (GatewayError.new .rateLimited ("virtual key `" ++ vk.name ++ "` rate limit exceeded"))
    | some .budgetExhausted =>
      .error (GatewayError.new .insufficientQuota
        ("virtual key `" ++ vk.name ++ "` has exhausted its budget for this period"))

/-- What the upstream, or the way to it, does with one attempt. -/
inductive Reply where
  /-- The request could not be built; nothing is sent. -/
  | unbuilt (err : GatewayError)
  | sendFailed (err : GatewayError)
  /-- A response: its status, whether a seat was renewed on a 401, and what
  reading a response that needs translation fails with. -/
  | answered (status : Nat) (renewed : Bool) (unread : Option GatewayError)

/-- The health of a pool as one attempt finds it. -/
structure Health where
  /-- Some candidate account takes the request. -/
  admits : Bool
  allBenched : Bool
  allAtCeiling : Bool
  /-- The provider's own concurrency permit is free. -/
  permit : Bool

structure Environment where
  /-- Building the upstream body of a target, by its position in the plan. -/
  body : ℕ → Option GatewayError
  /-- `holding().usable` of a target. -/
  usable : ℕ → ℕ
  health : ℕ → ℕ → Health
  reply : ℕ → ℕ → Reply

/-- `healthy_key_count`. -/
def healthyKeyCount (route : ResolvedRoute) (usable : ℕ) : ℕ :=
  if route.provider.keys = [] then 1 else max usable 1

/-- `attempt_budget`. -/
def attemptBudget (route : ResolvedRoute) (plan : RoutePlan) (usable : ℕ) : ℕ :=
  min (max plan.maxAttemptsPerTarget (healthyKeyCount route usable)) maxAttemptsPerTarget

/-- `admit_key`: some account carries the attempt. No account can when the
caller owns none that serves the model. -/
def admitKey (route : ResolvedRoute) (tenant : Option String) (h : Health) : Bool :=
  decide (route.Servable tenant) && h.admits

def serviceOf : Option String → String
  | some tenant => "service `" ++ tenant ++ "`"
  | none => "this key"

/-- `pool_empty`. -/
def poolEmpty (route : ResolvedRoute) (tenant : Option String) (h : Health) : GatewayError :=
  let owned := (route.provider.mine route.upstreamModel tenant).length
  let err :=
    if owned = 0 then
      GatewayError.new .permission (serviceOf tenant ++ " owns no account on provider `"
        ++ route.provider.name ++ "` that can serve model `" ++ route.upstreamModel ++ "`")
    else if h.allBenched then
      GatewayError.new .rateLimited (serviceOf tenant ++ " has no account left on provider `"
        ++ route.provider.name ++ "`: all " ++ toString owned
        ++ " of its accounts are out of quota for model `" ++ route.upstreamModel ++ "`")
    else if h.allAtCeiling then
      GatewayError.new .noCapacity (serviceOf tenant ++ " has no account free on provider `"
        ++ route.provider.name ++ "`: all " ++ toString owned
        ++ " of its accounts are at their ceiling for model `" ++ route.upstreamModel
        ++ "`; try again shortly")
    else
      GatewayError.new .noCapacity ("no healthy key of provider `" ++ route.provider.name
        ++ "` for model `" ++ route.upstreamModel ++ "`")
  err.withProvider route.provider.name

inductive AttemptOutcome where
  | serve
  | retry (err : GatewayError)

/-- `attempt`, once the request is sent and `status` came back. -/
def answeredOutcome (route : ResolvedRoute) (plan : RoutePlan) (isLast passthrough : Bool)
    (status : Nat) (renewed : Bool) (unread : Option GatewayError) : AttemptOutcome :=
  let seatAuthFailure := route.provider.kind.isSubscription && (status = 401 || status = 403)
  let serverError := 500 ≤ status && status ≤ 599
  let retryable := (status = 429 && plan.retryOn.contains .status429)
    || (serverError && plan.retryOn.contains .status5xx) || seatAuthFailure
  if route.provider.kind.isSubscription && status = 401 && renewed && !isLast then
    .retry ((GatewayError.new .upstreamError ("seat credential of provider `"
      ++ route.provider.name ++ "` was renewed; retrying")).withProvider route.provider.name)
  else if retryable && !isLast then
    .retry (((GatewayError.new .upstreamError ("provider `" ++ route.provider.name
      ++ "` returned " ++ toString status)).withProvider route.provider.name).withUpstreamStatus
      status)
  else if passthrough then .serve
  else
    match unread with
    | none => .serve
    | some err => .retry err

/-- One request on its way through the plan. -/
structure Chat where
  env : Environment
  plan : RoutePlan
  tenant : Option String
  inDialect : Dialect

/-- The loop variables of `run_chat`, and the targets a request was sent to. -/
structure Progress where
  sent : List ResolvedRoute
  attempts : ℕ
  lastError : Option GatewayError

/-- How a stretch of the walk ends. -/
inductive Walk where
  | served (p : Progress) (route : ResolvedRoute)
  | failed (p : Progress) (err : GatewayError)
  | onward (p : Progress)

def Walk.progress : Walk → Progress
  | .served p _ | .failed p _ | .onward p => p

/-- The attempts on one target: `a_idx in 0..budget`. -/
def runAttempts (c : Chat) (t : ℕ) (route : ResolvedRoute) (passthrough : Bool) (budget : ℕ) :
    (left a : ℕ) → Progress → Walk
  | 0, _, p => .onward p
  | left + 1, a, p =>
    let isLast := t + 1 = c.plan.targets.length && a + 1 = budget
    let h := c.env.health t a
    if !admitKey route c.tenant h then
      .onward { p with lastError := some (poolEmpty route c.tenant h) }
    else if !h.permit then
      .onward { p with
        lastError := some ((GatewayError.new .noCapacity
          ("provider `" ++ route.provider.name ++ "` is at max concurrency")).withProvider
          route.provider.name) }
    else
      let p := { p with attempts := p.attempts + 1 }
      match c.env.reply t a with
      | .unbuilt err => .failed p err
      | .sendFailed err =>
        runAttempts c t route passthrough budget left (a + 1)
          { p with sent := p.sent ++ [route], lastError := some err }
      | .answered status renewed unread =>
        let p := { p with sent := p.sent ++ [route] }
        match answeredOutcome route c.plan isLast passthrough status renewed unread with
        | .serve => .served p route
        | .retry err =>
          runAttempts c t route passthrough budget left (a + 1) { p with lastError := some err }

/-- One target of the plan. -/
def runTarget (c : Chat) (t : ℕ) (route : ResolvedRoute) (p : Progress) : Walk :=
  match wireDialect route.provider.kind with
  | none =>
    .onward { p with
      lastError := some (((GatewayError.new .invalidRequest
        ("provider `" ++ route.provider.name ++ "` (" ++ debugText route.provider.kind
          ++ ") is configured but its adapter is not available yet")).withParam
        "model").withProvider route.provider.name) }
  | some outDialect =>
    let passthrough := outDialect = c.inDialect
    match if passthrough then none else c.env.body t with
    -- Capability errors are the caller's to fix: no fallback is tried.
    | some err => .failed p err
    | none =>
      let budget := attemptBudget route c.plan (c.env.usable t)
      runAttempts c t route passthrough budget budget 0 p

/-- The targets from position `t` on. -/
def runTargets (c : Chat) : ℕ → List ResolvedRoute → Progress → Walk
  | _, [], p => .onward p
  | t, route :: rest, p =>
    match runTarget c t route p with
    | .onward p => runTargets c (t + 1) rest p
    | done => done

/-- The answer of `run_chat`, and the targets the request was sent to. -/
structure Dispatched where
  sent : List ResolvedRoute
  answer : Except GatewayError ResolvedRoute

/-- The dispatch loop of `run_chat`. -/
def dispatch (c : Chat) : Dispatched :=
  match runTargets c 0 c.plan.targets ⟨[], 0, none⟩ with
  | .served p route => ⟨p.sent, .ok route⟩
  | .failed p err => ⟨p.sent, .error err⟩
  | .onward p =>
    ⟨p.sent, .error (p.lastError.getD
      (GatewayError.new .noCapacity "no route candidates available"))⟩

/-- `run_chat` for a caller with the virtual key `vk`. -/
def runChat (vk : VirtualKeyDef) (deny : Option VkDeny) (env : Environment) (inDialect : Dialect)
    (requested : String) (plan : Except GatewayError RoutePlan) : Dispatched :=
  match plan with
  | .error err => ⟨[], .error err⟩
  | .ok plan =>
    match vkGate vk deny requested plan with
    | .error err => ⟨[], .error err⟩
    | .ok () => dispatch ⟨env, plan, vk.tenant, inDialect⟩

/-! ## What a walk sends to -/

variable {c : Chat} {r : ResolvedRoute}

theorem mem_runAttempts {t : ℕ} {route : ResolvedRoute} {pt : Bool} {budget left a : ℕ}
    {p : Progress} (h : r ∈ (runAttempts c t route pt budget left a p).progress.sent) :
    r ∈ p.sent ∨ r = route ∧ route.Servable c.tenant := by
  induction left generalizing a p with
  | zero => exact Or.inl h
  | succ left ih =>
    unfold runAttempts at h
    dsimp only at h
    split at h
    · exact Or.inl h
    next hgate =>
      have hservable : route.Servable c.tenant := by
        simp only [admitKey, Bool.not_eq_true', Bool.not_eq_false, Bool.and_eq_true,
          decide_eq_true_eq] at hgate
        exact hgate.1
      have happend : ∀ {sent : List ResolvedRoute}, r ∈ sent ++ [route] →
          r ∈ sent ∨ r = route ∧ route.Servable c.tenant := by
        intro sent hmem
        rcases List.mem_append.mp hmem with hold | hnew
        · exact Or.inl hold
        · exact Or.inr ⟨List.mem_singleton.mp hnew, hservable⟩
      split at h
      · exact Or.inl h
      · split at h
        · exact Or.inl h
        · rcases ih h with hmem | hnew
          · exact happend hmem
          · exact Or.inr hnew
        · split at h
          · exact happend h
          · rcases ih h with hmem | hnew
            · exact happend hmem
            · exact Or.inr hnew

theorem mem_runTarget {t : ℕ} {route : ResolvedRoute} {p : Progress}
    (h : r ∈ (runTarget c t route p).progress.sent) :
    r ∈ p.sent ∨ r = route ∧ route.Servable c.tenant := by
  unfold runTarget at h
  split at h
  · exact Or.inl h
  · dsimp only at h
    split at h
    · exact Or.inl h
    · exact mem_runAttempts h

theorem mem_runTargets {t : ℕ} {routes : List ResolvedRoute} {p : Progress}
    (h : r ∈ (runTargets c t routes p).progress.sent) :
    r ∈ p.sent ∨ r ∈ routes ∧ r.Servable c.tenant := by
  induction routes generalizing t p with
  | nil => exact Or.inl h
  | cons route rest ih =>
    have hfirst : ∀ {w : Walk}, runTarget c t route p = w → r ∈ w.progress.sent →
        r ∈ p.sent ∨ r ∈ route :: rest ∧ r.Servable c.tenant := by
      intro w hw hmem
      rcases mem_runTarget (hw ▸ hmem) with hold | ⟨rfl, hs⟩
      · exact Or.inl hold
      · exact Or.inr ⟨List.mem_cons_self, hs⟩
    unfold runTargets at h
    split at h
    next p' hw =>
      rcases ih h with hmem | ⟨hmem, hs⟩
      · exact hfirst hw hmem
      · exact Or.inr ⟨List.mem_cons_of_mem _ hmem, hs⟩
    next w hw => exact hfirst rfl h

theorem dispatch_sent (c : Chat) :
    (dispatch c).sent = (runTargets c 0 c.plan.targets ⟨[], 0, none⟩).progress.sent := by
  unfold dispatch
  cases runTargets c 0 c.plan.targets ⟨[], 0, none⟩ <;> rfl

/-- A request only goes to targets of its plan the caller has an account for. -/
theorem mem_dispatch (h : r ∈ (dispatch c).sent) :
    r ∈ c.plan.targets ∧ r.Servable c.tenant := by
  rw [dispatch_sent] at h
  rcases mem_runTargets h with hnone | hmem
  · exact absurd hnone List.not_mem_nil
  · exact hmem

/-! ## The worst case: every attempt fails -/

/-- Every account takes its request and no upstream can be reached. -/
def unreachable (err : GatewayError) : Environment where
  body _ := none
  usable _ := 1
  health _ _ := ⟨true, false, false, true⟩
  reply _ _ := .sendFailed err

section Unreachable

variable {err : GatewayError} (henv : c.env = unreachable err)
include henv

theorem runAttempts_unreachable (t : ℕ) (route : ResolvedRoute) (pt : Bool) (budget left a : ℕ)
    (p : Progress) : ∃ p', runAttempts c t route pt budget left a p = .onward p' ∧
      p.sent ⊆ p'.sent ∧ (0 < left → route.Servable c.tenant → route ∈ p'.sent) := by
  induction left generalizing a p with
  | zero => exact ⟨p, rfl, List.Subset.refl _, fun h => absurd h (lt_irrefl 0)⟩
  | succ left ih =>
    unfold runAttempts
    rw [henv]
    dsimp only [unreachable]
    by_cases hs : route.Servable c.tenant
    · obtain ⟨p', hrun, hsub, _⟩ := ih (a + 1) ⟨p.sent ++ [route], p.attempts + 1, some err⟩
      refine ⟨p', ?_, fun x hx => hsub (List.mem_append_left _ hx), fun _ _ => ?_⟩
      · simpa [admitKey, hs] using hrun
      · exact hsub (List.mem_append_right _ List.mem_cons_self)
    · refine ⟨{ p with lastError := some (poolEmpty route c.tenant ⟨true, false, false, true⟩) },
        ?_, List.Subset.refl _, fun _ h => absurd h hs⟩
      simp [admitKey, hs]

theorem runTarget_unreachable (hmax : 0 < c.plan.maxAttemptsPerTarget) (t : ℕ)
    (route : ResolvedRoute) (p : Progress) : ∃ p', runTarget c t route p = .onward p' ∧
      p.sent ⊆ p'.sent ∧ (route.Servable c.tenant → route ∈ p'.sent) := by
  have hdialect : ∃ d, wireDialect route.provider.kind = some d := by
    cases route.provider.kind <;> exact ⟨_, rfl⟩
  obtain ⟨d, hd⟩ := hdialect
  have hbody : (if d = c.inDialect then none else c.env.body t) = none := by
    rw [henv]
    exact ite_self _
  have hbudget : 0 < attemptBudget route c.plan (c.env.usable t) := by
    unfold attemptBudget maxAttemptsPerTarget
    omega
  obtain ⟨p', hrun, hsub, hsent⟩ := runAttempts_unreachable henv t route (d = c.inDialect)
    (attemptBudget route c.plan (c.env.usable t)) (attemptBudget route c.plan (c.env.usable t)) 0 p
  refine ⟨p', ?_, hsub, hsent hbudget⟩
  unfold runTarget
  rw [hd]
  dsimp only
  rw [hbody]
  exact hrun

theorem runTargets_unreachable (hmax : 0 < c.plan.maxAttemptsPerTarget) (t : ℕ)
    (routes : List ResolvedRoute) (p : Progress) : ∃ p', runTargets c t routes p = .onward p' ∧
      p.sent ⊆ p'.sent ∧ ∀ r ∈ routes, r.Servable c.tenant → r ∈ p'.sent := by
  induction routes generalizing t p with
  | nil => exact ⟨p, rfl, List.Subset.refl _, fun r hr => absurd hr List.not_mem_nil⟩
  | cons route rest ih =>
    obtain ⟨p₁, hfirst, hsub₁, hroute⟩ := runTarget_unreachable henv hmax t route p
    obtain ⟨p₂, hrest, hsub₂, hmem⟩ := ih (t + 1) p₁
    refine ⟨p₂, ?_, fun x hx => hsub₂ (hsub₁ hx), fun r hr hs => ?_⟩
    · unfold runTargets
      rw [hfirst]
      exact hrest
    · rcases List.mem_cons.mp hr with rfl | hr
      · exact hsub₂ (hroute hs)
      · exact hmem r hr hs

/-- When nothing answers, the request goes to every target of the plan the
caller has an account for. -/
theorem dispatch_unreachable (hmax : 0 < c.plan.maxAttemptsPerTarget) (hr : r ∈ c.plan.targets)
    (hs : r.Servable c.tenant) : r ∈ (dispatch c).sent := by
  obtain ⟨p, hrun, _, hmem⟩ := runTargets_unreachable henv hmax 0 c.plan.targets
    ⟨[], 0, none⟩
  rw [dispatch_sent, hrun]
  exact hmem r hr hs

end Unreachable

/-! ## What the gate is enough for -/

/-- A chat request and the draw it meets. -/
noncomputable def chatWith (table : RoutingTable) (vk : VirtualKeyDef) (requested : String)
    (d : Draw (Set.Ioo (0 : ℝ) 1)) (deny : Option VkDeny) (env : Environment)
    (inDialect : Dialect) : Dispatched :=
  runChat vk deny env inDialect requested (table.plan RoutingTable.powf d requested)

/-- The gate lets the request of one draw through. -/
def Admitted (table : RoutingTable) (vk : VirtualKeyDef) (requested : String)
    (d : Draw (Set.Ioo (0 : ℝ) 1)) (deny : Option VkDeny) : Prop :=
  ∃ p, table.plan RoutingTable.powf d requested = .ok p ∧ vkGate vk deny requested p = .ok ()

/-- The allowlist holds for all a request is sent to, and whether it is
admitted is not a matter of chance. -/
structure Confined (table : RoutingTable) (vk : VirtualKeyDef) (requested : String) : Prop where
  permitted : ∀ d deny env inDialect r,
    r ∈ (chatWith table vk requested d deny env inDialect).sent →
      vk.allowsModel requested (some r.text) = true
  undrawn : ∀ d d' deny,
    Admitted table vk requested d deny ↔ Admitted table vk requested d' deny

theorem vkGate_ok {vk : VirtualKeyDef} {deny : Option VkDeny} {requested : String}
    {p : RoutePlan} : vkGate vk deny requested p = .ok () ↔
      vk.allowsModel requested (p.targets.head?.map ResolvedRoute.text) = true ∧ deny = none := by
  unfold vkGate
  dsimp only
  cases vk.allowsModel requested (p.targets.head?.map ResolvedRoute.text) with
  | false => simp
  | true =>
    rcases deny with _ | _ | _
    · simp
    · simp
    · simp

variable {table : RoutingTable} {vk : VirtualKeyDef} {requested : String}

theorem mem_chatWith {d : Draw (Set.Ioo (0 : ℝ) 1)} {deny : Option VkDeny} {env : Environment}
    {inDialect : Dialect} (h : r ∈ (chatWith table vk requested d deny env inDialect).sent) :
    Admitted table vk requested d deny ∧ r ∈ table.reach requested ∧ r.Servable vk.tenant := by
  unfold chatWith runChat at h
  cases hp : table.plan RoutingTable.powf d requested with
  | error e =>
    rw [hp] at h
    exact absurd h List.not_mem_nil
  | ok p =>
    rw [hp] at h
    dsimp only at h
    cases hg : vkGate vk deny requested p with
    | error e =>
      rw [hg] at h
      exact absurd h List.not_mem_nil
    | ok _ =>
      rw [hg] at h
      obtain ⟨hmem, hs⟩ := mem_dispatch h
      exact ⟨⟨p, hp, hg⟩, (RoutingTable.plan_targets_perm hp).mem_iff.mp hmem, hs⟩

/-- Under an admitted draw the worst case reaches every servable target. -/
theorem chatWith_unreachable {d : Draw (Set.Ioo (0 : ℝ) 1)}
    (hgate : Admitted table vk requested d none) (hr : r ∈ table.reach requested)
    (hs : r.Servable vk.tenant) (err : GatewayError) :
    r ∈ (chatWith table vk requested d none (unreachable err) .openAi).sent := by
  obtain ⟨p, hp, hg⟩ := hgate
  unfold chatWith runChat
  rw [hp]
  dsimp only
  rw [hg]
  exact dispatch_unreachable rfl (RoutingTable.plan_max_pos hp)
    ((RoutingTable.plan_targets_perm hp).mem_iff.mpr hr) hs

/-- A draw is admitted by the target it puts first. -/
theorem exists_head_of_admitted {d : Draw (Set.Ioo (0 : ℝ) 1)} {deny : Option VkDeny}
    (h : Admitted table vk requested d deny) :
    ∃ r ∈ table.heads requested, vk.allowsModel requested (some r.text) = true := by
  obtain ⟨p, hp, hg⟩ := h
  obtain ⟨r, hhead, hmem⟩ := RoutingTable.plan_head_mem hp
  rw [vkGate_ok, hhead] at hg
  exact ⟨r, hmem, hg.1⟩

theorem exists_draw_head (vk : VirtualKeyDef) {r : ResolvedRoute} (hr : r ∈ table.heads requested) :
    ∃ d, ∀ deny, Admitted table vk requested d deny ↔
      vk.allowsModel requested (some r.text) = true ∧ deny = none := by
  obtain ⟨d, p, hp, hhead⟩ := RoutingTable.exists_plan_head hr
  refine ⟨d, fun deny => ⟨?_, ?_⟩⟩
  · rintro ⟨q, hq, hg⟩
    rw [hp] at hq
    cases hq
    rw [vkGate_ok, hhead] at hg
    exact hg
  · intro h
    refine ⟨p, hp, ?_⟩
    rw [vkGate_ok, hhead]
    exact h

/-- Where every target that can stand first is allowed, the draw has no say. -/
theorem admitted_iff {d : Draw (Set.Ioo (0 : ℝ) 1)} {deny : Option VkDeny}
    (hall : ∀ r ∈ table.heads requested, vk.allowsModel requested (some r.text) = true) :
    Admitted table vk requested d deny ↔ table.reach requested ≠ [] ∧ deny = none := by
  constructor
  · intro ⟨p, hp, hg⟩
    exact ⟨(RoutingTable.plan_isOk _ _).mp ⟨p, hp⟩, (vkGate_ok.mp hg).2⟩
  · intro ⟨hreach, hgate⟩
    obtain ⟨p, hp⟩ := (RoutingTable.plan_isOk RoutingTable.powf d).mpr hreach
    obtain ⟨r, hhead, hmem⟩ := RoutingTable.plan_head_mem hp
    refine ⟨p, hp, vkGate_ok.mpr ⟨?_, hgate⟩⟩
    rw [hhead]
    exact hall r hmem

/-- The requested name and the targets it can reach settle whether a key is
confined: the name itself is allowed, or no target a draw can put first is,
or every one of those is and so is all the caller can be served by. -/
theorem confined_iff (table : RoutingTable) (vk : VirtualKeyDef) (requested : String) :
    Confined table vk requested ↔
      vk.models = [] ∨ requested ∈ vk.models ∨
        (∀ r ∈ table.heads requested, r.text ∉ vk.models) ∨
        (∀ r ∈ table.heads requested, r.text ∈ vk.models) ∧
          ∀ r ∈ table.reach requested, r.Servable vk.tenant → r.text ∈ vk.models := by
  by_cases hopen : vk.models = [] ∨ requested ∈ vk.models
  · have hall : ∀ text, vk.allowsModel requested (some text) = true := fun text =>
      VirtualKeyDef.allowsModel_eq.mpr (hopen.imp_right Or.inl)
    refine iff_of_true ⟨fun _ _ _ _ r _ => hall r.text, fun d d' deny => ?_⟩
      (hopen.imp_right Or.inl)
    rw [admitted_iff fun r _ => hall r.text, admitted_iff fun r _ => hall r.text]
  · rw [not_or] at hopen
    obtain ⟨hnonempty, hname⟩ := hopen
    have hallows : ∀ text, vk.allowsModel requested (some text) = true ↔ text ∈ vk.models := by
      intro text
      rw [VirtualKeyDef.allowsModel_eq]
      simp [hnonempty, hname]
    constructor
    · intro hconf
      refine Or.inr (Or.inr ?_)
      by_cases hhead : ∃ r ∈ table.heads requested, r.text ∈ vk.models
      · obtain ⟨r, hr, hmem⟩ := hhead
        obtain ⟨d, hd⟩ := exists_draw_head vk hr
        have hgate : Admitted table vk requested d none :=
          (hd none).mpr ⟨(hallows r.text).mpr hmem, rfl⟩
        refine Or.inr ⟨fun r' hr' => ?_, fun r' hr' hs => ?_⟩
        · obtain ⟨d', hd'⟩ := exists_draw_head vk hr'
          have hgate' := (hd' none).mp ((hconf.undrawn d d' none).mp hgate)
          exact (hallows r'.text).mp hgate'.1
        · have hsent := chatWith_unreachable hgate hr' hs
            (GatewayError.new .upstreamError "connection refused")
          exact (hallows r'.text).mp (hconf.permitted _ _ _ _ _ hsent)
      · refine Or.inl fun r hr hmem => hhead ⟨r, hr, hmem⟩
    · intro hcases
      rcases hcases with h | h | hnone | ⟨hheads, hreach⟩
      · exact absurd h hnonempty
      · exact absurd h hname
      · have hrefused : ∀ d deny, ¬ Admitted table vk requested d deny := by
          intro d deny hgate
          obtain ⟨r, hr, hallowed⟩ := exists_head_of_admitted hgate
          exact hnone r hr ((hallows r.text).mp hallowed)
        exact ⟨fun d deny _ _ _ hsent => absurd (mem_chatWith hsent).1 (hrefused d deny),
          fun d d' deny => iff_of_false (hrefused d deny) (hrefused d' deny)⟩
      · refine ⟨fun d deny env inDialect r hsent => ?_, fun d d' deny => ?_⟩
        · obtain ⟨_, hmem, hs⟩ := mem_chatWith hsent
          exact (hallows r.text).mpr (hreach r hmem hs)
        · have hall : ∀ r ∈ table.heads requested,
              vk.allowsModel requested (some r.text) = true :=
            fun r hr => (hallows r.text).mpr (hheads r hr)
          rw [admitted_iff hall, admitted_iff hall]

/-- A group with an allowed primary and a reserve the key may not use. -/
def reserveTable : RoutingTable where
  providers := (OrdMap.empty.insert "openai" ⟨"openai", .openAi, [⟨"main", none, none⟩]⟩).insert
    "anthropic" ⟨"anthropic", .anthropic, [⟨"main", none, none⟩]⟩
  catalog := .empty
  aliases := .empty
  fallbacks := .empty
  groups := OrdMap.empty.insert "smart"
    ⟨[⟨⟨"openai", "gpt-4o"⟩, 1, weight_one_pos⟩],
      [⟨⟨"anthropic", "claude-opus"⟩, 1, weight_one_pos⟩],
      List.cons_ne_nil _ _⟩
  retries := ⟨2, [.status429, .status5xx]⟩

def reserveKey : VirtualKeyDef where
  id := "00ff00"
  name := "app"
  secretHash := ""
  prevSecret := none
  models := ["openai/gpt-4o"]
  tenant := none
  budget := none
  rate := none
  expiresMs := none
  tags := .empty
  enabled := true
  createdMs := 0

/-- The primary lets the request in; when it cannot be reached, the request
goes to the reserve. -/
theorem reserve_not_confined : ¬ Confined reserveTable reserveKey "smart" := by
  intro hconf
  have hhead : (⟨⟨"openai", .openAi, [⟨"main", none, none⟩]⟩, "gpt-4o"⟩ : ResolvedRoute) ∈
      reserveTable.heads "smart" := by decide
  obtain ⟨d, hd⟩ := exists_draw_head reserveKey hhead
  have hgate : Admitted reserveTable reserveKey "smart" d none := (hd none).mpr (by decide)
  have hreach : (⟨⟨"anthropic", .anthropic, [⟨"main", none, none⟩]⟩, "claude-opus"⟩ :
      ResolvedRoute) ∈ reserveTable.reach "smart" := by decide
  have hsent := chatWith_unreachable hgate hreach (by decide)
    (GatewayError.new .upstreamError "connection refused")
  exact absurd (hconf.permitted _ _ _ _ _ hsent) (by decide)

end RapidRouter.Proxy
