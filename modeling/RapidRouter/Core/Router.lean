import Mathlib.Data.Prod.Lex
import Mathlib.Data.String.Basic
import RapidRouter.Lib.OrdMap
import RapidRouter.Lib.WeightedDraw

/-!
# Routing

`router-core/src/router.rs`: from the model name a caller sends to the plan
the dispatch loop walks. A routing group is drawn in weighted-random order,
its primary pool before its reserve; any other name resolves to one target
(alias, `provider/model`, or a bare catalogue name) followed by that target's
fallback chain.

The draw enters as the uniforms it consumes (`Draw`), and `plan` sorts each
pool by `sortKey uniform weight`. What an argument over all draws needs is in
the last section: the targets of a plan do not depend on the draw
(`plan_targets_perm`), and which of them can stand first is known from the
table alone (`heads`).
-/

namespace RapidRouter.Core

inductive ErrorClass where
  | invalidRequest
  | authentication
  | permission
  | notFound
  | payloadTooLarge
  | rateLimited
  | insufficientQuota
  | upstreamError
  | noCapacity
  | timeout
  deriving DecidableEq, Repr

/-- `openai_type`. -/
def ErrorClass.openaiType : ErrorClass → String
  | .invalidRequest | .notFound | .payloadTooLarge => "invalid_request_error"
  | .authentication => "authentication_error"
  | .permission => "permission_error"
  | .rateLimited | .insufficientQuota => "rate_limit_error"
  | .upstreamError | .noCapacity | .timeout => "api_error"

structure GatewayError where
  class_ : ErrorClass
  message : String
  param : Option String
  provider : Option String
  upstreamStatus : Option Nat
  deriving DecidableEq

namespace GatewayError

def new (class_ : ErrorClass) (message : String) : GatewayError := ⟨class_, message, none, none, none⟩

def withParam (e : GatewayError) (param : String) : GatewayError := { e with param := some param }

def withProvider (e : GatewayError) (provider : String) : GatewayError :=
  { e with provider := some provider }

def withUpstreamStatus (e : GatewayError) (status : Nat) : GatewayError :=
  { e with upstreamStatus := some status }

end GatewayError

inductive ProviderKind where
  | openAi
  | anthropic
  | gemini
  | azure
  | bedrock
  | vertex
  | openAiCompat
  | claudeSubscription
  | codexSubscription
  deriving DecidableEq, Repr

def ProviderKind.isSubscription : ProviderKind → Bool
  | .claudeSubscription | .codexSubscription => true
  | _ => false

inductive RetryOn where
  | connectError
  | status429
  | status5xx
  deriving DecidableEq, Repr

structure Retries where
  maxAttempts : Nat
  on : List RetryOn
  deriving DecidableEq

structure TargetModel where
  provider : String
  model : String
  deriving DecidableEq

namespace TargetModel

/-- The derived `Ord`: by provider, then by model. -/
instance : LinearOrder TargetModel :=
  LinearOrder.lift' (fun t => toLex (t.provider, t.model)) fun a b h => by
    cases a
    cases b
    simpa using h

/-- `TargetModel::parse`: split at the first `/`, neither side empty. -/
def parse (s : String) : Option TargetModel :=
  match s.toList.span (· ≠ '/') with
  | (_, []) => none
  | ([], _ :: _) => none
  | (_ :: _, [_]) => none
  | (provider, _ :: model) => some ⟨String.ofList provider, String.ofList model⟩

/-- The `Display` text, `provider/model`. -/
def text (t : TargetModel) : String := t.provider ++ "/" ++ t.model

end TargetModel

/-- One entry of a pool; validation rejects a weight that is not above 0. -/
structure WeightedTarget where
  target : TargetModel
  weight : Rat
  weight_pos : 0 < weight

instance : DecidableEq WeightedTarget := fun a b =>
  decidable_of_iff (a.target = b.target ∧ a.weight = b.weight) (by cases a; cases b; simp)

/-- The weight of an entry that names none. -/
theorem weight_one_pos : (0 : Rat) < 1 := by decide

/-- A routing group; validation drops a group whose primary pool is empty. -/
structure RoutingGroup where
  primary : List WeightedTarget
  fallback : List WeightedTarget
  primary_ne : primary ≠ []
  deriving DecidableEq

structure KeyRuntime where
  name : String
  /-- `none` serves every model of its provider. -/
  models : Option (List String)
  tenant : Option String
  deriving DecidableEq

structure ProviderRuntime where
  name : String
  kind : ProviderKind
  keys : List KeyRuntime
  deriving DecidableEq

namespace ProviderRuntime

/-- Whether any account of this pool carries a service label. -/
def managed (p : ProviderRuntime) : Bool := p.keys.any (·.tenant.isSome)

/-- The keys that may serve `model`, health aside. -/
def eligible (p : ProviderRuntime) (model : String) : List KeyRuntime :=
  p.keys.filter fun k => k.models.all (·.contains model)

/-- Whether one account is this caller's to spend. -/
def ownedBy (p : ProviderRuntime) (key : KeyRuntime) (tenant : Option String) : Bool :=
  if !p.managed then true
  else
    match key.tenant, tenant with
    | some owner, some caller => owner = caller
    | _, _ => false

/-- The accounts `holding` counts and `admit_for` draws from. -/
def mine (p : ProviderRuntime) (model : String) (tenant : Option String) : List KeyRuntime :=
  (p.eligible model).filter (p.ownedBy · tenant)

end ProviderRuntime

structure ResolvedRoute where
  provider : ProviderRuntime
  upstreamModel : String
  deriving DecidableEq

namespace ResolvedRoute

/-- The `provider/model` name an allowlist knows a route by. -/
def text (r : ResolvedRoute) : String := r.provider.name ++ "/" ++ r.upstreamModel

/-- Whether the caller has an account that may carry a request down this
route: a keyless provider, or a key that is eligible and owned. -/
def Servable (r : ResolvedRoute) (tenant : Option String) : Prop :=
  r.provider.keys = [] ∨ r.provider.mine r.upstreamModel tenant ≠ []

instance (r : ResolvedRoute) (tenant : Option String) : Decidable (r.Servable tenant) :=
  inferInstanceAs (Decidable (_ ∨ _))

end ResolvedRoute

structure RoutePlan where
  targets : List ResolvedRoute
  maxAttemptsPerTarget : Nat
  retryOn : List RetryOn
  deriving DecidableEq

structure RoutingTable where
  providers : OrdMap String ProviderRuntime
  /-- Bare model name to provider name, from key allowlists. -/
  catalog : OrdMap String String
  aliases : OrdMap String TargetModel
  fallbacks : OrdMap TargetModel (List TargetModel)
  groups : OrdMap String RoutingGroup
  retries : Retries

/-- The randomness one plan consumes: a uniform for each pool entry, and the
roll of a single pick. -/
structure Draw (U : Type*) where
  primary : ℕ → U
  fallback : ℕ → U
  roll : Rat

namespace RoutingTable

/-- `route_to`. -/
def routeTo (t : RoutingTable) (target : TargetModel) (requested : String) :
    Except GatewayError ResolvedRoute :=
  match t.providers.get? target.provider with
  | some runtime => .ok ⟨runtime, target.model⟩
  | none =>
    .error ((GatewayError.new .notFound
      ("model `" ++ requested ++ "` routes to unconfigured provider `" ++ target.provider
        ++ "`")).withParam "model")

/-- The targets of a list whose provider is configured. -/
def routes (t : RoutingTable) (targets : List TargetModel) (requested : String) :
    List ResolvedRoute :=
  targets.filterMap fun target => (t.routeTo target requested).toOption

/-- `weighted_pick_target`: the pool entry a roll in `[0, total)` falls into. -/
def weightedPickTarget (roll : Rat) (g : RoutingGroup) : TargetModel :=
  go (roll * (g.primary.map (·.weight)).sum) g.primary
where
  go (roll : Rat) : List WeightedTarget → TargetModel
    | [] => (g.primary.getLast g.primary_ne).target
    | w :: rest => if roll - w.weight ≤ 0 then w.target else go (roll - w.weight) rest

/-- `resolve_target`: a group, an alias, `provider/model` of a configured
provider, or a bare catalogue name, in that order. -/
def resolveTarget (t : RoutingTable) (roll : Rat) (requested : String) :
    Except GatewayError TargetModel :=
  match t.groups.get? requested with
  | some g => .ok (weightedPickTarget roll g)
  | none =>
    match t.aliases.get? requested with
    | some target => .ok target
    | none =>
      match (TargetModel.parse requested).filter fun x => (t.providers.get? x.provider).isSome with
      | some target => .ok target
      | none =>
        match t.catalog.get? requested with
        | some provider => .ok ⟨provider, requested⟩
        | none =>
          .error ((GatewayError.new .notFound
            ("unknown model `" ++ requested ++ "`; use `provider/model`, a routing group, "
              ++ "a configured alias, or a model listed in a key's `models`")).withParam "model")

section Plan

variable {U κ : Type*} [LinearOrder κ] (sortKey : U → Rat → κ)

/-- `weighted_order`: a pool with no choice to make is left as it is. -/
def weightedOrder (u : ℕ → U) (pool : List WeightedTarget) : List TargetModel :=
  if pool.length < 2 then pool.map (·.target)
  else (WeightedDraw.byKeys (fun i w => sortKey (u i) w.weight) pool).map (·.target)

/-- `plan_group`. -/
def planGroup (t : RoutingTable) (d : Draw U) (requested : String) (g : RoutingGroup) :
    Except GatewayError RoutePlan :=
  let targets := t.routes
    (weightedOrder sortKey d.primary g.primary ++ weightedOrder sortKey d.fallback g.fallback)
    requested
  if targets = [] then
    .error ((GatewayError.new .notFound
      ("routing group `" ++ requested ++ "` has no usable target; every model in it "
        ++ "names a provider this gateway is not configured for")).withParam "model")
  else .ok ⟨targets, max t.retries.maxAttempts 1, t.retries.on⟩

/-- `plan`. -/
def plan (t : RoutingTable) (d : Draw U) (requested : String) : Except GatewayError RoutePlan :=
  match t.groups.get? requested with
  | some g => t.planGroup sortKey d requested g
  | none =>
    match t.resolveTarget d.roll requested with
    | .error e => .error e
    | .ok primary =>
      match t.routeTo primary requested with
      | .error e => .error e
      | .ok first =>
        .ok ⟨first :: t.routes ((t.fallbacks.get? primary).getD []) requested,
          max t.retries.maxAttempts 1, t.retries.on⟩

end Plan

/-! ## What a plan holds, whatever is drawn -/

/-- The targets `requested` can be dispatched to, in the order the
configuration lists them. -/
def reach (t : RoutingTable) (requested : String) : List ResolvedRoute :=
  match t.groups.get? requested with
  | some g =>
    t.routes (g.primary.map (·.target)) requested ++ t.routes (g.fallback.map (·.target)) requested
  | none =>
    match t.resolveTarget 0 requested with
    | .error _ => []
    | .ok primary =>
      match t.routeTo primary requested with
      | .error _ => []
      | .ok first => first :: t.routes ((t.fallbacks.get? primary).getD []) requested

/-- The targets that stand first in some plan: the usable members of the
primary pool, or of the reserve when no primary member is usable. -/
def heads (t : RoutingTable) (requested : String) : List ResolvedRoute :=
  match t.groups.get? requested with
  | some g =>
    if t.routes (g.primary.map (·.target)) requested = [] then
      t.routes (g.fallback.map (·.target)) requested
    else t.routes (g.primary.map (·.target)) requested
  | none => (t.reach requested).take 1

variable {t : RoutingTable} {requested : String}

theorem resolveTarget_roll (h : t.groups.get? requested = none) (roll : Rat) :
    t.resolveTarget roll requested = t.resolveTarget 0 requested := by
  unfold resolveTarget
  rw [h]

theorem routes_append (xs ys : List TargetModel) :
    t.routes (xs ++ ys) requested = t.routes xs requested ++ t.routes ys requested :=
  List.filterMap_append

theorem routes_perm (t : RoutingTable) (requested : String) {xs ys : List TargetModel}
    (h : xs.Perm ys) : (t.routes xs requested).Perm (t.routes ys requested) :=
  h.filterMap _

section Plan

variable {U κ : Type*} [LinearOrder κ] {sortKey : U → Rat → κ}

theorem weightedOrder_perm (sortKey : U → Rat → κ) (u : ℕ → U) (pool : List WeightedTarget) :
    (weightedOrder sortKey u pool).Perm (pool.map (·.target)) := by
  unfold weightedOrder
  split
  · exact List.Perm.refl _
  · exact (WeightedDraw.byKeys_perm _ pool).map _

/-- The two pools of a group, each in its drawn order. -/
def drawnTargets (sortKey : U → Rat → κ) (d : Draw U) (g : RoutingGroup) : List TargetModel :=
  weightedOrder sortKey d.primary g.primary ++ weightedOrder sortKey d.fallback g.fallback

theorem drawnTargets_perm (sortKey : U → Rat → κ) (d : Draw U) (g : RoutingGroup) :
    (drawnTargets sortKey d g).Perm (g.primary.map (·.target) ++ g.fallback.map (·.target)) :=
  (weightedOrder_perm _ _ _).append (weightedOrder_perm _ _ _)

theorem planGroup_ok {d : Draw U} {g : RoutingGroup} {p : RoutePlan} :
    t.planGroup sortKey d requested g = .ok p ↔
      t.routes (drawnTargets sortKey d g) requested ≠ [] ∧
        p = ⟨t.routes (drawnTargets sortKey d g) requested, max t.retries.maxAttempts 1,
          t.retries.on⟩ := by
  unfold planGroup drawnTargets
  dsimp only
  split
  next h => simp [h]
  next h =>
    rw [Except.ok.injEq, eq_comm]
    exact (and_iff_right h).symm

theorem plan_of_group {d : Draw U} {g : RoutingGroup} (hg : t.groups.get? requested = some g) :
    t.plan sortKey d requested = t.planGroup sortKey d requested g := by
  unfold plan
  rw [hg]

theorem reach_of_group {g : RoutingGroup} (hg : t.groups.get? requested = some g) :
    t.reach requested =
      t.routes (g.primary.map (·.target) ++ g.fallback.map (·.target)) requested := by
  unfold reach
  rw [hg, routes_append]

/-- Nothing is drawn for a name that is not a group. -/
theorem plan_of_single {d : Draw U} {p : RoutePlan} (hg : t.groups.get? requested = none) :
    t.plan sortKey d requested = .ok p ↔
      t.reach requested ≠ [] ∧
        p = ⟨t.reach requested, max t.retries.maxAttempts 1, t.retries.on⟩ := by
  unfold plan reach
  rw [hg]
  dsimp only
  rw [resolveTarget_roll hg]
  cases t.resolveTarget 0 requested with
  | error e => simp
  | ok primary =>
    dsimp only
    cases t.routeTo primary requested with
    | error e => simp
    | ok first =>
      rw [Except.ok.injEq, eq_comm]
      exact (and_iff_right (List.cons_ne_nil _ _)).symm

/-- Every draw plans the same targets, in some order. -/
theorem plan_targets_perm {d : Draw U} {p : RoutePlan} (h : t.plan sortKey d requested = .ok p) :
    p.targets.Perm (t.reach requested) := by
  cases hg : t.groups.get? requested with
  | some g =>
    rw [plan_of_group hg, planGroup_ok] at h
    rw [reach_of_group hg, h.2]
    exact routes_perm t requested (drawnTargets_perm sortKey d g)
  | none =>
    rw [plan_of_single hg] at h
    rw [h.2]

/-- Every target of a plan is tried at least once. -/
theorem plan_max_pos {d : Draw U} {p : RoutePlan} (h : t.plan sortKey d requested = .ok p) :
    0 < p.maxAttemptsPerTarget := by
  have hpos : 0 < max t.retries.maxAttempts 1 := lt_max_of_lt_right one_pos
  cases hg : t.groups.get? requested with
  | some g =>
    rw [plan_of_group hg, planGroup_ok] at h
    rw [h.2]
    exact hpos
  | none =>
    rw [plan_of_single hg] at h
    rw [h.2]
    exact hpos

/-- A name has a plan exactly when it reaches some target. -/
theorem plan_isOk (sortKey : U → Rat → κ) (d : Draw U) :
    (∃ p, t.plan sortKey d requested = .ok p) ↔ t.reach requested ≠ [] := by
  cases hg : t.groups.get? requested with
  | some g =>
    rw [plan_of_group hg, reach_of_group hg]
    simp only [planGroup_ok]
    have hperm := routes_perm t requested
      (drawnTargets_perm sortKey d g)
    constructor
    · intro ⟨_, hne, _⟩ hnil
      rw [hnil] at hperm
      exact hne hperm.eq_nil
    · intro hne
      refine ⟨_, fun hnil => ?_, rfl⟩
      rw [hnil] at hperm
      exact hne hperm.symm.eq_nil
  | none => simp [plan_of_single hg]

/-- Every plan starts with one of `heads`. -/
theorem plan_head_mem {d : Draw U} {p : RoutePlan} (h : t.plan sortKey d requested = .ok p) :
    ∃ r, p.targets.head? = some r ∧ r ∈ t.heads requested := by
  cases hg : t.groups.get? requested with
  | none =>
    rw [plan_of_single hg] at h
    obtain ⟨hne, rfl⟩ := h
    obtain ⟨r, rest, hr⟩ := List.exists_cons_of_ne_nil hne
    refine ⟨r, by rw [hr]; rfl, ?_⟩
    unfold heads
    rw [hg, hr]
    exact List.mem_cons_self
  | some g =>
    rw [plan_of_group hg, planGroup_ok] at h
    obtain ⟨hne, rfl⟩ := h
    obtain ⟨r, rest, hr⟩ := List.exists_cons_of_ne_nil hne
    refine ⟨r, by rw [hr]; rfl, ?_⟩
    unfold heads
    rw [hg]
    dsimp only
    have hprimary := routes_perm t requested
      (weightedOrder_perm sortKey d.primary g.primary)
    have hfallback := routes_perm t requested
      (weightedOrder_perm sortKey d.fallback g.fallback)
    unfold drawnTargets at hr
    rw [routes_append] at hr
    split
    next hnil =>
      rw [hnil] at hprimary
      rw [hprimary.eq_nil, List.nil_append] at hr
      exact hfallback.mem_iff.mp (hr ▸ List.mem_cons_self)
    next hsome =>
      cases hp : t.routes (weightedOrder sortKey d.primary g.primary) requested with
      | nil =>
        rw [hp] at hprimary
        exact absurd hprimary.symm.eq_nil hsome
      | cons x xs =>
        rw [hp, List.cons_append] at hr
        rw [← (List.cons.inj hr).1]
        exact hprimary.mem_iff.mp (hp ▸ List.mem_cons_self)

end Plan

/-! ## Which target a draw puts first -/

/-- The sort key of a pool entry, `u.powf(1.0 / weight)`, over the reals. -/
noncomputable def powf (u : Set.Ioo (0 : ℝ) 1) (weight : Rat) : ℝ :=
  WeightedDraw.sortKey u weight

/-- Some draw puts any given member of a pool first. -/
theorem exists_weightedOrder_head {pool : List WeightedTarget} {w : WeightedTarget}
    (hw : w ∈ pool) : ∃ u, (weightedOrder powf u pool).head? = some w.target := by
  obtain ⟨i, hi, rfl⟩ := List.getElem_of_mem hw
  unfold weightedOrder
  split
  next hlen =>
    have h0 : i = 0 := by omega
    subst h0
    refine ⟨fun _ => ⟨1 / 2, by norm_num, by norm_num⟩, ?_⟩
    rw [List.head?_map, List.head?_eq_getElem?, List.getElem?_eq_getElem hi]
    rfl
  next hlen =>
    obtain ⟨u, hu⟩ := WeightedDraw.exists_draw_first (w := fun w : WeightedTarget => (w.weight : ℝ))
      (fun w => by exact_mod_cast w.weight_pos) hi
    refine ⟨u, ?_⟩
    rw [List.head?_map]
    unfold powf
    rw [hu]
    rfl

/-- A usable member of a pool heads the pool's routes in some draw. -/
theorem exists_routes_head {pool : List WeightedTarget} {r : ResolvedRoute}
    (hr : r ∈ t.routes (pool.map (·.target)) requested) :
    ∃ u, (t.routes (weightedOrder powf u pool) requested).head? = some r := by
  unfold routes at hr
  rw [List.mem_filterMap] at hr
  obtain ⟨target, htarget, hroute⟩ := hr
  obtain ⟨w, hw, rfl⟩ := List.mem_map.mp htarget
  obtain ⟨u, hu⟩ := exists_weightedOrder_head hw
  refine ⟨u, ?_⟩
  obtain ⟨rest, hrest⟩ := List.head?_eq_some_iff.mp hu
  rw [hrest]
  unfold routes
  rw [List.filterMap_cons, hroute]
  rfl

/-- Each of `heads` starts the plan of some draw. -/
theorem exists_plan_head {r : ResolvedRoute} (hr : r ∈ t.heads requested) :
    ∃ d p, t.plan powf d requested = .ok p ∧ p.targets.head? = some r := by
  have half : Set.Ioo (0 : ℝ) 1 := ⟨1 / 2, by norm_num, by norm_num⟩
  unfold heads at hr
  cases hg : t.groups.get? requested with
  | none =>
    rw [hg] at hr
    dsimp only at hr
    cases hreach : t.reach requested with
    | nil => simp [hreach] at hr
    | cons x xs =>
      have hx : r = x := by simpa [hreach] using hr
      subst hx
      refine ⟨⟨fun _ => half, fun _ => half, 0⟩, _, (plan_of_single hg).mpr ⟨?_, rfl⟩, ?_⟩
      · simp [hreach]
      · simp [hreach]
  | some g =>
    rw [hg] at hr
    dsimp only at hr
    split at hr
    next hnil =>
      obtain ⟨u, hu⟩ := exists_routes_head hr
      have hprimary : t.routes (weightedOrder powf (fun _ => half) g.primary) requested = [] := by
        have hperm := routes_perm t requested
          (weightedOrder_perm powf (fun _ => half) g.primary)
        rw [hnil] at hperm
        exact hperm.eq_nil
      have hdrawn : (t.routes (drawnTargets powf ⟨fun _ => half, u, 0⟩ g) requested).head? =
          some r := by
        unfold drawnTargets
        rw [routes_append, hprimary, List.nil_append]
        exact hu
      refine ⟨⟨fun _ => half, u, 0⟩, _, (plan_of_group hg).trans (planGroup_ok.mpr ⟨?_, rfl⟩),
        hdrawn⟩
      intro hnil
      simp [hnil] at hdrawn
    next hsome =>
      obtain ⟨u, hu⟩ := exists_routes_head hr
      have hdrawn : (t.routes (drawnTargets powf ⟨u, fun _ => half, 0⟩ g) requested).head? =
          some r := by
        unfold drawnTargets
        rw [routes_append, List.head?_append, hu]
        rfl
      refine ⟨⟨u, fun _ => half, 0⟩, _, (plan_of_group hg).trans (planGroup_ok.mpr ⟨?_, rfl⟩),
        hdrawn⟩
      intro hnil
      simp [hnil] at hdrawn

end RoutingTable

end RapidRouter.Core
