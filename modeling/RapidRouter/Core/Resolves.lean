import RapidRouter.Core.Validate

/-!
# What an accepted document promises the router

Validation and planning look names up by different routes: `validate` follows
aliases and resolves references section by section, `plan` asks the loaded
tables in turn. `accepted_resolves` says they agree. A document that loads
names configured providers and declared services only (`Resolved`), and its
table has a plan for every name it exposes (`Planned`), with the targets the
name stands for.

A catalogued model stands behind the other tables: a group or an alias of the
same name answers for it, and so does `provider/model` of a configured
provider (`Unshadowed` is when none does).
-/

namespace RapidRouter.Core

/-- A target and the chain it falls back through. -/
def RoutingTable.chain (t : RoutingTable) (x : TargetModel) : List TargetModel :=
  x :: (t.fallbacks.get? x).getD []

namespace Document

open Chain

/-- The target's provider is configured. -/
def Config.Configured (c : Config) (t : TargetModel) : Prop :=
  (c.providers.get? t.provider).isSome

/-- What an accepted document has checked, section by section. -/
structure Resolved (raw : RawConfig) (c : Config) : Prop where
  alias_ : ∀ x s, raw.aliases.get? x = some s → ∃ e t, Ends raw.aliases.get? x e ∧
    TargetModel.parse e = some t ∧ c.Configured t ∧ c.aliases.get? x = some t
  fallback : ∀ x chain, raw.fallbacks.get? x = some chain →
    (∃ t, refIn c.aliases x = some t ∧ c.Configured t) ∧
      ∀ s ∈ chain, ∃ t, refIn c.aliases s = some t ∧ c.Configured t
  group : ∀ g group, raw.groups.get? g = some group → group.primary ≠ [] ∧
    ∀ entry ∈ group.primary ++ group.fallback,
      (∃ t, refIn c.aliases entry.target = some t ∧ c.Configured t) ∧
        ∃ w, entry.weight = some w ∧ 0 < w
  key : ∀ name rp, raw.providers.get? name = some rp → (rp.keys.map (·.name)).Nodup ∧
    ∀ rk ∈ rp.keys, (∃ w, rk.weight = some w ∧ 0 < w) ∧
      ∀ t, rk.tenant = some t → t ∈ raw.tenants
  virtualKey : ∀ rk ∈ raw.virtualKeys, ∀ t, rk.tenant = some t → t ∈ raw.tenants
  authKey : ∀ entry ∈ raw.server.authKeys, ∀ t, entry.tenant = some t → t ∈ raw.tenants

section

variable {src : Sources} {raw : RawConfig} {c : Config}

theorem known_iff (h : Loaded src raw c) {t : TargetModel} :
    (raw.routing c.providers).Known t ↔ c.Configured t := by
  unfold RawRouting.Known Config.Configured RawConfig.routing
  dsimp only
  rw [OrdMap.get?_mapWithKey, Option.isSome_map]
  cases hname : raw.providers.get? t.provider with
  | none =>
    rw [h.provider_none hname]
    rfl
  | some rp =>
    obtain ⟨p, hp, _⟩ := h.provider_some hname
    rw [hp]
    exact ⟨fun _ => rfl, fun _ => rfl⟩

/-- The source of a fallback chain is resolved before the chain is looked
at. -/
theorem fallback_source {routing : RawRouting} {aliases : OrdMap String TargetModel}
    (haliases : ∀ x t, aliases.get? x = some t → routing.Known t) {k : String}
    {chain : List String} (h : (routing.validateFallback aliases k chain).1 = []) :
    ∃ t, refIn aliases k = some t ∧ routing.Known t := by
  unfold RawRouting.validateFallback at h
  dsimp only at h
  split at h
  · cases h
  · next fromTarget hfrom => exact ⟨fromTarget, RawRouting.resolveTargetRef_ok haliases hfrom⟩

/-- Both ends of every chain name a configured provider. -/
theorem fallback_known {routing : RawRouting} {rc : RoutingConfig} (h : routing.validate = .ok rc)
    {k : String} {chain : List String} (hk : routing.fallbacks.get? k = some chain) :
    (∃ t, refIn rc.aliases k = some t ∧ routing.Known t) ∧
      ∀ s ∈ chain, ∃ t, refIn rc.aliases s = some t ∧ routing.Known t := by
  have hvalid := RawRouting.validate_ok h
  refine ⟨?_, (hvalid.chain_refs hk).2⟩
  unfold RawRouting.validate at h
  dsimp only at h
  split at h
  · next herrors =>
    cases h
    rw [List.append_eq_nil_iff, List.append_eq_nil_iff, List.append_eq_nil_iff] at herrors
    have hone := collect_errors herrors.1.1.2 _
      (List.mem_map.mpr ⟨(k, chain), OrdMap.mem_entries.mpr hk, rfl⟩)
    exact fallback_source (fun _ _ hx => hvalid.alias_known hx) hone
  · cases h

/-- What holds of an entry because it loaded. -/
theorem forall₂_left {α β : Type} {R : α → β → Prop} {P : α → Prop} (hR : ∀ {x y}, R x y → P x)
    {xs : List α} {ys : List β} (h : List.Forall₂ R xs ys) : ∀ x ∈ xs, P x :=
  ((List.forall₂_and_left _ _).mp (h.imp fun _ _ hxy => ⟨hR hxy, hxy⟩)).1

/-- The members of a pool, each with its weight. -/
theorem pool_entries {routing : RawRouting} {ref : String → Option TargetModel}
    {entries : List RawGroupTarget} {ws : List WeightedTarget} (h : routing.Pool ref entries ws) :
    ∀ entry ∈ entries, (∃ t, ref entry.target = some t ∧ routing.Known t) ∧
      ∃ w, entry.weight = some w ∧ 0 < w := by
  refine forall₂_left (fun {entry w} hentry => ?_) h
  obtain ⟨_, href, hknown, hweight⟩ := hentry
  exact ⟨⟨w.target, href, hknown⟩, w.weight, hweight, w.weight_pos⟩

theorem keys_loaded {rks : List RawKey} {ks : List ApiKey} (h : List.Forall₂ KeyLoaded rks ks) :
    ∀ rk ∈ rks, rk.name ≠ "" ∧ ∃ w, rk.weight = some w ∧ 0 < w :=
  forall₂_left (fun {_ k} hkey => ⟨hkey.named, k.weight, hkey.weight, k.weight_pos⟩) h

/-- Keys that have names are told apart by them. -/
theorem nodup_names {rks : List RawKey} (hnamed : ∀ rk ∈ rks, rk.name ≠ "")
    (h : (rks.map keyName).Nodup) : (rks.map (·.name)).Nodup := by
  have hsame : rks.map keyName = (rks.map (·.name)).map some := by
    rw [List.map_map]
    exact List.map_congr_left fun rk hrk => if_neg (hnamed rk hrk)
  rw [hsame] at h
  exact h.of_map

theorem resolved_of_loaded (h : Loaded src raw c) : Resolved raw c where
  alias_ := by
    intro x s hx
    obtain ⟨_, e, t, hends, hparse, hknown, ht⟩ :=
      (RawRouting.validate_ok h.routing).alias_some hx
    exact ⟨e, t, hends, hparse, (known_iff h).mp hknown, ht⟩
  fallback := by
    intro x chain hx
    obtain ⟨⟨t, ht, hknown⟩, hchain⟩ := fallback_known h.routing hx
    refine ⟨⟨t, ht, (known_iff h).mp hknown⟩, fun s hs => ?_⟩
    obtain ⟨t', ht', hknown'⟩ := hchain s hs
    exact ⟨t', ht', (known_iff h).mp hknown'⟩
  group := by
    intro g group hg
    obtain ⟨_, resolved, _, hprimary, hfallback⟩ :=
      (RawRouting.validate_ok h.routing).group_some hg
    constructor
    · intro hempty
      rw [hempty] at hprimary
      exact resolved.primary_ne (List.forall₂_nil_left_iff.mp hprimary)
    · intro entry hentry
      have hone : (∃ t, refIn c.aliases entry.target = some t ∧
          (raw.routing c.providers).Known t) ∧ ∃ w, entry.weight = some w ∧ 0 < w := by
        rcases List.mem_append.mp hentry with hentry | hentry
        · exact pool_entries hprimary entry hentry
        · exact pool_entries hfallback entry hentry
      obtain ⟨⟨t, ht, hknown⟩, hweight⟩ := hone
      exact ⟨⟨t, ht, (known_iff h).mp hknown⟩, hweight⟩
  key := by
    intro name rp hname
    obtain ⟨p, _, hkeys, hnodup⟩ := h.provider_some hname
    refine ⟨nodup_names (fun rk hrk => (keys_loaded hkeys rk hrk).1) hnodup, fun rk hrk => ?_⟩
    exact ⟨(keys_loaded hkeys rk hrk).2, h.accounts hname rk hrk⟩
  virtualKey := forall₂_left (fun hloaded => hloaded.declared) h.virtualKeys
  authKey := forall₂_left (fun hloaded => hloaded.2) h.authKeys

end

end Document

/-! ## The table it loads as -/

namespace RoutingTable

/-- No other table answers to a catalogued name. -/
structure Unshadowed (t : RoutingTable) (m : String) : Prop where
  group : t.groups.get? m = none
  alias_ : t.aliases.get? m = none
  target : ∀ x, TargetModel.parse m = some x → t.providers.get? x.provider = none

section Plan

variable {U κ : Type} [LinearOrder κ] (sortKey : U → Rat → κ) (d : Draw U) (t : RoutingTable)

/-- The name has a plan, and it is these targets. -/
def Plans (name : String) (targets : List TargetModel) : Prop :=
  ∃ p, t.plan sortKey d name = .ok p ∧ p.targets ≠ [] ∧ p.targets.map ResolvedRoute.target = targets

/-- Every name the table exposes has a plan with the targets it stands for. -/
structure Planned : Prop where
  group : ∀ g pools, t.groups.get? g = some pools → ∃ order,
    order.Perm (pools.primary.map (·.target) ++ pools.fallback.map (·.target)) ∧
      Plans sortKey d t g order
  alias_ : ∀ x target, t.aliases.get? x = some target → Plans sortKey d t x (t.chain target)
  listed : ∀ m provider, t.catalog.get? m = some provider →
    ∃ p, t.providers.get? provider = some p ∧ ∃ key ∈ p.keys, ∃ models, key.models = some models ∧
      m ∈ models
  catalogued : ∀ m provider, t.catalog.get? m = some provider → t.Unshadowed m →
    Plans sortKey d t m (t.chain ⟨provider, m⟩)
  direct : ∀ m x, t.groups.get? m = none → t.aliases.get? m = none →
    TargetModel.parse m = some x → (t.providers.get? x.provider).isSome →
      Plans sortKey d t m (t.chain x)

end Plan

end RoutingTable

namespace RawRouting.Valid

variable {raw : RawRouting} {c : RoutingConfig}

/-- A catalogued model is one that a key of its provider serves. -/
theorem catalog_listed {m provider : String}
    (hm : (RoutingTable.fromConfig c).catalog.get? m = some provider) :
    ∃ p, (RoutingTable.fromConfig c).providers.get? provider = some p ∧
      ∃ key ∈ p.keys, ∃ models, key.models = some models ∧ m ∈ models := by
  change (OrdMap.ofList _).get? m = some provider at hm
  rw [OrdMap.get?_ofList, List.reverse_reverse] at hm
  obtain ⟨e, he, heq⟩ := List.exists_of_findSome?_eq_some hm
  split at heq
  · next hname =>
    rw [Option.some.injEq] at heq
    obtain ⟨⟨name, p⟩, hp, hserved⟩ := List.mem_flatMap.mp he
    obtain ⟨key, hkey, hmodel⟩ := List.mem_flatMap.mp hserved
    obtain ⟨model, hmem, rfl⟩ := List.mem_map.mp hmodel
    dsimp only at heq hname hkey hmem
    subst heq hname
    refine ⟨⟨name, p.kind, p.keys⟩, ?_, key, hkey, ?_⟩
    · show (c.providers.mapWithKey _).get? name = _
      rw [OrdMap.get?_mapWithKey, OrdMap.mem_entries.mp hp]
      rfl
    · cases hmodels : key.models with
      | none =>
        rw [hmodels] at hmem
        cases hmem
      | some models =>
        rw [hmodels] at hmem
        exact ⟨models, rfl, hmem⟩
  · cases heq

section Plan

variable {U κ : Type} [LinearOrder κ] (sortKey : U → Rat → κ)

/-- A name that resolves to one target has it in its plan, with its chain. -/
theorem plans_single (h : raw.Valid c) (d : Draw U) {m : String} {x : TargetModel}
    (hg : c.groups.get? m = none) (hx : (RoutingTable.fromConfig c).resolveTarget 0 m = .ok x) :
    (RoutingTable.fromConfig c).Plans sortKey d m ((RoutingTable.fromConfig c).chain x) := by
  obtain ⟨p, hp, htargets⟩ := h.plan_single sortKey hg hx d
  rw [← h.fallbacks] at htargets
  refine ⟨p, hp, fun hempty => ?_, htargets⟩
  rw [hempty] at htargets
  cases htargets

theorem planned (h : raw.Valid c) (d : Draw U) :
    (RoutingTable.fromConfig c).Planned sortKey d where
  group := by
    intro g pools hg
    cases hraw : raw.groups.get? g with
    | none => exact absurd ((h.group_none hraw).symm.trans hg) (by simp)
    | some group =>
      obtain ⟨resolved, p, hresolved, _, _, hp, htargets⟩ := h.plan_group sortKey hraw d
      have hsame : pools = resolved := Option.some.inj (hg.symm.trans hresolved)
      have hperm := RoutingTable.drawnTargets_perm sortKey d resolved
      rw [hsame]
      refine ⟨_, hperm, p, hp, fun hempty => ?_, htargets⟩
      rw [hempty, List.map_nil] at htargets
      rw [← htargets] at hperm
      have hnil := (List.append_eq_nil_iff.mp hperm.symm.eq_nil).1
      exact resolved.primary_ne (List.map_eq_nil_iff.mp hnil)
  alias_ := by
    intro x target hx
    have hgroup : c.groups.get? x = none := by
      cases hraw : raw.groups.get? x with
      | none => exact h.group_none hraw
      | some group => exact absurd ((h.group_some hraw).1.symm.trans hx) (by simp)
    refine h.plans_single sortKey d hgroup ?_
    have hnone : (RoutingTable.fromConfig c).groups.get? x = none := hgroup
    have hsome : (RoutingTable.fromConfig c).aliases.get? x = some target := hx
    unfold RoutingTable.resolveTarget
    rw [hnone]
    dsimp only
    rw [hsome]
  listed _ _ := catalog_listed
  catalogued := by
    intro m provider hm hclear
    refine h.plans_single sortKey d hclear.group ?_
    have hparse : (TargetModel.parse m).filter (fun x =>
        ((RoutingTable.fromConfig c).providers.get? x.provider).isSome) = none := by
      rw [Option.filter_eq_none_iff]
      intro x hx
      rw [hclear.target x hx]
      exact Bool.false_ne_true
    unfold RoutingTable.resolveTarget
    rw [hclear.group, hclear.alias_]
    dsimp only
    rw [hparse, hm]
  direct := by
    intro m x hgroup halias hx hknown
    refine h.plans_single sortKey d hgroup ?_
    have hparse : (TargetModel.parse m).filter (fun x =>
        ((RoutingTable.fromConfig c).providers.get? x.provider).isSome) = some x :=
      Option.filter_eq_some_iff.mpr ⟨hx, hknown⟩
    unfold RoutingTable.resolveTarget
    rw [hgroup, halias]
    dsimp only
    rw [hparse]

end Plan

end RawRouting.Valid

namespace Document

open Chain

/-- Validation comes to an end on every document, and one that it accepts
resolves: nothing in it names what is not configured or declared, and every
name of its table has a plan with the targets it stands for. -/
theorem accepted_resolves {U κ : Type} [LinearOrder κ] (sortKey : U → Rat → κ) (src : Sources)
    (raw : RawConfig) :
    (∀ name, (raw.aliases.get? name).isSome → ∃ r, Follows raw.aliases.get? [] name r ∧
        resolveAlias raw.aliases name = aliasResult r) ∧
      ∀ c, validate src raw = .ok c → Resolved raw c ∧
        ∀ d : Draw U, (RoutingTable.fromConfig c.routing).Planned sortKey d := by
  refine ⟨fun name hname => resolveAlias_follows hname, fun c hc => ?_⟩
  have hloaded := validate_ok hc
  exact ⟨resolved_of_loaded hloaded, (RawRouting.validate_ok hloaded.routing).planned sortKey⟩

/-- A key written out, of a service or of none. -/
def literalKey (name : String) (models : Option (List String)) (tenant : Option String) : RawKey :=
  { name := name, value := "sk-" ++ name, models := models, tenant := tenant }

def noSources : Sources := ⟨fun _ => none, fun _ => none⟩

/-- Aliases in a chain, a fallback keyed by one of them, a group, and a
catalogued model. -/
def chained : RawConfig where
  tenants := ["agi"]
  providers := .ofList
    [("anthropic", { keys := [literalKey "seat" none (some "agi")] }),
      ("openai", { keys := [literalKey "one" (some ["gpt-4o"]) none] })]
  aliases := .ofList [("fast", "quick"), ("quick", "openai/gpt-4o")]
  fallbacks := .ofList [("fast", ["anthropic/claude"])]
  groups := .ofList [("best", ⟨[⟨"fast", some 3⟩, ⟨"anthropic/claude", some 1⟩], []⟩)]

/-- A key of `chained`, loaded. -/
def loadedKey (name : String) (models : Option (List String)) (tenant : Option String) : ApiKey :=
  { name := name, secret := "sk-" ++ name, weight := 1, weight_pos := weight_one_pos, models := models
    tenant := tenant, limits := {}, sourcePath := none }

def loadedProvider (kind : ProviderKind) (baseUrl : String) (key : ApiKey) : Provider :=
  { kind := kind, baseUrl := some baseUrl, auth := .key, keys := [key], maxConcurrency := 512
    timeoutSecs := 120, azure := none, bedrock := none, vertex := none, codex := none }

def chainedLoaded : Config where
  server := ⟨"0.0.0.0", 8080, 100 * 1024 * 1024, [], false, 30⟩
  providers := .ofList
    [("anthropic", loadedProvider .anthropic "https://api.anthropic.com"
        (loadedKey "seat" none (some "agi"))),
      ("openai", loadedProvider .openAi "https://api.openai.com/v1"
        (loadedKey "one" (some ["gpt-4o"]) none))]
  aliases := .ofList [("fast", ⟨"openai", "gpt-4o"⟩), ("quick", ⟨"openai", "gpt-4o"⟩)]
  fallbacks := .ofList [(⟨"openai", "gpt-4o"⟩, [⟨"anthropic", "claude"⟩])]
  groups := .ofList [("best", ⟨[⟨⟨"openai", "gpt-4o"⟩, 3, by decide⟩,
    ⟨⟨"anthropic", "claude"⟩, 1, by decide⟩], [], by decide⟩)]
  reliability := ⟨{}, ⟨2, [.connectError, .status429, .status5xx]⟩⟩
  tenants := ["agi"]
  virtualKeys := []
  console := ⟨[], 43200000⟩
  store := {}
  usage := ⟨365, 10, false, .all, 256 * 1024, 1⟩
  pricing := .empty

/-- Sort keys for a draw that leaves it to the weights. -/
def heaviest (_ : Unit) (weight : Rat) : Rat := weight

theorem accepted_resolves_chained :
    Resolved chained chainedLoaded ∧
      ∀ d : Draw Unit, (RoutingTable.fromConfig chainedLoaded.routing).Planned heaviest d :=
  (accepted_resolves heaviest noSources chained).2 chainedLoaded (by decide +kernel)

/-- A group that has the name of a model of OpenAI. -/
def taken : RawConfig :=
  { chained with
    groups := .ofList [("gpt-4o", ⟨[⟨"anthropic/claude", some 1⟩], []⟩)] }

def takenLoaded : Config :=
  { chainedLoaded with
    groups := .ofList
      [("gpt-4o", ⟨[⟨⟨"anthropic", "claude"⟩, 1, by decide⟩], [], by decide⟩)] }

/-- **A group takes the name of a catalogued model.** The catalogue has
`gpt-4o` at OpenAI, and a request for it goes to the group, which has not. -/
theorem catalogued_name_taken :
    ¬ ∀ (src : Sources) (raw : RawConfig) (c : Config), validate src raw = .ok c →
      ∀ m provider, (RoutingTable.fromConfig c.routing).catalog.get? m = some provider →
        ∀ d : Draw Unit, ∃ p, (RoutingTable.fromConfig c.routing).plan heaviest d m = .ok p ∧
          ⟨provider, m⟩ ∈ p.targets.map ResolvedRoute.target := by
  intro h
  have hplan : (RoutingTable.fromConfig takenLoaded.routing).plan heaviest
      ⟨fun _ => (), fun _ => (), 0⟩ "gpt-4o" =
        .ok ⟨[⟨⟨"anthropic", .anthropic, [⟨"seat", none, some "agi"⟩]⟩, "claude"⟩], 2,
          [.connectError, .status429, .status5xx]⟩ := by decide +kernel
  obtain ⟨p, hp, hmem⟩ := h noSources taken takenLoaded (by decide +kernel) "gpt-4o" "openai"
    (by decide +kernel) ⟨fun _ => (), fun _ => (), 0⟩
  rw [hplan, Except.ok.injEq] at hp
  rw [← hp] at hmem
  exact absurd hmem (by decide)

end Document

end RapidRouter.Core
