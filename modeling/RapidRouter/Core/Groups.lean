import RapidRouter.Core.Resolves

/-!
# What a group is planned as

`plan_group` of `router-core/src/router.rs` draws the primary pool, then the
reserve, each in weighted-random order. Of a group that validated, every
target of either pool stands in the plan once, and the reserve behind the
whole primary pool, whatever is drawn; and there is a draw for each primary
target to lead. What keeps a pool free of repeats is not the draw but
`validate_groups`, which refuses a target that an earlier entry of the pool
resolves to already (`validatePool_nodup`).
-/

namespace RapidRouter.Core

namespace RawRouting

variable {raw : RawRouting} {aliases : OrdMap String TargetModel}

/-- An entry is only accepted for a target the pool does not have. -/
theorem validatePoolEntry_new {label path : String} {pool : List WeightedTarget}
    {entry : RawGroupTarget} {w : WeightedTarget}
    (h : raw.validatePoolEntry aliases label path pool entry = .ok w) :
    w.target ∉ pool.map (·.target) := by
  unfold validatePoolEntry at h
  split at h
  · cases h
  · split at h
    · split at h
      · cases h
      · split at h
        · cases h
        · next target _ =>
          split at h
          · cases h
          · next hnew =>
            cases h
            intro hmem
            apply hnew
            obtain ⟨x, hx, htarget⟩ := List.mem_map.mp hmem
            exact List.any_eq_true.mpr ⟨x, hx, decide_eq_true htarget⟩
    · cases h

/-- No target is twice in a pool, whether or not every entry of it was
accepted. -/
theorem validatePool_nodup {path label : String} (entries : List RawGroupTarget) :
    ∀ (i : Nat) {pool : List WeightedTarget}, (pool.map (·.target)).Nodup →
      ((raw.validatePool aliases path label i pool entries).2.map (·.target)).Nodup := by
  induction entries with
  | nil =>
    intro i pool hpool
    exact hpool
  | cons entry rest ih =>
    intro i pool hpool
    unfold validatePool
    split
    · exact ih (i + 1) hpool
    · next w hw =>
      apply ih (i + 1)
      rw [List.map_append, List.map_singleton]
      rw [List.nodup_append]
      refine ⟨hpool, List.nodup_singleton _, ?_⟩
      intro x hx y hy hxy
      rw [List.mem_singleton] at hy
      exact validatePoolEntry_new hw (hy ▸ hxy ▸ hx)

theorem validateGroup_nodup {g name : String} {group : RawGroup} {resolved : RoutingGroup}
    (h : (raw.validateGroup aliases g group).2 = some (name, resolved)) :
    (resolved.primary.map (·.target)).Nodup ∧ (resolved.fallback.map (·.target)).Nodup := by
  unfold validateGroup at h
  dsimp only at h
  split at h
  · cases h
  · split at h
    · cases h
    · split at h
      · cases h
      · split at h
        · cases h
        · dsimp only at h
          split at h
          · cases h
          · cases h
            exact ⟨validatePool_nodup _ 0 List.nodup_nil, validatePool_nodup _ 0 List.nodup_nil⟩

/-- The groups of a configuration that loads. -/
theorem validate_nodup {c : RoutingConfig} (h : raw.validate = .ok c) {g : String}
    {resolved : RoutingGroup} (hg : c.groups.get? g = some resolved) :
    (resolved.primary.map (·.target)).Nodup ∧ (resolved.fallback.map (·.target)).Nodup := by
  have hgroups : c.groups = (raw.validateGroups c.aliases).2 := by
    unfold validate at h
    dsimp only at h
    split at h
    · cases h
      rfl
    · cases h
  rw [hgroups, validateGroups_get?] at hg
  obtain ⟨group, -, hgroup⟩ := Option.bind_eq_some_iff.mp hg
  obtain ⟨⟨name, r⟩, hchecked, rfl⟩ := Option.map_eq_some_iff.mp hgroup
  exact validateGroup_nodup hchecked

end RawRouting

namespace Document

/-- The draws `plan_group` makes, over the reals. -/
abbrev Uniform := Draw (Set.Ioo (0 : ℝ) 1)

/-- The plan of a group, against its entries as they were written. -/
structure GroupPlanned (raw : RawConfig) (c : Config) (g : String) (group : RawGroup)
    (primary fallback : List TargetModel) : Prop where
  /-- Every entry stands for a target, and every target for an entry. -/
  primary_entries :
    group.primary.map (fun e => refIn c.aliases e.target) = primary.map some
  fallback_entries :
    group.fallback.map (fun e => refIn c.aliases e.target) = fallback.map some
  primary_nodup : primary.Nodup
  fallback_nodup : fallback.Nodup
  /-- The whole primary pool before any of the reserve. -/
  order : ∀ d : Uniform, ∃ front back, front.Perm primary ∧ back.Perm fallback ∧
    (RoutingTable.fromConfig c.routing).Plans RoutingTable.powf d g (front ++ back)
  /-- Each primary target leads in some draw. -/
  leads : ∀ x ∈ primary, ∃ (d : Uniform) (rest : List TargetModel),
    (RoutingTable.fromConfig c.routing).Plans RoutingTable.powf d g (x :: rest)

/-- A group as it loads: what its entries resolve to, and the order it is
planned in. -/
structure GroupLoaded (raw : RawConfig) (c : Config) (g : String) (group : RawGroup)
    (resolved : RoutingGroup) : Prop where
  primary_entries : group.primary.map (fun e => refIn c.aliases e.target) =
    (resolved.primary.map (·.target)).map some
  fallback_entries : group.fallback.map (fun e => refIn c.aliases e.target) =
    (resolved.fallback.map (·.target)).map some
  primary_nodup : (resolved.primary.map (·.target)).Nodup
  fallback_nodup : (resolved.fallback.map (·.target)).Nodup
  drawn : ∀ d : Uniform, (RoutingTable.fromConfig c.routing).Plans RoutingTable.powf d g
    (RoutingTable.drawnTargets RoutingTable.powf d resolved)

theorem group_loaded {src : Sources} {raw : RawConfig} {c : Config} (hc : validate src raw = .ok c)
    {g : String} {group : RawGroup} (hg : raw.groups.get? g = some group) :
    ∃ resolved, GroupLoaded raw c g group resolved := by
  have hrouting := (validate_ok hc).routing
  have hvalid := RawRouting.validate_ok hrouting
  obtain ⟨_, resolved, hresolved, hprimary, hfallback⟩ := hvalid.group_some hg
  obtain ⟨hnodup, hreserve⟩ := RawRouting.validate_nodup hrouting hresolved
  refine ⟨resolved, ?_, ?_, hnodup, hreserve, fun d => ?_⟩
  · rw [List.map_map]
    exact (RawRouting.Valid.pool_targets hprimary).symm
  · rw [List.map_map]
    exact (RawRouting.Valid.pool_targets hfallback).symm
  · obtain ⟨pools, p, hpools, _, _, hplan, htargets⟩ := hvalid.plan_group RoutingTable.powf hg d
    have hsame : pools = resolved := Option.some.inj (hpools.symm.trans hresolved)
    refine ⟨p, hplan, fun hempty => ?_, hsame ▸ htargets⟩
    have hperm := RoutingTable.drawnTargets_perm RoutingTable.powf d pools
    rw [← htargets, hempty] at hperm
    have hnil := (List.append_eq_nil_iff.mp hperm.symm.eq_nil).1
    exact pools.primary_ne (List.map_eq_nil_iff.mp hnil)

/-- A configuration that loads, and any group of it. -/
theorem group_plan_permutes (src : Sources) (raw : RawConfig) (c : Config)
    (hc : validate src raw = .ok c) (g : String) (group : RawGroup)
    (hg : raw.groups.get? g = some group) :
    ∃ primary fallback, GroupPlanned raw c g group primary fallback := by
  obtain ⟨resolved, hloaded⟩ := group_loaded hc hg
  refine ⟨resolved.primary.map (·.target), resolved.fallback.map (·.target),
    hloaded.primary_entries, hloaded.fallback_entries, hloaded.primary_nodup, hloaded.fallback_nodup,
    fun d => ?_, fun x hx => ?_⟩
  · exact ⟨_, _, RoutingTable.weightedOrder_perm _ _ _, RoutingTable.weightedOrder_perm _ _ _,
      hloaded.drawn d⟩
  · obtain ⟨w, hw, rfl⟩ := List.mem_map.mp hx
    obtain ⟨u, hu⟩ := RoutingTable.exists_weightedOrder_head hw
    obtain ⟨rest, hrest⟩ := List.head?_eq_some_iff.mp hu
    have hled := hloaded.drawn ⟨u, u, 0⟩
    unfold RoutingTable.drawnTargets at hled
    dsimp only at hled
    rw [hrest, List.cons_append] at hled
    exact ⟨_, _, hled⟩

/-- The group of a document with two primary models, one behind an alias. -/
theorem group_plan_permutes_chained : ∃ primary fallback,
    GroupPlanned chained chainedLoaded "best"
      ⟨[⟨"fast", some 3⟩, ⟨"anthropic/claude", some 1⟩], []⟩ primary fallback :=
  group_plan_permutes noSources chained chainedLoaded (by decide +kernel) "best" _ (by decide +kernel)

end Document

end RapidRouter.Core
