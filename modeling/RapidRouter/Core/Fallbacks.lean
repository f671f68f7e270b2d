import RapidRouter.Core.Groups

/-!
# Which fallback chains are in force

`validate_fallbacks` of `router-core/src/config/validate.rs` keys a chain by
the target its source resolves to. Several sources may resolve to one target,
an alias and the `provider/model` it stands for, or two aliases, and then the
chain of the last one, in the order of their names, is the only one left.

A source that is written `provider/model` may also be the name of a group,
which is planned before anything else: the chain is never consulted.
`chain_in_force_iff` says of each chain whether it survives both.
-/

namespace RapidRouter.Core

namespace Document

/-- The chain of a source, resolved. -/
def resolvedChain (c : Config) (chain : List String) : List TargetModel :=
  chain.filterMap (refIn c.aliases)

/-- Planning a request for the source tries its target, and the targets of the
chain after it, in order, whatever is drawn. -/
def InForce (c : Config) (source : String) (chain : List String) : Prop :=
  ∀ d : Uniform, ∃ x tail, refIn c.aliases source = some x ∧
    (RoutingTable.fromConfig c.routing).Plans RoutingTable.powf d source (x :: tail) ∧
      (resolvedChain c chain).Sublist tail

/-- The last source, in the order of the names, that stands for a target. -/
def lastSource (raw : RawConfig) (c : Config) (x : TargetModel) : Option (String × List String) :=
  raw.fallbacks.entries.reverse.find? fun e => refIn c.aliases e.1 = some x

/-- Nothing takes the place of a chain. -/
def Undisturbed (raw : RawConfig) (c : Config) (source : String) (chain : List String) : Prop :=
  match raw.groups.get? source with
  | none => ∀ x e, refIn c.aliases source = some x → lastSource raw c x = some e →
      (resolvedChain c chain).Sublist (resolvedChain c e.2)
  -- A group can only do what the chain says when it leaves nothing to a draw.
  | some group => ∃ x y, refIn c.aliases source = some x ∧
      group.primary.map (fun e => refIn c.aliases e.target) = [some x] ∧
      resolvedChain c chain = [y] ∧
      some y ∈ group.fallback.map fun e => refIn c.aliases e.target

section

variable {U κ : Type} [LinearOrder κ] {sortKey : U → Rat → κ} {t : RoutingTable}

/-- A draw settles the plan. -/
theorem plans_unique {d : Draw U} {name : String} {xs ys : List TargetModel}
    (hx : t.Plans sortKey d name xs) (hy : t.Plans sortKey d name ys) : xs = ys := by
  obtain ⟨p, hp, -, rfl⟩ := hx
  obtain ⟨q, hq, -, rfl⟩ := hy
  rw [hp, Except.ok.injEq] at hq
  rw [hq]

end

theorem chainOf_eq (raw : RawConfig) (c : Config) (x : TargetModel) :
    chainOf (refIn c.aliases) raw.fallbacks.entries x =
      ((lastSource raw c x).map fun e => resolvedChain c e.2).getD [] := by
  unfold chainOf lastSource resolvedChain
  induction raw.fallbacks.entries.reverse with
  | nil => rfl
  | cons e rest ih =>
    rw [List.findSome?_cons, List.find?_cons]
    by_cases hx : refIn c.aliases e.1 = some x
    · rw [if_pos hx, decide_eq_true hx]
      rfl
    · rw [if_neg hx, decide_eq_false hx]
      exact ih

/-- A draw like any other. -/
noncomputable def half : Set.Ioo (0 : ℝ) 1 := ⟨1 / 2, by norm_num, by norm_num⟩

section

variable {src : Sources} {raw : RawConfig} {c : Config} {source : String} {chain : List String}

/-- A source without a group of its name is planned as its target and the
chain that is left of it. -/
theorem source_planned (hc : validate src raw = .ok c)
    (hsource : raw.fallbacks.get? source = some chain) (hgroup : raw.groups.get? source = none)
    (d : Uniform) : ∃ x, refIn c.aliases source = some x ∧
      (RoutingTable.fromConfig c.routing).Plans RoutingTable.powf d source
        (x :: chainOf (refIn c.aliases) raw.fallbacks.entries x) := by
  have hrouting := (validate_ok hc).routing
  have hvalid := RawRouting.validate_ok hrouting
  have hplanned := hvalid.planned RoutingTable.powf d
  obtain ⟨⟨x, hx, hknown⟩, -⟩ := fallback_known hrouting hsource
  have hchain : (RoutingTable.fromConfig c.routing).chain x =
      x :: chainOf (refIn c.aliases) raw.fallbacks.entries x := by
    have hleft := hvalid.fallbacks x
    show x :: (c.fallbacks.get? x).getD [] = _
    exact congrArg (x :: ·) hleft
  have hfree : (RoutingTable.fromConfig c.routing).groups.get? source = none :=
    hvalid.group_none hgroup
  refine ⟨x, hx, hchain ▸ ?_⟩
  unfold refIn at hx
  cases halias : c.routing.aliases.get? source with
  | some target =>
    rw [halias] at hx
    dsimp only at hx
    rw [Option.some.injEq] at hx
    exact hx ▸ hplanned.alias_ source target halias
  | none =>
    rw [halias] at hx
    refine hplanned.direct source x hfree halias hx ?_
    obtain ⟨r, hr, htarget⟩ := hvalid.routeTo_target hknown source
    cases hp : (RoutingTable.fromConfig c.routing).providers.get? x.provider with
    | some p => rfl
    | none =>
      unfold RoutingTable.routeTo at hr
      rw [hp] at hr
      cases hr

theorem inForce_single (hc : validate src raw = .ok c)
    (hsource : raw.fallbacks.get? source = some chain) (hgroup : raw.groups.get? source = none) :
    InForce c source chain ↔ Undisturbed raw c source chain := by
  unfold Undisturbed
  rw [hgroup]
  dsimp only
  constructor
  · intro hforce x e hx he
    obtain ⟨x', hx', hplans⟩ := source_planned hc hsource hgroup ⟨fun _ => half, fun _ => half, 0⟩
    obtain ⟨y, tail, hy, hplans', hsub⟩ := hforce ⟨fun _ => half, fun _ => half, 0⟩
    rw [hx, Option.some.injEq] at hx' hy
    subst hx' hy
    have htail : resolvedChain c e.2 = tail := by
      have hplan := (List.cons.inj (plans_unique hplans hplans')).2
      rw [chainOf_eq, he] at hplan
      exact hplan
    rw [htail]
    exact hsub
  · intro hlast d
    obtain ⟨x, hx, hplans⟩ := source_planned hc hsource hgroup d
    refine ⟨x, _, hx, hplans, ?_⟩
    rw [chainOf_eq]
    -- The source itself resolves to the target, so some source does.
    obtain ⟨e, he⟩ : ∃ e, lastSource raw c x = some e := by
      refine Option.isSome_iff_exists.mp (List.find?_isSome.mpr ⟨(source, chain), ?_, ?_⟩)
      · exact List.mem_reverse.mpr (OrdMap.mem_entries.mpr hsource)
      · exact decide_eq_true hx
    rw [he]
    exact hlast x e hx he

theorem chain_ne (hc : validate src raw = .ok c)
    (hsource : raw.fallbacks.get? source = some chain) : chain ≠ [] := by
  have hrouting := (validate_ok hc).routing
  unfold RawRouting.validate at hrouting
  dsimp only at hrouting
  split at hrouting
  · next herrors =>
    rw [List.append_eq_nil_iff, List.append_eq_nil_iff, List.append_eq_nil_iff] at herrors
    have hone := collect_errors herrors.1.1.2 _
      (List.mem_map.mpr ⟨(source, chain), OrdMap.mem_entries.mpr hsource, rfl⟩)
    unfold RawRouting.validateFallback at hone
    dsimp only at hone
    rintro rfl
    split at hone
    · cases hone
    · cases hone
  · cases hrouting

/-- Every entry of a chain resolves, and a chain has entries. -/
theorem resolvedChain_ne (hc : validate src raw = .ok c)
    (hsource : raw.fallbacks.get? source = some chain) : resolvedChain c chain ≠ [] := by
  obtain ⟨s, rest, rfl⟩ := List.exists_cons_of_ne_nil (chain_ne hc hsource)
  obtain ⟨-, hchain⟩ := fallback_known (validate_ok hc).routing hsource
  obtain ⟨t, ht, -⟩ := hchain s List.mem_cons_self
  have hfirst : resolvedChain c (s :: rest) = t :: resolvedChain c rest := List.filterMap_cons_some ht
  rw [hfirst]
  exact List.cons_ne_nil _ _

/-- A group with one primary target and a reserve in any order. -/
theorem drawn_singleton {resolved : RoutingGroup} {x : TargetModel}
    (hprimary : resolved.primary.map (·.target) = [x]) (d : Uniform) :
    RoutingTable.drawnTargets RoutingTable.powf d resolved =
      x :: RoutingTable.weightedOrder RoutingTable.powf d.fallback resolved.fallback := by
  unfold RoutingTable.drawnTargets
  have hperm := RoutingTable.weightedOrder_perm RoutingTable.powf d.primary resolved.primary
  rw [hprimary] at hperm
  rw [List.perm_singleton.mp hperm]
  rfl

/-- Only one target leads in every draw if there is but one. -/
theorem primary_singleton {resolved : RoutingGroup} {x : TargetModel}
    (hnodup : (resolved.primary.map (·.target)).Nodup)
    (hleads : ∀ d : Uniform, ∃ tail,
      RoutingTable.drawnTargets RoutingTable.powf d resolved = x :: tail) :
    resolved.primary.map (·.target) = [x] := by
  have hall : ∀ y ∈ resolved.primary.map (·.target), y = x := by
    intro y hy
    obtain ⟨w, hw, rfl⟩ := List.mem_map.mp hy
    obtain ⟨u, hu⟩ := RoutingTable.exists_weightedOrder_head hw
    obtain ⟨rest, hrest⟩ := List.head?_eq_some_iff.mp hu
    obtain ⟨tail, htail⟩ := hleads ⟨u, u, 0⟩
    unfold RoutingTable.drawnTargets at htail
    dsimp only at htail
    rw [hrest, List.cons_append] at htail
    exact (List.cons.inj htail).1
  cases htargets : resolved.primary.map (·.target) with
  | nil => exact absurd (List.map_eq_nil_iff.mp htargets) resolved.primary_ne
  | cons y rest =>
    rw [htargets] at hall hnodup
    have hy := hall y List.mem_cons_self
    cases rest with
    | nil => rw [hy]
    | cons z more =>
      have hz := hall z (List.mem_cons_of_mem _ List.mem_cons_self)
      rw [hy, hz] at hnodup
      simp at hnodup

/-- Of a chain that stands in its order in every draw of a reserve there is
but one target. -/
theorem chain_singleton {reserve : List WeightedTarget} {xs : List TargetModel} (hne : xs ≠ [])
    (hnodup : (reserve.map (·.target)).Nodup)
    (hsub : ∀ u, xs.Sublist (RoutingTable.weightedOrder RoutingTable.powf u reserve)) :
    ∃ y, xs = [y] ∧ y ∈ reserve.map (·.target) := by
  have hperm := fun u => RoutingTable.weightedOrder_perm RoutingTable.powf u reserve
  have hmem : ∀ y ∈ xs, y ∈ reserve.map (·.target) :=
    fun y hy => (hperm fun _ => half).mem_iff.mp ((hsub _).subset hy)
  obtain ⟨a, more, rfl⟩ := List.exists_cons_of_ne_nil hne
  cases more with
  | nil => exact ⟨a, rfl, hmem a List.mem_cons_self⟩
  | cons b rest =>
    -- In the draw that puts the second one first, the first is not before it.
    obtain ⟨w, hw, htarget⟩ := List.mem_map.mp (hmem b (by simp))
    obtain ⟨u, hu⟩ := RoutingTable.exists_weightedOrder_head hw
    obtain ⟨back, hback⟩ := List.head?_eq_some_iff.mp hu
    have hdrawn := (hperm u).nodup_iff.mpr hnodup
    have hfirst := hsub u
    rw [hback, htarget] at hdrawn hfirst
    have hout : b ∉ back := (List.nodup_cons.mp hdrawn).1
    cases hfirst with
    | cons _ hsub => exact absurd (hsub.subset (by simp)) hout
    | cons_cons _ hsub => exact absurd (hsub.subset (by simp)) hout

theorem inForce_group (hc : validate src raw = .ok c)
    (hsource : raw.fallbacks.get? source = some chain) {group : RawGroup}
    (hgroup : raw.groups.get? source = some group) :
    InForce c source chain ↔ Undisturbed raw c source chain := by
  obtain ⟨resolved, hloaded⟩ := group_loaded hc hgroup
  unfold Undisturbed
  rw [hgroup]
  dsimp only
  rw [hloaded.primary_entries, hloaded.fallback_entries]
  constructor
  · intro hforce
    obtain ⟨x, -, hx, -, -⟩ := hforce ⟨fun _ => half, fun _ => half, 0⟩
    have hdrawn : ∀ d : Uniform, ∃ tail,
        RoutingTable.drawnTargets RoutingTable.powf d resolved = x :: tail ∧
          (resolvedChain c chain).Sublist tail := by
      intro d
      obtain ⟨x', tail, hx', hplans, hsub⟩ := hforce d
      rw [hx, Option.some.injEq] at hx'
      exact ⟨tail, hx' ▸ plans_unique (hloaded.drawn d) hplans, hsub⟩
    have hprimary := primary_singleton hloaded.primary_nodup fun d =>
      (hdrawn d).imp fun tail htail => htail.1
    have hsub : ∀ u, (resolvedChain c chain).Sublist
        (RoutingTable.weightedOrder RoutingTable.powf u resolved.fallback) := by
      intro u
      obtain ⟨tail, htail, hsub⟩ := hdrawn ⟨u, u, 0⟩
      rw [drawn_singleton hprimary] at htail
      exact (List.cons.inj htail).2 ▸ hsub
    obtain ⟨y, hy, hmem⟩ :=
      chain_singleton (resolvedChain_ne hc hsource) hloaded.fallback_nodup hsub
    refine ⟨x, y, hx, ?_, hy, List.mem_map_of_mem hmem⟩
    rw [hprimary]
    rfl
  · rintro ⟨x, y, hx, hprimary, hy, hmem⟩ d
    have hone : resolved.primary.map (·.target) = [x] :=
      List.map_injective_iff.mpr (Option.some_injective _) hprimary
    refine ⟨x, _, hx, drawn_singleton hone d ▸ hloaded.drawn d, ?_⟩
    rw [hy, List.singleton_sublist]
    have hperm := RoutingTable.weightedOrder_perm RoutingTable.powf d.fallback resolved.fallback
    rw [hperm.mem_iff]
    obtain ⟨y', hy', heq⟩ := List.mem_map.mp hmem
    rw [Option.some.injEq] at heq
    exact heq ▸ hy'

/-- Every chain of a configuration that loads. -/
theorem chain_in_force_iff (src : Sources) (raw : RawConfig) (c : Config)
    (hc : validate src raw = .ok c) (source : String) (chain : List String)
    (hsource : raw.fallbacks.get? source = some chain) :
    InForce c source chain ↔ Undisturbed raw c source chain := by
  cases hgroup : raw.groups.get? source with
  | none => exact inForce_single hc hsource hgroup
  | some group => exact inForce_group hc hsource hgroup

end

/-- The chain of `chained`, which stands under an alias. -/
theorem chain_in_force_iff_chained :
    InForce chainedLoaded "fast" ["anthropic/claude"] ↔
      Undisturbed chained chainedLoaded "fast" ["anthropic/claude"] :=
  chain_in_force_iff noSources chained chainedLoaded (by decide +kernel) "fast" ["anthropic/claude"]
    (by decide +kernel)

/-- Two aliases of one target, each with a chain. -/
def doubled : RawConfig :=
  { chained with
    fallbacks := .ofList [("fast", ["anthropic/claude"]), ("quick", ["anthropic/opus"])] }

def doubledLoaded : Config :=
  { chainedLoaded with
    fallbacks := .ofList [(⟨"openai", "gpt-4o"⟩, [⟨"anthropic", "opus"⟩])] }

/-- **A chain replaces another.** The document loads without a word, and what
was written for `fast` is gone. -/
theorem chain_replaced :
    ¬ ∀ (src : Sources) (raw : RawConfig) (c : Config), validate src raw = .ok c →
      ∀ source chain, raw.fallbacks.get? source = some chain → InForce c source chain := by
  intro hclaim
  have hloads : validate noSources doubled = .ok doubledLoaded := by decide +kernel
  have hsource : doubled.fallbacks.get? "fast" = some ["anthropic/claude"] := by decide +kernel
  have hgroup : doubled.groups.get? "fast" = none := by decide +kernel
  have hforce := hclaim noSources doubled doubledLoaded hloads "fast" _ hsource
  have hlast := (inForce_single hloads hsource hgroup).mp hforce
  unfold Undisturbed at hlast
  rw [hgroup] at hlast
  have hsub := hlast ⟨"openai", "gpt-4o"⟩ ("quick", ["anthropic/opus"]) (by decide +kernel)
    (by decide +kernel)
  exact absurd hsub (by decide +kernel)

end Document

end RapidRouter.Core
