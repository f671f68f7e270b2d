import RapidRouter.Lib.Chain
import RapidRouter.Lib.Lists
import RapidRouter.Core.Config
import RapidRouter.Core.Router

/-!
# The routing sections

`router-core/src/config/validate.rs`: from the aliases, fallbacks and groups
as written to the ones a `RoutingTable` is built from. An alias is followed
through other aliases to a `provider/model` string; a fallback chain is keyed
by the target its key resolves to, so of two keys that resolve to one target
the later counts; a group's pools hold targets.

The provider sections stand as they load: a document in which one does not
is refused whatever its routes say.
-/

namespace RapidRouter.Core

open Chain

structure RawGroupTarget where
  target : String
  /-- `none` for a weight that is not finite. -/
  weight : Option Rat
  deriving DecidableEq

structure RawGroup where
  primary : List RawGroupTarget
  fallback : List RawGroupTarget
  deriving DecidableEq

structure Provider where
  kind : ProviderKind
  keys : List KeyRuntime
  deriving DecidableEq

structure RawRouting where
  providers : OrdMap String Provider
  aliases : OrdMap String String
  fallbacks : OrdMap String (List String)
  groups : OrdMap String RawGroup
  maxAttempts : Nat
  retryOn : List String
  deriving DecidableEq

structure RoutingConfig where
  providers : OrdMap String Provider
  aliases : OrdMap String TargetModel
  fallbacks : OrdMap TargetModel (List TargetModel)
  groups : OrdMap String RoutingGroup
  retries : Retries
  deriving DecidableEq

/-- What checking an entry of a section leaves: errors, and perhaps an
entry. -/
abbrev Checked (β : Type) := List ConfigError × Option β

/-- The entries of a section, checked in order. -/
def collect {κ β : Type} [LinearOrder κ] (checked : List (Checked (κ × β))) :
    List ConfigError × OrdMap κ β :=
  (checked.flatMap Prod.fst, .ofList (checked.filterMap Prod.snd))

/-- `resolve_alias`, with one step more than there are aliases: a circle
comes back to a name it has seen before they run out. -/
def resolveAlias (aliases : OrdMap String String) (name : String) : Except String String :=
  go (aliases.entries.length + 1) name []
where
  go : Nat → String → List String → Except String String
    | 0, name, _ => .error ("alias cycle involving `" ++ name ++ "`")
    | fuel + 1, name, seen =>
      if name ∈ seen then .error ("alias cycle involving `" ++ name ++ "`")
      else
        match aliases.get? name with
        | none => .error "caller only passes existing aliases"
        | some target =>
          if (aliases.get? target).isSome then go fuel target (name :: seen) else .ok target

theorem resolveAlias_go {aliases : OrdMap String String} {fuel : Nat} {name target : String}
    {seen : List String} (h : resolveAlias.go aliases fuel name seen = .ok target) :
    ∃ next, aliases.get? name = some next ∧ Ends aliases.get? next target := by
  induction fuel generalizing name seen with
  | zero => cases h
  | succ fuel ih =>
    unfold resolveAlias.go at h
    split at h
    · cases h
    · split at h
      · cases h
      · next next hnext =>
        refine ⟨next, hnext, ?_⟩
        split at h
        · obtain ⟨y, hy, hends⟩ := ih h
          exact .step hy hends
        · next hlast =>
          cases h
          exact .last (by simpa using hlast)

/-- What an alias resolves to is the end of its chain. -/
theorem resolveAlias_ends {aliases : OrdMap String String} {name target : String}
    (h : resolveAlias aliases name = .ok target) :
    (aliases.get? name).isSome ∧ Ends aliases.get? name target := by
  obtain ⟨next, hnext, hends⟩ := resolveAlias_go h
  exact ⟨by rw [hnext]; rfl, .step hnext hends⟩

/-- What following an alias comes to, as `resolve_alias` reports it. -/
def aliasResult : Except String String → Except String String
  | .ok target => .ok target
  | .error name => .error ("alias cycle involving `" ++ name ++ "`")

/-- The names an alias can be followed through. -/
def aliasNames (aliases : OrdMap String String) : List String := aliases.entries.map Prod.fst

theorem mem_aliasNames {aliases : OrdMap String String} {name : String}
    (h : (aliases.get? name).isSome) : name ∈ aliasNames aliases := by
  obtain ⟨target, htarget⟩ := Option.isSome_iff_exists.mp h
  exact List.mem_map.mpr ⟨(name, target), OrdMap.mem_entries.mpr htarget, rfl⟩

theorem resolveAlias_go_eq {aliases : OrdMap String String} {seen : List String} {name : String}
    {r : Except String String} (h : Follows aliases.get? seen name r) {fuel : Nat}
    (hfuel : unseen (aliasNames aliases) seen < fuel) :
    resolveAlias.go aliases fuel name seen = aliasResult r := by
  induction h generalizing fuel with
  | circle hseen =>
    cases fuel with
    | zero => omega
    | succ fuel => exact if_pos hseen
  | last hnew hstep hlast =>
    cases fuel with
    | zero => omega
    | succ fuel =>
      unfold resolveAlias.go
      rw [if_neg hnew, hstep]
      dsimp only
      rw [hlast]
      rfl
  | @step seen name target r hnew hstep hmore _ ih =>
    cases fuel with
    | zero => omega
    | succ fuel =>
      have hname : (aliases.get? name).isSome := by rw [hstep]; rfl
      have hless := unseen_cons_lt (mem_aliasNames hname) hnew
      unfold resolveAlias.go
      rw [if_neg hnew, hstep]
      dsimp only
      rw [if_pos hmore]
      exact ih (by omega)

/-- `resolve_alias` comes to a result from every alias, and the steps it is
given are enough to reach it. -/
theorem resolveAlias_follows {aliases : OrdMap String String} {name : String}
    (h : (aliases.get? name).isSome) :
    ∃ r, Follows aliases.get? [] name r ∧ resolveAlias aliases name = aliasResult r := by
  obtain ⟨r, hr⟩ : ∃ r, Follows aliases.get? [] name r :=
    exists_follows (fun _ hx => mem_aliasNames hx) h
  refine ⟨r, hr, resolveAlias_go_eq hr ?_⟩
  have hle := unseen_le (aliasNames aliases) []
  have hlength : (aliasNames aliases).length = aliases.entries.length := List.length_map _
  omega

section
variable {κ α β : Type} [LinearOrder κ]

theorem collect_errors {checked : List (Checked (κ × β))} (h : (collect checked).1 = []) :
    ∀ x ∈ checked, x.1 = [] :=
  List.flatMap_eq_nil_iff.mp h

/-- A section whose entries keep their keys. -/
theorem get?_collect {m : OrdMap κ α} {f : κ → α → Checked (κ × β)}
    (hkey : ∀ k x y, (f k x).2 = some y → y.1 = k) (k : κ) :
    (collect (m.entries.map fun e => f e.1 e.2)).2.get? k =
      (m.get? k).bind fun x => (f k x).2.map Prod.snd := by
  have hmem : ∀ e, e ∈ (m.entries.map fun e => f e.1 e.2).filterMap Prod.snd ↔
      ∃ x, m.get? e.1 = some x ∧ (f e.1 x).2 = some e := by
    intro e
    rw [List.mem_filterMap]
    constructor
    · rintro ⟨_, hin, he⟩
      obtain ⟨⟨j, x⟩, hjx, rfl⟩ := List.mem_map.mp hin
      have hj : e.1 = j := hkey j x e he
      subst hj
      exact ⟨x, OrdMap.mem_entries.mp hjx, he⟩
    · rintro ⟨x, hx, he⟩
      exact ⟨_, List.mem_map.mpr ⟨(e.1, x), OrdMap.mem_entries.mpr hx, rfl⟩, he⟩
  have hnodup : (((m.entries.map fun e => f e.1 e.2).filterMap Prod.snd).map Prod.fst).Nodup := by
    rw [List.filterMap_map]
    unfold List.Nodup
    rw [List.pairwise_map, List.pairwise_filterMap]
    refine m.sorted.imp fun {a b} hab x hx y hy => ?_
    rw [hkey a.1 a.2 x hx, hkey b.1 b.2 y hy]
    exact ne_of_lt hab
  ext y
  unfold collect
  dsimp only
  rw [OrdMap.get?_ofList_of_nodup hnodup, hmem]
  constructor
  · rintro ⟨x, hx, he⟩
    simp only at hx
    rw [hx, Option.bind_some, he]
    rfl
  · intro h
    obtain ⟨x, hx, hvalue⟩ := Option.bind_eq_some_iff.mp h
    obtain ⟨⟨j, z⟩, he, rfl⟩ := Option.map_eq_some_iff.mp hvalue
    have hk : j = k := hkey k x _ he
    subst hk
    exact ⟨x, hx, he⟩

end

namespace RawRouting

variable (raw : RawRouting)

/-- One alias of `validate_aliases`. -/
def validateAlias (name : String) : Except ConfigError TargetModel :=
  let path := "aliases." ++ name
  if (raw.providers.get? name).isSome then
    .error ⟨path, "alias name collides with a provider name"⟩
  else
    match resolveAlias raw.aliases name with
    | .error message => .error ⟨path, message⟩
    | .ok targetStr =>
      match TargetModel.parse targetStr with
      | some target =>
        if (raw.providers.get? target.provider).isSome then .ok target
        else
          .error ⟨path, "unknown provider `" ++ target.provider ++ "` in target `" ++ targetStr
            ++ "`"⟩
      | none =>
        .error ⟨path, "target `" ++ targetStr ++ "` is not `provider/model` or another alias"⟩

def validateAliases : List ConfigError × OrdMap String TargetModel :=
  collect (raw.aliases.entries.map fun e =>
    match raw.validateAlias e.1 with
    | .ok target => ([], some (e.1, target))
    | .error err => ([err], none))

variable (aliases : OrdMap String TargetModel)

/-- `resolve_target_ref`. -/
def resolveTargetRef (s path : String) : Except ConfigError TargetModel :=
  match aliases.get? s with
  | some target => .ok target
  | none =>
    match TargetModel.parse s with
    | some t =>
      if (raw.providers.get? t.provider).isSome then .ok t
      else .error ⟨path, "unknown provider `" ++ t.provider ++ "`"⟩
    | none => .error ⟨path, "`" ++ s ++ "` is not `provider/model` or a defined alias"⟩

/-- One entry of a fallback chain. -/
def validateChainEntry (fromTarget : TargetModel) (path entry : String) :
    Except ConfigError TargetModel :=
  match raw.resolveTargetRef aliases entry path with
  | .error err => .error err
  | .ok t =>
    if t = fromTarget then .error ⟨path, "fallback target equals its own source"⟩ else .ok t

/-- One chain of `validate_fallbacks`. -/
def validateFallback (from_ : String) (chain : List String) :
    Checked (TargetModel × List TargetModel) :=
  let path := "fallbacks." ++ from_
  match raw.resolveTargetRef aliases from_ path with
  | .error err => ([err], none)
  | .ok fromTarget =>
    if chain = [] then ([⟨path, "fallback chain must not be empty"⟩], none)
    else
      let entries := chain.zipIdx.map fun e =>
        raw.validateChainEntry aliases fromTarget (path ++ "[" ++ toString e.2 ++ "]") e.1
      (entries.filterMap fun e => match e with
          | .error err => some err
          | .ok _ => none,
        some (fromTarget, entries.filterMap Except.toOption))

def validateFallbacks : List ConfigError × OrdMap TargetModel (List TargetModel) :=
  collect (raw.fallbacks.entries.map fun e => raw.validateFallback aliases e.1 e.2)

/-- One entry of a pool, after the entries of `pool`. -/
def validatePoolEntry (label entryPath : String) (pool : List WeightedTarget)
    (entry : RawGroupTarget) : Except ConfigError WeightedTarget :=
  match entry.weight with
  | none => .error ⟨entryPath ++ ".weight", "must be a finite number > 0"⟩
  | some weight =>
    if hw : 0 < weight then
      if (raw.groups.get? entry.target).isSome then
        .error ⟨entryPath ++ ".target",
          "`" ++ entry.target ++ "` is a routing group; a group's targets must be models"⟩
      else
        match raw.resolveTargetRef aliases entry.target (entryPath ++ ".target") with
        | .error err => .error err
        | .ok target =>
          if pool.any fun w => w.target = target then
            .error ⟨entryPath ++ ".target",
              "`" ++ target.text ++ "` is already in this group's " ++ label ++ " pool"⟩
          else .ok ⟨target, weight, hw⟩
    else .error ⟨entryPath ++ ".weight", "must be a finite number > 0"⟩

def validatePool (path label : String) :
    Nat → List WeightedTarget → List RawGroupTarget → List ConfigError × List WeightedTarget
  | _, pool, [] => ([], pool)
  | i, pool, entry :: rest =>
    match raw.validatePoolEntry aliases label
        (path ++ "." ++ label ++ "[" ++ toString i ++ "]") pool entry with
    | .error err =>
      let checked := validatePool path label (i + 1) pool rest
      (err :: checked.1, checked.2)
    | .ok target => validatePool path label (i + 1) (pool ++ [target]) rest

/-- One group of `validate_groups`. -/
def validateGroup (name : String) (group : RawGroup) : Checked (String × RoutingGroup) :=
  let path := "groups." ++ name
  if name = "" then ([⟨path, "group name must not be empty"⟩], none)
  else if (raw.providers.get? name).isSome then
    ([⟨path, "group name collides with a provider name"⟩], none)
  else if (aliases.get? name).isSome then
    ([⟨path, "group name collides with an alias; delete the alias or rename the group"⟩], none)
  else if group.primary = [] then
    ([⟨path ++ ".primary", "a group needs at least one primary model"⟩], none)
  else
    let primary := raw.validatePool aliases path "primary" 0 [] group.primary
    let fallback := raw.validatePool aliases path "fallback" 0 [] group.fallback
    -- With nothing left of the primary pool the group would be its reserve.
    (primary.1 ++ fallback.1,
      if h : primary.2 = [] then none else some (name, ⟨primary.2, fallback.2, h⟩))

def validateGroups : List ConfigError × OrdMap String RoutingGroup :=
  collect (raw.groups.entries.map fun e => raw.validateGroup aliases e.1 e.2)

def parseRetryOn : String → Option RetryOn
  | "connect_error" => some .connectError
  | "429" => some .status429
  | "5xx" => some .status5xx
  | _ => none

/-- The retries of `validate_reliability`. -/
def validateRetries : List ConfigError × Retries :=
  (raw.retryOn.zipIdx.filterMap fun e =>
      match parseRetryOn e.1 with
      | some _ => none
      | none => some ⟨"reliability.retries.on[" ++ toString e.2 ++ "]",
          "unknown retry condition `" ++ e.1 ++ "` (expected connect_error, 429, 5xx)"⟩,
    ⟨raw.maxAttempts, raw.retryOn.filterMap parseRetryOn⟩)

/-- `validate`, the routing sections. -/
def validate : Except (List ConfigError) RoutingConfig :=
  let aliases := raw.validateAliases
  let fallbacks := raw.validateFallbacks aliases.2
  let groups := raw.validateGroups aliases.2
  let retries := raw.validateRetries
  let errors := aliases.1 ++ fallbacks.1 ++ groups.1 ++ retries.1
  if errors = [] then .ok ⟨raw.providers, aliases.2, fallbacks.2, groups.2, retries.2⟩
  else .error errors

end RawRouting

/-! ## What validation promises -/

/-- What a reference in a routing section resolves to. -/
def refIn (aliases : OrdMap String TargetModel) (s : String) : Option TargetModel :=
  match aliases.get? s with
  | some target => some target
  | none => TargetModel.parse s

/-- The chain of a target: that of the last key that resolves to it. -/
def chainOf (ref : String → Option TargetModel) (fallbacks : List (String × List String))
    (t : TargetModel) : List TargetModel :=
  (fallbacks.reverse.findSome? fun e =>
    if ref e.1 = some t then some (e.2.filterMap ref) else none).getD []

namespace RawRouting

/-- The target's provider is configured. -/
def Known (raw : RawRouting) (t : TargetModel) : Prop := (raw.providers.get? t.provider).isSome

/-- A pool as it was written and as it resolved. -/
def Pool (raw : RawRouting) (ref : String → Option TargetModel) :
    List RawGroupTarget → List WeightedTarget → Prop :=
  List.Forall₂ fun entry w => raw.groups.get? entry.target = none ∧
    ref entry.target = some w.target ∧ raw.Known w.target ∧ entry.weight = some w.weight

structure Valid (raw : RawRouting) (c : RoutingConfig) : Prop where
  providers : c.providers = raw.providers
  retries : c.retries = raw.validateRetries.2
  alias_some : ∀ {x s}, raw.aliases.get? x = some s → raw.providers.get? x = none ∧
    ∃ e t, Ends raw.aliases.get? x e ∧ TargetModel.parse e = some t ∧ raw.Known t ∧
      c.aliases.get? x = some t
  alias_none : ∀ {x}, raw.aliases.get? x = none → c.aliases.get? x = none
  chain_refs : ∀ {k chain}, raw.fallbacks.get? k = some chain →
    (∃ t, refIn c.aliases k = some t) ∧ ∀ s ∈ chain, ∃ t, refIn c.aliases s = some t ∧ raw.Known t
  fallbacks : ∀ t, (c.fallbacks.get? t).getD [] = chainOf (refIn c.aliases) raw.fallbacks.entries t
  group_some : ∀ {g group}, raw.groups.get? g = some group → c.aliases.get? g = none ∧
    ∃ resolved, c.groups.get? g = some resolved ∧
      raw.Pool (refIn c.aliases) group.primary resolved.primary ∧
      raw.Pool (refIn c.aliases) group.fallback resolved.fallback
  group_none : ∀ {g}, raw.groups.get? g = none → c.groups.get? g = none

variable {raw : RawRouting}

theorem validateAlias_ok {x : String} {t : TargetModel} (h : raw.validateAlias x = .ok t) :
    raw.providers.get? x = none ∧ (raw.aliases.get? x).isSome ∧
      ∃ e, Ends raw.aliases.get? x e ∧ TargetModel.parse e = some t ∧ raw.Known t := by
  unfold validateAlias at h
  dsimp only at h
  split at h
  · cases h
  · next hprovider =>
    refine ⟨by simpa using hprovider, ?_⟩
    split at h
    · cases h
    · next e hresolve =>
      obtain ⟨hsome, hends⟩ := resolveAlias_ends hresolve
      refine ⟨hsome, e, hends, ?_⟩
      split at h
      · next target hparse =>
        split at h
        · next hknown =>
          cases h
          exact ⟨hparse, hknown⟩
        · cases h
      · cases h

theorem validateAliases_get? (x : String) :
    raw.validateAliases.2.get? x =
      (raw.aliases.get? x).bind fun _ => (raw.validateAlias x).toOption := by
  unfold validateAliases
  refine (get?_collect (f := fun (k : String) (_ : String) =>
    (match raw.validateAlias k with
      | .ok target => ([], some (k, target))
      | .error err => ([err], none) : Checked (String × TargetModel))) ?_ x).trans ?_
  · intro k _ y hy
    split at hy <;> cases hy
    rfl
  · cases raw.aliases.get? x with
    | none => rfl
    | some s =>
      rw [Option.bind_some, Option.bind_some]
      cases raw.validateAlias x <;> rfl

theorem validateAliases_errors (h : raw.validateAliases.1 = []) {x s : String}
    (hx : raw.aliases.get? x = some s) : ∃ t, raw.validateAlias x = .ok t := by
  have hone := collect_errors h _ (List.mem_map.mpr ⟨(x, s), OrdMap.mem_entries.mpr hx, rfl⟩)
  dsimp only at hone
  cases hv : raw.validateAlias x with
  | ok t => exact ⟨t, rfl⟩
  | error err =>
    rw [hv] at hone
    cases hone

variable {aliases : OrdMap String TargetModel}

theorem resolveTargetRef_ok (haliases : ∀ x t, aliases.get? x = some t → raw.Known t)
    {s path : String} {t : TargetModel} (h : raw.resolveTargetRef aliases s path = .ok t) :
    refIn aliases s = some t ∧ raw.Known t := by
  unfold resolveTargetRef at h
  unfold refIn
  split at h
  · next target htarget =>
    cases h
    exact ⟨rfl, haliases _ _ htarget⟩
  · split at h
    · next target hparse =>
      split at h
      · next hknown =>
        cases h
        exact ⟨hparse, hknown⟩
      · cases h
    · cases h

theorem validateChainEntry_ok (haliases : ∀ x t, aliases.get? x = some t → raw.Known t)
    {fromTarget t : TargetModel} {path s : String}
    (h : raw.validateChainEntry aliases fromTarget path s = .ok t) :
    refIn aliases s = some t ∧ raw.Known t := by
  unfold validateChainEntry at h
  split at h
  · cases h
  · next target hresolve =>
    split at h
    · cases h
    · cases h
      exact resolveTargetRef_ok haliases hresolve

/-- A chain without errors resolves as a whole. -/
theorem validateFallback_ok (haliases : ∀ x t, aliases.get? x = some t → raw.Known t)
    {k : String} {chain : List String} (h : (raw.validateFallback aliases k chain).1 = []) :
    (∀ s ∈ chain, ∃ t, refIn aliases s = some t ∧ raw.Known t) ∧
      ∃ t, refIn aliases k = some t ∧
        (raw.validateFallback aliases k chain).2 = some (t, chain.filterMap (refIn aliases)) := by
  unfold validateFallback at h ⊢
  dsimp only at h ⊢
  split at h
  · cases h
  · next fromTarget hfrom =>
    by_cases hempty : chain = []
    · rw [if_pos hempty] at h
      cases h
    · rw [if_neg hempty] at h ⊢
      dsimp only at h ⊢
      have hentry : ∀ e ∈ chain.zipIdx, ∃ t, raw.validateChainEntry aliases fromTarget
          ("fallbacks." ++ k ++ "[" ++ toString e.2 ++ "]") e.1 = .ok t := by
        intro e he
        have hnone := List.filterMap_eq_nil_iff.mp h _ (List.mem_map.mpr ⟨e, he, rfl⟩)
        cases hv : raw.validateChainEntry aliases fromTarget
            ("fallbacks." ++ k ++ "[" ++ toString e.2 ++ "]") e.1 with
        | ok t => exact ⟨t, rfl⟩
        | error err =>
          rw [hv] at hnone
          cases hnone
      have hfst : chain.zipIdx.map Prod.fst = chain := List.zipIdx_map_fst 0 chain
      refine ⟨fun s hs => ?_, fromTarget, (resolveTargetRef_ok haliases hfrom).1, ?_⟩
      · rw [← hfst] at hs
        obtain ⟨e, he, rfl⟩ := List.mem_map.mp hs
        obtain ⟨t, ht⟩ := hentry e he
        exact ⟨t, validateChainEntry_ok haliases ht⟩
      · rw [List.filterMap_map]
        have hsame : chain.zipIdx.filterMap (Except.toOption ∘ fun e =>
            raw.validateChainEntry aliases fromTarget
              ("fallbacks." ++ k ++ "[" ++ toString e.2 ++ "]") e.1) =
            chain.zipIdx.filterMap fun e => refIn aliases e.1 := by
          refine List.filterMap_congr fun e he => ?_
          obtain ⟨t, ht⟩ := hentry e he
          show (raw.validateChainEntry aliases fromTarget _ e.1).toOption = _
          rw [ht, (validateChainEntry_ok haliases ht).1]
          rfl
        rw [hsame]
        conv_rhs => rw [← hfst, List.filterMap_map]
        rfl

theorem validateFallbacks_get? (haliases : ∀ x t, aliases.get? x = some t → raw.Known t)
    (h : (raw.validateFallbacks aliases).1 = []) (t : TargetModel) :
    ((raw.validateFallbacks aliases).2.get? t).getD [] =
      chainOf (refIn aliases) raw.fallbacks.entries t := by
  unfold chainOf validateFallbacks collect
  dsimp only
  rw [OrdMap.get?_ofList, ← List.filterMap_reverse, ← List.map_reverse, List.filterMap_map,
    Lists.findSome?_filterMap]
  congr 1
  have hall := collect_errors h
  refine Lists.findSome?_congr fun e he => ?_
  have hnone := hall _ (List.mem_map.mpr ⟨e, List.mem_reverse.mp he, rfl⟩)
  obtain ⟨_, from_, href, hvalue⟩ := validateFallback_ok haliases hnone
  rw [Function.comp_apply, hvalue, Option.bind_some, href]
  by_cases ht : t = from_
  · rw [if_pos ht, if_pos (congrArg some ht.symm)]
  · rw [if_neg ht, if_neg fun heq => ht (Option.some.inj heq).symm]

theorem validatePoolEntry_ok (haliases : ∀ x t, aliases.get? x = some t → raw.Known t)
    {label path : String} {pool : List WeightedTarget} {entry : RawGroupTarget} {w : WeightedTarget}
    (h : raw.validatePoolEntry aliases label path pool entry = .ok w) :
    raw.groups.get? entry.target = none ∧ refIn aliases entry.target = some w.target ∧
      raw.Known w.target ∧ entry.weight = some w.weight := by
  unfold validatePoolEntry at h
  split at h
  · cases h
  · next weight hweight =>
    split at h
    · next hw =>
      split at h
      · cases h
      · next hgroup =>
        split at h
        · cases h
        · next target hresolve =>
          split at h
          · cases h
          · cases h
            obtain ⟨href, hknown⟩ := resolveTargetRef_ok haliases hresolve
            exact ⟨by simpa using hgroup, href, hknown, hweight⟩
    · cases h

theorem validatePool_ok (haliases : ∀ x t, aliases.get? x = some t → raw.Known t)
    {path label : String} {i : Nat} {pool : List WeightedTarget} {entries : List RawGroupTarget}
    (h : (raw.validatePool aliases path label i pool entries).1 = []) :
    ∃ ws, (raw.validatePool aliases path label i pool entries).2 = pool ++ ws ∧
      raw.Pool (refIn aliases) entries ws := by
  induction entries generalizing i pool with
  | nil => exact ⟨[], (List.append_nil pool).symm, .nil⟩
  | cons entry rest ih =>
    unfold validatePool at h ⊢
    split at h
    · cases h
    · next w hw =>
      obtain ⟨ws, hws, hpool⟩ := ih h
      refine ⟨w :: ws, ?_, .cons (validatePoolEntry_ok haliases hw) hpool⟩
      rw [hws, List.append_assoc]
      rfl

theorem validateGroup_ok (haliases : ∀ x t, aliases.get? x = some t → raw.Known t)
    {g : String} {group : RawGroup} (h : (raw.validateGroup aliases g group).1 = []) :
    aliases.get? g = none ∧ ∃ resolved,
      (raw.validateGroup aliases g group).2 = some (g, resolved) ∧
        raw.Pool (refIn aliases) group.primary resolved.primary ∧
        raw.Pool (refIn aliases) group.fallback resolved.fallback := by
  unfold validateGroup at h ⊢
  dsimp only at h ⊢
  by_cases hname : g = ""
  · rw [if_pos hname] at h
    cases h
  rw [if_neg hname] at h ⊢
  by_cases hprovider : (raw.providers.get? g).isSome
  · rw [if_pos hprovider] at h
    cases h
  rw [if_neg hprovider] at h ⊢
  by_cases halias : (aliases.get? g).isSome
  · rw [if_pos halias] at h
    cases h
  rw [if_neg halias] at h ⊢
  by_cases hempty : group.primary = []
  · rw [if_pos hempty] at h
    cases h
  rw [if_neg hempty] at h ⊢
  dsimp only at h ⊢
  obtain ⟨hprimary, hfallback⟩ := List.append_eq_nil_iff.mp h
  obtain ⟨primary, hp, hpool⟩ := validatePool_ok haliases hprimary
  obtain ⟨fallback, hf, hreserve⟩ := validatePool_ok haliases hfallback
  rw [List.nil_append] at hp hf
  have hne : (raw.validatePool aliases ("groups." ++ g) "primary" 0 [] group.primary).2 ≠ [] := by
    rw [hp]
    rintro rfl
    cases hgroup : group.primary with
    | nil => exact hempty hgroup
    | cons entry rest =>
      rw [hgroup] at hpool
      cases hpool
  refine ⟨by simpa using halias, ⟨_, _, hne⟩, dif_neg hne, ?_, ?_⟩
  · exact hp.symm ▸ hpool
  · exact hf.symm ▸ hreserve

theorem validateGroups_get? (g : String) :
    (raw.validateGroups aliases).2.get? g =
      (raw.groups.get? g).bind fun group => (raw.validateGroup aliases g group).2.map Prod.snd := by
  refine get?_collect (fun k group y hy => ?_) g
  unfold validateGroup at hy
  dsimp only at hy
  repeat' split at hy
  all_goals cases hy
  rfl

/-- A document whose routing sections validate. -/
theorem validate_ok {c : RoutingConfig} (h : raw.validate = .ok c) : raw.Valid c := by
  unfold validate at h
  dsimp only at h
  split at h
  · next herrors =>
    rw [List.append_eq_nil_iff, List.append_eq_nil_iff, List.append_eq_nil_iff] at herrors
    obtain ⟨⟨⟨hali, hfall⟩, hgroups⟩, _⟩ := herrors
    cases h
    have haliases : ∀ x t, raw.validateAliases.2.get? x = some t → raw.Known t := by
      intro x t hx
      rw [validateAliases_get?] at hx
      obtain ⟨s, _, hs⟩ := Option.bind_eq_some_iff.mp hx
      cases hv : raw.validateAlias x with
      | error err => rw [hv] at hs; cases hs
      | ok t' =>
        rw [hv] at hs
        cases hs
        obtain ⟨_, _, e, _, _, hknown⟩ := validateAlias_ok hv
        exact hknown
    refine ⟨rfl, rfl, ?_, ?_, ?_, validateFallbacks_get? haliases hfall, ?_, ?_⟩
    · intro x s hx
      obtain ⟨t, ht⟩ := validateAliases_errors hali hx
      obtain ⟨hprovider, _, e, hends, hparse, hknown⟩ := validateAlias_ok ht
      refine ⟨hprovider, e, t, hends, hparse, hknown, ?_⟩
      show raw.validateAliases.2.get? x = some t
      rw [validateAliases_get?, hx, Option.bind_some, ht]
      rfl
    · intro x hx
      show raw.validateAliases.2.get? x = none
      rw [validateAliases_get?, hx]
      rfl
    · intro k chain hk
      have hone := collect_errors hfall _
        (List.mem_map.mpr ⟨(k, chain), OrdMap.mem_entries.mpr hk, rfl⟩)
      obtain ⟨hchain, t, href, _⟩ := validateFallback_ok haliases hone
      exact ⟨⟨t, href⟩, hchain⟩
    · intro g group hg
      have hone := collect_errors hgroups _
        (List.mem_map.mpr ⟨(g, group), OrdMap.mem_entries.mpr hg, rfl⟩)
      obtain ⟨halias, resolved, hvalue, hprimary, hfallback⟩ := validateGroup_ok haliases hone
      refine ⟨halias, resolved, ?_, hprimary, hfallback⟩
      show (raw.validateGroups raw.validateAliases.2).2.get? g = some resolved
      rw [validateGroups_get?, hg, Option.bind_some, hvalue]
      rfl
    · intro g hg
      show (raw.validateGroups raw.validateAliases.2).2.get? g = none
      rw [validateGroups_get?, hg]
      rfl
  · cases h

end RawRouting

/-- `RoutingTable::from_config`, the part a plan depends on. -/
def RoutingTable.fromConfig (c : RoutingConfig) : RoutingTable where
  providers := c.providers.mapWithKey fun name p => ⟨name, p.kind, p.keys⟩
  catalog :=
    let served := c.providers.entries.flatMap fun e =>
      e.2.keys.flatMap fun key => (key.models.getD []).map fun model => (model, e.1)
    -- The first provider to list a model answers to its bare name.
    .ofList served.reverse
  aliases := c.aliases
  fallbacks := c.fallbacks
  groups := c.groups
  retries := c.retries

/-- The target a route was resolved from. -/
def ResolvedRoute.target (r : ResolvedRoute) : TargetModel := ⟨r.provider.name, r.upstreamModel⟩

namespace RawRouting.Valid

variable {raw : RawRouting} {c : RoutingConfig}

theorem alias_known (h : raw.Valid c) {x : String} {t : TargetModel} (hx : c.aliases.get? x = some t) :
    raw.Known t := by
  cases hraw : raw.aliases.get? x with
  | none =>
    rw [h.alias_none hraw] at hx
    cases hx
  | some s =>
    obtain ⟨_, e, t', _, _, hknown, ht'⟩ := h.alias_some hraw
    rw [ht', Option.some.injEq] at hx
    exact hx ▸ hknown

theorem chain_known (h : raw.Valid c) {t x : TargetModel}
    (hx : x ∈ chainOf (refIn c.aliases) raw.fallbacks.entries t) : raw.Known x := by
  unfold chainOf at hx
  cases hfind : raw.fallbacks.entries.reverse.findSome? fun e =>
      if refIn c.aliases e.1 = some t then some (e.2.filterMap (refIn c.aliases)) else none with
  | none =>
    rw [hfind] at hx
    cases hx
  | some chain =>
    rw [hfind, Option.getD_some] at hx
    obtain ⟨⟨k, entries⟩, he, heq⟩ := List.exists_of_findSome?_eq_some hfind
    dsimp only at heq
    split at heq
    · cases heq
      obtain ⟨s, hs, href⟩ := List.mem_filterMap.mp hx
      obtain ⟨x', href', hknown⟩ :=
        (h.chain_refs (OrdMap.mem_entries.mp (List.mem_reverse.mp he))).2 s hs
      rw [href, Option.some.injEq] at href'
      exact href' ▸ hknown
    · cases heq

theorem routeTo_target (h : raw.Valid c) {x : TargetModel} (hx : raw.Known x) (m : String) :
    ∃ r, (RoutingTable.fromConfig c).routeTo x m = .ok r ∧ r.target = x := by
  obtain ⟨p, hp⟩ := Option.isSome_iff_exists.mp hx
  have hget : (RoutingTable.fromConfig c).providers.get? x.provider =
      some ⟨x.provider, p.kind, p.keys⟩ := by
    show (c.providers.mapWithKey _).get? x.provider = _
    rw [OrdMap.get?_mapWithKey, h.providers, hp]
    rfl
  refine ⟨⟨⟨x.provider, p.kind, p.keys⟩, x.model⟩, ?_, rfl⟩
  unfold RoutingTable.routeTo
  rw [hget]

/-- Targets that validated all have a route. -/
theorem routes_target (h : raw.Valid c) {xs : List TargetModel} (hxs : ∀ x ∈ xs, raw.Known x)
    (m : String) :
    ((RoutingTable.fromConfig c).routes xs m).map ResolvedRoute.target = xs := by
  induction xs with
  | nil => rfl
  | cons x xs ih =>
    obtain ⟨r, hr, htarget⟩ := h.routeTo_target (hxs x List.mem_cons_self) m
    have hcons : (RoutingTable.fromConfig c).routes (x :: xs) m =
        r :: (RoutingTable.fromConfig c).routes xs m := by
      unfold RoutingTable.routes
      refine List.filterMap_cons_some ?_
      rw [hr]
      rfl
    rw [hcons, List.map_cons, htarget, ih fun y hy => hxs y (List.mem_cons_of_mem _ hy)]

theorem pool_known {ref : String → Option TargetModel} {entries : List RawGroupTarget}
    {ws : List WeightedTarget} (hpool : raw.Pool ref entries ws) : ∀ w ∈ ws, raw.Known w.target := by
  induction hpool with
  | nil =>
    intro w hw
    cases hw
  | cons hentry _ ih =>
    intro w hw
    rcases List.mem_cons.mp hw with rfl | hw
    · exact hentry.2.2.1
    · exact ih w hw

theorem pool_targets {ref : String → Option TargetModel} {entries : List RawGroupTarget}
    {ws : List WeightedTarget} (hpool : raw.Pool ref entries ws) :
    (ws.map fun w => some w.target) = entries.map fun e => ref e.target := by
  induction hpool with
  | nil => rfl
  | cons hentry _ ih => rw [List.map_cons, List.map_cons, ih, hentry.2.1]

theorem resolveTarget_known (h : raw.Valid c) {m : String} {x : TargetModel}
    (hg : c.groups.get? m = none) (hx : (RoutingTable.fromConfig c).resolveTarget 0 m = .ok x) :
    raw.Known x := by
  have hprovider : ∀ p, ((RoutingTable.fromConfig c).providers.get? p).isSome →
      (raw.providers.get? p).isSome := by
    intro p hp
    change ((c.providers.mapWithKey _).get? p).isSome at hp
    rw [OrdMap.get?_mapWithKey, Option.isSome_map, h.providers] at hp
    exact hp
  unfold RoutingTable.resolveTarget at hx
  change c.groups.get? m = none at hg
  split at hx
  · next g hgroup => exact absurd (hgroup.symm.trans hg) (by simp)
  · split at hx
    · next target halias =>
      cases hx
      exact h.alias_known halias
    · split at hx
      · next target hparse =>
        cases hx
        obtain ⟨_, hknown⟩ := Option.filter_eq_some_iff.mp hparse
        exact hprovider _ hknown
      · split at hx
        · next provider hcatalog =>
          cases hx
          change (OrdMap.ofList _).get? m = some provider at hcatalog
          rw [OrdMap.get?_ofList] at hcatalog
          obtain ⟨e, he, heq⟩ := List.exists_of_findSome?_eq_some hcatalog
          split at heq
          · rw [Option.some.injEq] at heq
            rw [List.reverse_reverse] at he
            obtain ⟨⟨name, p⟩, hp, hserved⟩ := List.mem_flatMap.mp he
            obtain ⟨key, _, hmodel⟩ := List.mem_flatMap.mp hserved
            obtain ⟨model, _, rfl⟩ := List.mem_map.mp hmodel
            have hname : c.providers.get? name = some p := OrdMap.mem_entries.mp hp
            rw [h.providers] at hname
            change name = provider at heq
            show (raw.providers.get? provider).isSome
            rw [← heq, hname]
            rfl
          · cases heq
        · cases hx

section Plan

variable {U κ : Type} [LinearOrder κ] (sortKey : U → Rat → κ)

/-- The plan of a name that is not a group: its target, and the target's
chain. -/
theorem plan_single (h : raw.Valid c) {m : String} {x : TargetModel} (hg : c.groups.get? m = none)
    (hx : (RoutingTable.fromConfig c).resolveTarget 0 m = .ok x) (d : Draw U) :
    ∃ p, (RoutingTable.fromConfig c).plan sortKey d m = .ok p ∧
      p.targets.map ResolvedRoute.target =
        x :: chainOf (refIn c.aliases) raw.fallbacks.entries x := by
  obtain ⟨first, hfirst, htarget⟩ := h.routeTo_target (h.resolveTarget_known hg hx) m
  have hchain := h.fallbacks x
  refine ⟨⟨first :: (RoutingTable.fromConfig c).routes ((c.fallbacks.get? x).getD []) m,
    max c.retries.maxAttempts 1, c.retries.on⟩, ?_, ?_⟩
  · have hnone : (RoutingTable.fromConfig c).groups.get? m = none := hg
    unfold RoutingTable.plan
    rw [hnone]
    dsimp only
    rw [RoutingTable.resolveTarget_roll hg, hx]
    dsimp only
    rw [hfirst]
    rfl
  · rw [hchain, List.map_cons, htarget, h.routes_target fun y hy => h.chain_known hy]

/-- The plan of a group: its pools, as they are drawn. -/
theorem plan_group (h : raw.Valid c) {m : String} {group : RawGroup}
    (hm : raw.groups.get? m = some group) (d : Draw U) :
    ∃ resolved p, c.groups.get? m = some resolved ∧
      raw.Pool (refIn c.aliases) group.primary resolved.primary ∧
      raw.Pool (refIn c.aliases) group.fallback resolved.fallback ∧
      (RoutingTable.fromConfig c).plan sortKey d m = .ok p ∧
      p.targets.map ResolvedRoute.target = RoutingTable.drawnTargets sortKey d resolved := by
  obtain ⟨_, resolved, hget, hprimary, hfallback⟩ := h.group_some hm
  have hperm := RoutingTable.drawnTargets_perm sortKey d resolved
  have hknown : ∀ x ∈ RoutingTable.drawnTargets sortKey d resolved, raw.Known x := by
    intro x hx
    rcases List.mem_append.mp (hperm.mem_iff.mp hx) with hx | hx
    · obtain ⟨w, hw, rfl⟩ := List.mem_map.mp hx
      exact RawRouting.Valid.pool_known hprimary w hw
    · obtain ⟨w, hw, rfl⟩ := List.mem_map.mp hx
      exact RawRouting.Valid.pool_known hfallback w hw
  have htargets := h.routes_target hknown m
  refine ⟨resolved, ⟨(RoutingTable.fromConfig c).routes (RoutingTable.drawnTargets sortKey d resolved) m,
    max c.retries.maxAttempts 1, c.retries.on⟩, hget, hprimary, hfallback, ?_, htargets⟩
  rw [RoutingTable.plan_of_group (t := RoutingTable.fromConfig c) hget, RoutingTable.planGroup_ok]
  refine ⟨fun hempty => ?_, rfl⟩
  rw [hempty, List.map_nil] at htargets
  rw [← htargets] at hperm
  have hnil := List.append_eq_nil_iff.mp hperm.symm.eq_nil
  exact resolved.primary_ne (List.map_eq_nil_iff.mp hnil.1)

end Plan

end RawRouting.Valid

end RapidRouter.Core
