import RapidRouter.Store.State

/-!
# What a backend answers

`ControlPlaneError` of `router-store/src/backend/mod.rs`.
-/

namespace RapidRouter.Store

inductive ControlPlaneError where
  | conflict (expected actual : Nat)
  | unavailable (message : String)
  | fault (message : String)
  deriving DecidableEq

def ControlPlaneError.unavailableIn (context err : String) : ControlPlaneError :=
  .unavailable (context ++ ": " ++ err)

end RapidRouter.Store
