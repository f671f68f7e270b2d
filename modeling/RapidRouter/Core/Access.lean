import Mathlib.Order.Basic
import Mathlib.Data.Finset.Basic

/-!
# Users, teams and grants

`router-core/src/access.rs`: who may sign in to the console and what a
signed-in person may touch. `Grant.forMember` folds the teams a user is in
into one grant: the strongest access, the union of the models (where one
unrestricted team lifts the restriction), the ids of the teams.
-/

namespace RapidRouter.Core

inductive UserRole where
  | admin
  | member
  deriving DecidableEq, Repr

/-- `TeamAccess`, ordered weakest to strongest. -/
inductive TeamAccess where
  | readOnly
  | keys
  | full
  deriving DecidableEq, Repr

namespace TeamAccess

def rank : TeamAccess → Nat
  | readOnly => 0
  | keys => 1
  | full => 2

theorem rank_injective : Function.Injective rank := by
  intro a b h
  cases a <;> cases b <;> first | rfl | exact absurd h (by decide)

instance : LinearOrder TeamAccess := LinearOrder.lift' rank rank_injective

end TeamAccess

structure UserDef where
  id : String
  email : String
  passwordHash : String
  role : UserRole
  createdMs : Nat
  deriving DecidableEq

structure TeamDef where
  id : String
  name : String
  members : Finset String
  /-- Empty means every model. -/
  models : Finset String
  access : TeamAccess
  createdMs : Nat
  deriving DecidableEq

structure Grant where
  access : TeamAccess
  /-- `none` is every model. -/
  models : Option (Finset String)
  teams : List String
  deriving DecidableEq

namespace Grant

/-- `Grant::admin`. -/
def admin : Grant := ⟨.full, none, []⟩

/-- One team's contribution to the grant of `userId`. -/
def absorb (userId : String) (g : Grant) (team : TeamDef) : Grant :=
  if userId ∈ team.members then
    { access := max g.access team.access
      models :=
        match g.models with
        | none => none
        | some set => if team.models = ∅ then none else some (set ∪ team.models)
      teams := g.teams ++ [team.id] }
  else g

/-- `Grant::for_member`. -/
def forMember (userId : String) (teams : List TeamDef) : Grant :=
  let g := teams.foldl (absorb userId) ⟨.readOnly, some ∅, []⟩
  if g.teams = [] then { g with models := some ∅ } else g

/-- `Grant::allows_models`. -/
def allowsModels (g : Grant) (requested : List String) : Bool :=
  match g.models with
  | none => true
  | some allowed => requested.all (· ∈ allowed)

/-- Whether one model is inside the grant. -/
def allows (g : Grant) (model : String) : Bool := g.allowsModels [model]

theorem allowsModels_iff {g : Grant} {requested : List String} :
    g.allowsModels requested = true ↔ ∀ m ∈ requested, g.allows m = true := by
  unfold allows allowsModels
  cases g.models <;> simp

theorem mem_teams_foldl (userId t : String) (teams : List TeamDef) (g : Grant) :
    t ∈ (teams.foldl (absorb userId) g).teams ↔
      t ∈ g.teams ∨ ∃ team ∈ teams, team.id = t ∧ userId ∈ team.members := by
  induction teams generalizing g with
  | nil => simp
  | cons team rest ih =>
    rw [List.foldl_cons, ih]
    unfold absorb
    by_cases hm : userId ∈ team.members
    · simp [hm, or_assoc, eq_comm]
    · simp [hm]

/-- The teams of a grant are exactly those the user is a member of. -/
theorem mem_teams_forMember {userId t : String} {teams : List TeamDef} :
    t ∈ (forMember userId teams).teams ↔
      ∃ team ∈ teams, team.id = t ∧ userId ∈ team.members := by
  have h := mem_teams_foldl userId t teams ⟨.readOnly, some ∅, []⟩
  unfold forMember
  dsimp only
  split <;> simpa using h

end Grant

end RapidRouter.Core
