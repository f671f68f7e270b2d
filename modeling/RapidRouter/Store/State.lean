import RapidRouter.Core.Access
import RapidRouter.Core.VKey

/-!
# The control-plane document

`router-store/src/state.rs`: the document every node caches and the commands
that edit it. `commit` is `Store::commit`: a compare-and-swap of the node's
cached copy against the authoritative document, where a caller that named the
version it was looking at is told of a lost race and any other is retried on
the fresh document.
-/

namespace RapidRouter.Store

open RapidRouter.Core

/-- The control-plane document. A sealed secret is kept as the plaintext it
opens to: only a node holding the sealing key reads it back. -/
structure StoreState where
  configText : Option String
  virtualKeys : OrdMap String VirtualKeyDef
  secrets : OrdMap String String
  settings : OrdMap String String
  users : OrdMap String UserDef
  teams : OrdMap String TeamDef
  deriving DecidableEq

/-- `StoreState::default`. -/
def StoreState.default : StoreState := ⟨none, .empty, .empty, .empty, .empty, .empty⟩

inductive Command where
  | putConfig (text : String)
  | putVirtualKey (def_ : VirtualKeyDef)
  | deleteVirtualKey (id : String)
  | putSecret (name : String) (value : String)
  | deleteSecret (name : String)
  | putSetting (name : String) (value : String)
  | deleteSetting (name : String)
  | putUser (def_ : UserDef)
  | deleteUser (id : String)
  | putTeam (def_ : TeamDef)
  | deleteTeam (id : String)
  deriving DecidableEq

/-- `StoreState::apply`. -/
def StoreState.apply (s : StoreState) : Command → StoreState
  | .putConfig text => { s with configText := some text }
  | .putVirtualKey d => { s with virtualKeys := s.virtualKeys.insert d.id d }
  | .deleteVirtualKey id => { s with virtualKeys := s.virtualKeys.erase id }
  | .putSecret name value => { s with secrets := s.secrets.insert name value }
  | .deleteSecret name => { s with secrets := s.secrets.erase name }
  | .putSetting name value => { s with settings := s.settings.insert name value }
  | .deleteSetting name => { s with settings := s.settings.erase name }
  | .putUser d => { s with users := s.users.insert d.id d }
  | .deleteUser id =>
    { s with
      users := s.users.erase id
      -- A deleted user must not linger as a ghost member.
      teams := s.teams.mapValues fun t => { t with members := t.members.erase id } }
  | .putTeam d => { s with teams := s.teams.insert d.id d }
  | .deleteTeam id => { s with teams := s.teams.erase id }

/-- A command that manages who has access. -/
def Command.managesAccess : Command → Bool
  | .putUser _ | .deleteUser _ | .putTeam _ | .deleteTeam _ => true
  | _ => false

/-- Every other command leaves users and teams alone. -/
theorem StoreState.apply_access {s : StoreState} {c : Command} (h : c.managesAccess = false) :
    (s.apply c).users = s.users ∧ (s.apply c).teams = s.teams := by
  cases c <;> first | exact ⟨rfl, rfl⟩ | simp [Command.managesAccess] at h

/-- A document and the version it is at. -/
structure Snapshot where
  state : StoreState
  version : Nat
  deriving DecidableEq

/-- `ControlPlaneError`, as far as a commit meets it. -/
inductive CommitError where
  | conflict (expected actual : Nat)
  | unavailable (message : String)
  deriving DecidableEq

/-- The `Display` text of a commit failure. -/
def CommitError.text : CommitError → String
  | .conflict expected actual =>
    "version conflict: expected " ++ toString expected ++ ", store is at " ++ toString actual
  | .unavailable message => "control-plane store is unavailable: " ++ message

/-- `Store::commit`: the node's cached copy, the authoritative document and
whether the backend answers. Returns the result and the copy the node is left
with. -/
def commit (cached doc : Snapshot) (up : Bool) (expect : Option Nat) (command : Command) :
    Except CommitError Snapshot × Snapshot :=
  match expect with
  | some expected =>
    if expected ≠ cached.version then (.error (.conflict expected cached.version), cached)
    else if !up then (.error (.unavailable "the backend did not answer"), cached)
    -- Someone else wrote: take their version, hand the conflict to the caller.
    else if doc.version ≠ cached.version then (.error (.conflict expected doc.version), doc)
    else
      let next := ⟨cached.state.apply command, cached.version + 1⟩
      (.ok next, next)
  | none =>
    if !up then (.error (.unavailable "the backend did not answer"), cached)
    else
      let base := if doc.version ≠ cached.version then doc else cached
      let next := ⟨base.state.apply command, base.version + 1⟩
      (.ok next, next)

/-- A commit is refused, leaving the node its copy or the fresh one, or lands
its command on one of the two. -/
theorem commit_cases (cached doc : Snapshot) (up : Bool) (expect : Option Nat)
    (command : Command) :
    (∃ e kept, (kept = cached ∨ kept = doc) ∧
        commit cached doc up expect command = (.error e, kept)) ∨
      ∃ base version, (base = cached ∨ base = doc) ∧
        commit cached doc up expect command =
          (.ok ⟨base.state.apply command, version⟩, ⟨base.state.apply command, version⟩) := by
  unfold commit
  cases expect with
  | none =>
    dsimp only
    split
    · exact Or.inl ⟨_, _, Or.inl rfl, rfl⟩
    · split
      · exact Or.inr ⟨_, _, Or.inr rfl, rfl⟩
      · exact Or.inr ⟨_, _, Or.inl rfl, rfl⟩
  | some expected =>
    dsimp only
    split
    · exact Or.inl ⟨_, _, Or.inl rfl, rfl⟩
    · split
      · exact Or.inl ⟨_, _, Or.inl rfl, rfl⟩
      · split
        · exact Or.inl ⟨_, _, Or.inr rfl, rfl⟩
        · exact Or.inr ⟨_, _, Or.inl rfl, rfl⟩

end RapidRouter.Store
