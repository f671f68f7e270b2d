import RapidRouter.Lib.Interleave
import RapidRouter.Server.Effects
import RapidRouter.Store.Node

/-!
# Handlers on many nodes at once

The handlers of `router-server/src/admin.rs` as they run together. A handler
reads its node's copy of the document, which may be any document that was ever
stored, checks the request against it, and commits later: the command is then
applied to whatever is stored at that moment, unless the handler named the
version it read.

What the checks are for does not follow from them (`ghost_member`): between
the check and the commit, the user a team lists may be deleted. While a
commit's check still passes on the document the command lands on (`Fresh`),
it does (`directory_sound`). The users are then what the calls, replayed one
field at a time, make of them (`replayUser`).
-/

namespace RapidRouter.Server.Concurrent

open Interleave Lts RapidRouter.Core Core.Text Store

variable (P : Platform)

/-- The services a configuration text declares. -/
def declared (configText : Option String) : List String :=
  match configText with
  | none => []
  | some text =>
    match P.parser.toml text with
    | .ok raw => raw.tenants
    | .error _ => []

/-- A commit that landed: the call it was for, and the document it replaced. -/
structure Entry where
  call : Server.Call
  command : Command
  base : Snapshot
  /-- The documents stored until then. -/
  past : List Snapshot

structure Shared where
  stored : Snapshot
  /-- Ghosts: every document stored so far, and what landed, the latest
  first. -/
  history : List Snapshot
  log : List Entry

/-- A request at a node. The node's copy of the document is read later. -/
structure Task where
  node : Node
  nowMs : Nat
  authz : Authz
  call : Server.Call

inductive Pc where
  | read (task : Task)
  | commit (task : Task) (seen : Snapshot) (expect : Option Nat) (command : Command)

/-- What the node's copy is when it is read; how a commit fares. -/
inductive Choice where
  | reads (copy : Snapshot)
  | lands
  | fails (err : CommitError)

inductive Ret where
  | answered (outcome : Server.Outcome)
  | committed (result : Except CommitError Nat)

def step (s : Shared) (p : Pc) (choice : Choice) : Option (Shared × Interleave.Outcome Pc Ret) :=
  match p, choice with
  | .read task, .reads copy =>
    if copy ∈ s.history then
      match handler P { task.node with snapshot := copy } task.nowMs task.authz task.call with
      | .answer _ outcome => some (s, .returns (.answered outcome))
      | .commit _ _ expect command _ => some (s, .goes (.commit task copy expect command))
    else none
  | .commit task _ expect command, .lands =>
    if expect.all fun v => v = s.stored.version then
      let next : Snapshot := ⟨s.stored.state.apply command, s.stored.version + 1⟩
      some (⟨next, next :: s.history, ⟨task.call, command, s.stored, s.history⟩ :: s.log⟩,
        .returns (.committed (.ok next.version)))
    else none
  | .commit _ _ _ _, .fails err => some (s, .returns (.committed (.error err)))
  | _, _ => none

def machine : Machine Shared Pc Task Choice Ret := ⟨.read, step P⟩

/-- An empty store. -/
def empty : Shared := ⟨⟨StoreState.default, 0⟩, [⟨StoreState.default, 0⟩], []⟩

/-! ## What the document should be -/

/-- What `update_user` makes of a user: the fields given, and no others. -/
def editedUser (input : UserWrite) (salt : String) (u : UserDef) : UserDef :=
  { u with
    passwordHash := (input.password.map (P.hashPassword salt)).getD u.passwordHash
    role :=
      match updatedRole u.role input.role with
      | .ok role => role
      | .error _ => u.role }

/-- A user as the calls made it, each edit of the fields it gives. -/
def replayUser : List Entry → String → Option UserDef
  | [], _ => none
  | e :: older, id =>
    match e.call, e.command with
    | .createUser _ _ _, .putUser d => if id = d.id then some d else replayUser older id
    | .updateUser edited input salt, _ =>
      if id = edited then (replayUser older id).map (editedUser P input salt)
      else replayUser older id
    | .deleteUser deleted, _ => if id = deleted then none else replayUser older id
    | _, _ => replayUser older id

/-- Members are users. -/
def MembersExist (s : StoreState) : Prop :=
  ∀ t team, s.teams.get? t = some team → ∀ m ∈ team.members, (s.users.get? m).isSome

def EmailsUnique (s : StoreState) : Prop :=
  ∀ i j u v, s.users.get? i = some u → s.users.get? j = some v → u.email = v.email → i = j

/-- The service of every key is declared. -/
def TenantsDeclared (s : StoreState) : Prop :=
  ∀ k d t, s.virtualKeys.get? k = some d → d.tenant = some t → t ∈ declared P s.configText

structure Directory (s : Shared) : Prop where
  members : MembersExist s.stored.state
  emails : EmailsUnique s.stored.state
  users : ∀ id, s.stored.state.users.get? id = replayUser P s.log id
  teams : ∀ e ∈ s.log, ∀ id input, e.call = .putTeamById id input →
    (e.base.state.teams.get? id).isSome ∨ ∀ doc ∈ e.past, doc.state.teams.get? id = none
  keys : ∀ e ∈ s.log, ∀ input drawn, e.call = .createKey input drawn →
    e.base.state.virtualKeys.get? drawn.id = none
  tenants : TenantsDeclared P s.stored.state

/-- The document a command lands on still passes the check of its call: the
members are there, the email is free, the user is as it was read in what the
edit leaves alone, the team has not been deleted, the key's id is not taken,
the services of the keys are declared. -/
def FreshFor (s : Shared) (command : Command) : Server.Call → Prop
  | .createUser input _ _ => ∀ u ∈ s.stored.state.users.values,
      u.email ≠ toAsciiLowercase (trim input.email)
  | .updateUser id input salt => ∃ u ∈ s.stored.state.users.get? id,
      command = .putUser (editedUser P input salt u)
  | .putTeam input _ => ∀ m ∈ input.members, (s.stored.state.users.get? m).isSome
  | .putTeamById id input => (∀ m ∈ input.members, (s.stored.state.users.get? m).isSome) ∧
      ((s.stored.state.teams.get? id).isSome ∨ ∀ doc ∈ s.history, doc.state.teams.get? id = none)
  | .createKey input drawn => s.stored.state.virtualKeys.get? drawn.id = none ∧
      ∀ t ∈ input.tenant, t ∈ declared P s.stored.state.configText
  | .updateKey _ input => ∀ t ∈ input.tenant.join, t ∈ declared P s.stored.state.configText
  | .putConfig _ text | .editDocument _ text => ∀ d ∈ s.stored.state.virtualKeys.values,
      ∀ t ∈ d.tenant, t ∈ declared P (some text)
  | .look _ _ | .getConfig | .rotateKey _ _ | .deleteKey _ | .putSecret _ _
  | .putCredentialFile _ _ | .putCredentialFiles _ | .deleteUser _ | .deleteTeam _ => True

def Fresh {ι : Type} (s : State ι Shared Pc) : Label ι Task Choice → Prop
  | .step i .lands => ∀ p ∈ s.pc i,
      match p with
      | .commit task _ _ command => FreshFor P s.shared command task.call
      | .read _ => True
  | _ => True

/-! ## What a handler decides -/

/-- The command a call commits, from the copy it read. -/
def Decides (copy : Snapshot) (expect : Option Nat) (command : Command) : Server.Call → Prop
  | .look _ _ | .getConfig | .putCredentialFile _ _ | .putCredentialFiles _ => False
  | .putConfig _ text | .editDocument _ text => command = .putConfig text
  | .createKey input _ => ∃ d, command = .putVirtualKey d ∧ d.tenant = input.tenant
  | .updateKey id input => expect = some copy.version ∧
      ∃ d, copy.state.virtualKeys.get? id = some d ∧ command = .putVirtualKey (input.applyTo d)
  | .rotateKey id _ => expect = some copy.version ∧
      ∃ d d', copy.state.virtualKeys.get? id = some d ∧ command = .putVirtualKey d' ∧
        d'.tenant = d.tenant
  | .deleteKey id => command = .deleteVirtualKey id
  | .putSecret _ _ => ∃ name value, command = .putSecret name value
  | .createUser input _ _ => ∃ d, command = .putUser d ∧
      d.email = toAsciiLowercase (trim input.email)
  | .updateUser id input salt => ∃ u, copy.state.users.get? id = some u ∧
      command = .putUser (editedUser P input salt u)
  | .deleteUser id => command = .deleteUser id
  | .putTeam input _ => ∃ d, command = .putTeam d ∧ d.members = input.members.toFinset
  | .putTeamById _ input => ∃ d, command = .putTeam d ∧ d.members = input.members.toFinset
  | .deleteTeam id => command = .deleteTeam id

variable {P}

theorem updateUser_decides {n n' : Node} {refused : CommitError → ApiError} {expect : Option Nat}
    {command : Command} {reply : Node → Node × Server.Outcome} {id salt : String} {input : UserWrite}
    (h : updateUser P n id input salt = .commit n' refused expect command reply) :
    ∃ u, n.snapshot.state.users.get? id = some u ∧ command = .putUser (editedUser P input salt u) := by
  unfold updateUser writable at h
  split at h
  · cases h
  · split at h
    · cases h
    · next u hu =>
      refine ⟨u, hu, ?_⟩
      split at h
      · cases h
      · split at h
        · cases h
        · next role hrole =>
          cases h
          unfold editedUser
          rw [hrole]

theorem upsertTeam_decides {n n' : Node} {refused : CommitError → ApiError} {expect : Option Nat}
    {command : Command} {reply : Node → Node × Server.Outcome} {nowMs : Nat} {id : Option String}
    {drawn : String} {input : TeamWrite}
    (h : upsertTeam n nowMs id drawn input = .commit n' refused expect command reply) :
    ∃ d, command = .putTeam d ∧ d.members = input.members.toFinset := by
  unfold upsertTeam writable at h
  split at h
  · cases h
  · split at h
    · cases h
    · split at h
      · cases h
      · split at h
        · cases h
        · cases h
          exact ⟨_, rfl, rfl⟩

theorem createUser_decides {n n' : Node} {refused : CommitError → ApiError} {expect : Option Nat}
    {command : Command} {reply : Node → Node × Server.Outcome} {nowMs : Nat} {id salt : String}
    {input : UserWrite} (h : createUser P n nowMs input id salt = .commit n' refused expect command reply) :
    ∃ d, command = .putUser d ∧ d.email = toAsciiLowercase (trim input.email) := by
  unfold createUser writable at h
  dsimp only at h
  repeat' split at h
  all_goals cases h
  exact ⟨_, rfl, rfl⟩

theorem createKey_decides {n n' : Node} {refused : CommitError → ApiError} {expect : Option Nat}
    {command : Command} {reply : Node → Node × Server.Outcome} {nowMs : Nat} {authz : Authz}
    {input : KeyInput} {drawn : GeneratedKey}
    (h : createKey P n nowMs authz input drawn = .commit n' refused expect command reply) :
    ∃ d, command = .putVirtualKey d ∧ d.tenant = input.tenant := by
  unfold createKey writable at h
  repeat' split at h
  all_goals cases h
  exact ⟨_, rfl, rfl⟩

theorem commitDocument_decides {n n' : Node} {refused refused' : CommitError → ApiError}
    {expect : Option Nat} {command : Command} {reply : Node → Node × Server.Outcome} {version : Nat}
    {text : String}
    (h : writable n (commitDocument P refused' n version text) =
      .commit n' refused expect command reply) : command = .putConfig text := by
  unfold commitDocument writable at h
  repeat' split at h
  all_goals cases h
  rfl

theorem handler_decides {n n' : Node} {nowMs : Nat} {authz : Authz} {call : Server.Call}
    {refused : CommitError → ApiError} {expect : Option Nat} {command : Command}
    {reply : Node → Node × Server.Outcome}
    (h : handler P n nowMs authz call = .commit n' refused expect command reply) :
    Decides P n.snapshot expect command call := by
  cases call with
  | look | getConfig => cases h
  | putCredentialFile name content =>
    obtain ⟨files, outcome, heq, _⟩ := putCredentialFile_keeps P n name content
    exact Step.noConfusion (heq.symm.trans h)
  | putCredentialFiles files =>
    obtain ⟨files', outcome, heq, _⟩ := putCredentialFiles_keeps P n files
    exact Step.noConfusion (heq.symm.trans h)
  | putConfig version text => exact commitDocument_decides h
  | editDocument route text => exact commitDocument_decides h
  | createKey input drawn => exact createKey_decides h
  | updateKey id input =>
    unfold handler updateKey writable at h
    dsimp only at h
    split at h
    · cases h
    · split at h
      · cases h
      · next d hd =>
        split at h <;> cases h
        exact ⟨rfl, d, hd, rfl⟩
  | rotateKey id secret =>
    unfold handler rotateKey writable at h
    dsimp only at h
    split at h
    · cases h
    · split at h <;> cases h
      next d hd => exact ⟨rfl, d, _, hd, rfl, rfl⟩
  | deleteKey id =>
    unfold handler deleteKey writable at h
    dsimp only at h
    split at h <;> cases h
    rfl
  | putSecret name value =>
    unfold handler putSecret writable at h
    dsimp only at h
    repeat' split at h
    all_goals cases h
    exact ⟨_, _, rfl⟩
  | createUser input id salt => exact createUser_decides h
  | updateUser id input salt => exact updateUser_decides h
  | deleteUser id =>
    unfold handler deleteUser writable at h
    dsimp only at h
    split at h <;> cases h
    rfl
  | putTeam input drawn => exact upsertTeam_decides h
  | putTeamById id input => exact upsertTeam_decides h
  | deleteTeam id =>
    unfold handler deleteTeam writable at h
    dsimp only at h
    split at h <;> cases h
    rfl

/-! ## What a command does to the directory -/

def Keyed (users : OrdMap String UserDef) : Prop := ∀ id u, users.get? id = some u → u.id = id

theorem keyed_apply {s : StoreState} (h : Keyed s.users) (command : Command) :
    Keyed (s.apply command).users := by
  cases command with
  | putUser d =>
    intro id u hu
    change (s.users.insert d.id d).get? id = some u at hu
    rw [OrdMap.get?_insert] at hu
    split at hu
    · next hid =>
      cases hu
      exact hid.symm
    · exact h id u hu
  | deleteUser deleted =>
    intro id u hu
    change (s.users.erase deleted).get? id = some u at hu
    rw [OrdMap.get?_erase] at hu
    split at hu
    · cases hu
    · exact h id u hu
  | putConfig | putVirtualKey | deleteVirtualKey | putSecret | deleteSecret | putSetting
  | deleteSetting | putTeam | deleteTeam => exact h

theorem members_apply {s : StoreState} (h : MembersExist s) {command : Command}
    (hteam : ∀ d, command = .putTeam d → ∀ m ∈ d.members, (s.users.get? m).isSome) :
    MembersExist (s.apply command) := by
  cases command with
  | putUser d =>
    intro t team ht m hm
    show ((s.users.insert d.id d).get? m).isSome
    rw [OrdMap.get?_insert]
    split
    · rfl
    · exact h t team ht m hm
  | deleteUser deleted =>
    intro t team ht m hm
    change (s.teams.mapValues _).get? t = some team at ht
    rw [OrdMap.get?_mapValues] at ht
    obtain ⟨old, hold, rfl⟩ := Option.map_eq_some_iff.mp ht
    obtain ⟨hne, hm⟩ := Finset.mem_erase.mp hm
    show ((s.users.erase deleted).get? m).isSome
    rw [OrdMap.get?_erase, if_neg hne]
    exact h t old hold m hm
  | putTeam d =>
    intro t team ht m hm
    change (s.teams.insert d.id d).get? t = some team at ht
    rw [OrdMap.get?_insert] at ht
    split at ht
    · cases ht
      exact hteam d rfl m hm
    · exact h t team ht m hm
  | deleteTeam deleted =>
    intro t team ht m hm
    change (s.teams.erase deleted).get? t = some team at ht
    rw [OrdMap.get?_erase] at ht
    split at ht
    · cases ht
    · exact h t team ht m hm
  | putConfig | putVirtualKey | deleteVirtualKey | putSecret | deleteSecret | putSetting
  | deleteSetting => exact h

theorem emails_apply {s : StoreState} (h : EmailsUnique s) {command : Command}
    (huser : ∀ d, command = .putUser d → ∀ i u, s.users.get? i = some u → u.email = d.email →
      i = d.id) : EmailsUnique (s.apply command) := by
  cases command with
  | putUser d =>
    intro i j u v hu hv hemail
    change (s.users.insert d.id d).get? i = some u at hu
    change (s.users.insert d.id d).get? j = some v at hv
    rw [OrdMap.get?_insert] at hu hv
    by_cases hi : i = d.id
    · rw [if_pos hi, Option.some.injEq] at hu
      by_cases hj : j = d.id
      · exact hi.trans hj.symm
      · rw [if_neg hj] at hv
        exact absurd (huser d rfl j v hv (hemail.symm.trans (congrArg _ hu.symm))) hj
    · rw [if_neg hi] at hu
      by_cases hj : j = d.id
      · rw [if_pos hj, Option.some.injEq] at hv
        exact absurd (huser d rfl i u hu (hemail.trans (congrArg _ hv.symm))) hi
      · rw [if_neg hj] at hv
        exact h i j u v hu hv hemail
  | deleteUser deleted =>
    intro i j u v hu hv hemail
    change (s.users.erase deleted).get? i = some u at hu
    change (s.users.erase deleted).get? j = some v at hv
    rw [OrdMap.get?_erase] at hu hv
    split at hu
    · cases hu
    · split at hv
      · cases hv
      · exact h i j u v hu hv hemail
  | putConfig | putVirtualKey | deleteVirtualKey | putSecret | deleteSecret | putSetting
  | deleteSetting | putTeam | deleteTeam => exact h

theorem tenants_apply {s : StoreState} (h : TenantsDeclared P s) {command : Command}
    (hkey : ∀ d, command = .putVirtualKey d → ∀ t, d.tenant = some t → t ∈ declared P s.configText)
    (hconfig : ∀ text, command = .putConfig text → ∀ k d t, s.virtualKeys.get? k = some d →
      d.tenant = some t → t ∈ declared P (some text)) : TenantsDeclared P (s.apply command) := by
  cases command with
  | putConfig text => exact hconfig text rfl
  | putVirtualKey d =>
    intro k d' t hd' ht
    change (s.virtualKeys.insert d.id d).get? k = some d' at hd'
    rw [OrdMap.get?_insert] at hd'
    split at hd'
    · cases hd'
      exact hkey d rfl t ht
    · exact h k d' t hd' ht
  | deleteVirtualKey id =>
    intro k d t hd ht
    change (s.virtualKeys.erase id).get? k = some d at hd
    rw [OrdMap.get?_erase] at hd
    split at hd
    · cases hd
    · exact h k d t hd ht
  | putSecret | deleteSecret | putSetting | deleteSetting | putUser | deleteUser | putTeam
  | deleteTeam => exact h

/-! ## A commit that lands -/

/-- What is known of the documents that were stored. -/
structure DirectoryInv (P : Platform) (s : Shared) : Prop where
  directory : Directory P s
  keyed : Keyed s.stored.state.users
  known : ∀ x ∈ s.history, Node.Known s.stored x

/-- What a pending commit was decided on. -/
def PcOk (P : Platform) (s : Shared) : Pc → Prop
  | .read _ => True
  | .commit task seen expect command =>
    Node.Known s.stored seen ∧ Decides P seen expect command task.call

variable {s : Shared} {seen : Snapshot} {expect : Option Nat} {command : Command}
  {call : Server.Call}

theorem fresh_members (h : Decides P seen expect command call) (hfresh : FreshFor P s command call)
    {d : TeamDef} (hd : command = .putTeam d) :
    ∀ m ∈ d.members, (s.stored.state.users.get? m).isSome := by
  have hmembers : ∀ {input : TeamWrite}, (∃ d', command = .putTeam d' ∧
      d'.members = input.members.toFinset) → (∀ m ∈ input.members, (s.stored.state.users.get? m).isSome) →
      ∀ m ∈ d.members, (s.stored.state.users.get? m).isSome := by
    rintro input ⟨d', hd', hinput⟩ hall m hm
    rw [hd] at hd'
    cases hd'
    rw [hinput, List.mem_toFinset] at hm
    exact hall m hm
  cases call with
  | putTeam input drawn => exact hmembers h hfresh
  | putTeamById id input => exact hmembers h hfresh.1
  | look | getConfig | putCredentialFile | putCredentialFiles => exact absurd h id
  | putConfig | editDocument | deleteKey | deleteUser | deleteTeam => cases h.symm.trans hd
  | createKey | updateUser | createUser | putSecret | updateKey | rotateKey =>
    subst hd
    simp [Decides] at h

theorem fresh_emails (hs : DirectoryInv P s) (h : Decides P seen expect command call)
    (hfresh : FreshFor P s command call) {d : UserDef} (hd : command = .putUser d) (i : String)
    (u : UserDef) (hu : s.stored.state.users.get? i = some u) (hemail : u.email = d.email) :
    i = d.id := by
  cases call with
  | createUser input id salt =>
    obtain ⟨d', hd', hinput⟩ := h
    rw [hd] at hd'
    cases hd'
    exact absurd (hemail.trans hinput) (hfresh u (OrdMap.mem_values.mpr ⟨i, hu⟩))
  | updateUser id input salt =>
    obtain ⟨v, hv, hcommand⟩ := hfresh
    rw [hd] at hcommand
    cases hcommand
    have hsame : i = id := hs.directory.emails i id u v hu hv hemail
    rw [hsame, ← hs.keyed id v hv]
    rfl
  | look | getConfig | putCredentialFile | putCredentialFiles => exact absurd h id
  | putConfig | editDocument | deleteKey | deleteUser | deleteTeam => cases h.symm.trans hd
  | createKey | putTeam | putTeamById | putSecret | updateKey | rotateKey =>
    subst hd
    simp [Decides] at h

/-- A versioned commit lands on the document it was decided on. -/
theorem seen_eq_stored (hseen : Node.Known s.stored seen)
    (hexpect : expect.all fun v => v = s.stored.version) (h : expect = some seen.version) :
    seen = s.stored := by
  rw [h] at hexpect
  exact hseen.2 (of_decide_eq_true hexpect)

theorem fresh_tenant (hs : DirectoryInv P s) (hseen : Node.Known s.stored seen)
    (hexpect : expect.all fun v => v = s.stored.version) (h : Decides P seen expect command call)
    (hfresh : FreshFor P s command call) {d : VirtualKeyDef} (hd : command = .putVirtualKey d)
    (t : String) (ht : d.tenant = some t) : t ∈ declared P s.stored.state.configText := by
  cases call with
  | createKey input drawn =>
    obtain ⟨d', hd', htenant⟩ := h
    rw [hd] at hd'
    cases hd'
    exact hfresh.2 t (htenant.symm.trans ht)
  | updateKey id input =>
    obtain ⟨hversion, d', hd', hcommand⟩ := h
    rw [hd] at hcommand
    cases hcommand
    have hsame := seen_eq_stored hseen hexpect hversion
    subst hsame
    change input.tenant.getD d'.tenant = some t at ht
    cases hinput : input.tenant with
    | none =>
      rw [hinput] at ht
      exact hs.directory.tenants id d' t hd' ht
    | some tenant =>
      rw [hinput] at ht
      exact hfresh t (by rw [hinput]; exact ht)
  | rotateKey id secret =>
    obtain ⟨hversion, d', d'', hd', hcommand, htenant⟩ := h
    rw [hd] at hcommand
    cases hcommand
    have hsame := seen_eq_stored hseen hexpect hversion
    subst hsame
    exact hs.directory.tenants id d' t hd' (htenant.symm.trans ht)
  | look | getConfig | putCredentialFile | putCredentialFiles => exact absurd h id
  | putConfig | editDocument | deleteKey | deleteUser | deleteTeam => cases h.symm.trans hd
  | createUser | updateUser | putTeam | putTeamById | putSecret =>
    subst hd
    simp [Decides] at h

theorem fresh_config (h : Decides P seen expect command call) (hfresh : FreshFor P s command call)
    {text : String} (htext : command = .putConfig text) (k : String) (d : VirtualKeyDef) (t : String)
    (hd : s.stored.state.virtualKeys.get? k = some d) (ht : d.tenant = some t) :
    t ∈ declared P (some text) := by
  cases call with
  | putConfig version text' =>
    cases h.symm.trans htext
    exact hfresh d (OrdMap.mem_values.mpr ⟨k, hd⟩) t ht
  | editDocument route text' =>
    cases h.symm.trans htext
    exact hfresh d (OrdMap.mem_values.mpr ⟨k, hd⟩) t ht
  | look | getConfig | putCredentialFile | putCredentialFiles => exact absurd h id
  | deleteKey | deleteUser | deleteTeam => cases h.symm.trans htext
  | createKey | createUser | updateUser | putTeam | putTeamById | putSecret | updateKey
  | rotateKey =>
    subst htext
    simp [Decides] at h

/-- The users go on being what the calls make of them. -/
theorem users_land (hs : DirectoryInv P s) (h : Decides P seen expect command call)
    (hfresh : FreshFor P s command call) (id : String) :
    (s.stored.state.apply command).users.get? id =
      replayUser P (⟨call, command, s.stored, s.history⟩ :: s.log) id := by
  have hreplay := hs.directory.users
  cases call with
  | createUser input drawn salt =>
    obtain ⟨d, rfl, _⟩ := h
    show (s.stored.state.users.insert d.id d).get? id = _
    rw [OrdMap.get?_insert, hreplay]
    rfl
  | updateUser edited input salt =>
    obtain ⟨u, hu, rfl⟩ := hfresh
    have hid : (editedUser P input salt u).id = edited := hs.keyed edited u hu
    show (s.stored.state.users.insert (editedUser P input salt u).id _).get? id = _
    rw [OrdMap.get?_insert, hid, hreplay]
    show _ = if id = edited then (replayUser P s.log id).map (editedUser P input salt)
      else replayUser P s.log id
    by_cases hsame : id = edited
    · rw [if_pos hsame, if_pos hsame, hsame, ← hreplay, hu]
      rfl
    · rw [if_neg hsame, if_neg hsame]
  | deleteUser deleted =>
    cases h
    show (s.stored.state.users.erase deleted).get? id = _
    rw [OrdMap.get?_erase, hreplay]
    rfl
  | look | getConfig | putCredentialFile | putCredentialFiles => exact absurd h fun hfalse => hfalse
  | putConfig | editDocument | deleteKey | deleteTeam =>
    cases h
    exact hreplay id
  | createKey | putTeam | putTeamById =>
    obtain ⟨d, rfl, _⟩ := h
    exact hreplay id
  | putSecret =>
    obtain ⟨name, value, rfl⟩ := h
    exact hreplay id
  | updateKey =>
    obtain ⟨_, d, _, rfl⟩ := h
    exact hreplay id
  | rotateKey =>
    obtain ⟨_, d, d', _, rfl, _⟩ := h
    exact hreplay id

/-- A commit that lands while its check still passes. -/
theorem land (hs : DirectoryInv P s) (hseen : Node.Known s.stored seen)
    (hexpect : expect.all fun v => v = s.stored.version) (h : Decides P seen expect command call)
    (hfresh : FreshFor P s command call) {next : Snapshot}
    (hnext : next = ⟨s.stored.state.apply command, s.stored.version + 1⟩) :
    DirectoryInv P ⟨next, next :: s.history, ⟨call, command, s.stored, s.history⟩ :: s.log⟩ := by
  subst hnext
  refine ⟨⟨?_, ?_, users_land hs h hfresh, ?_, ?_, ?_⟩, keyed_apply hs.keyed command, ?_⟩
  · exact members_apply hs.directory.members fun d hd => fresh_members h hfresh hd
  · exact emails_apply hs.directory.emails fun d hd => fresh_emails hs h hfresh hd
  · intro e he id input hcall
    rcases List.mem_cons.mp he with rfl | he
    · change call = .putTeamById id input at hcall
      subst hcall
      exact hfresh.2
    · exact hs.directory.teams e he id input hcall
  · intro e he input drawn hcall
    rcases List.mem_cons.mp he with rfl | he
    · change call = .createKey input drawn at hcall
      subst hcall
      exact hfresh.1
    · exact hs.directory.keys e he input drawn hcall
  · exact tenants_apply hs.directory.tenants (fun d hd => fresh_tenant hs hseen hexpect h hfresh hd)
      fun text htext => fresh_config h hfresh htext
  · intro x hx
    rcases List.mem_cons.mp hx with rfl | hx
    · exact ⟨le_rfl, fun _ => rfl⟩
    · have hle := (hs.known x hx).1
      exact ⟨by dsimp only; omega, fun heq => absurd heq (by dsimp only; omega)⟩

section
variable {ι : Type} [DecidableEq ι]

/-- While each commit's check still passes where it lands, the directory is
sound. -/
theorem directory_sound {s : State ι Shared Pc}
    (h : Reach ((machine P).system (· = empty)) (Fresh P) s) : Directory P s.shared := by
  have hinv : Machine.Inv (DirectoryInv P) (PcOk P) s := by
    refine h.invariant (I := Machine.Inv (DirectoryInv P) (PcOk P)) ?_ ?_
    · rintro s ⟨shared, rfl, rfl⟩
      refine ⟨⟨⟨?_, ?_, fun id => rfl, ?_, ?_, ?_⟩, ?_, ?_⟩, fun i p hp => by cases hp⟩
      · intro t team ht
        cases ht
      · intro i j u v hu
        cases hu
      · intro e he
        cases he
      · intro e he
        cases he
      · intro k d t hd
        cases hd
      · intro id u hu
        cases hu
      · intro x hx
        rcases List.mem_singleton.mp hx with rfl
        exact ⟨le_rfl, fun _ => rfl⟩
    · intro s a s' hs hok hnext
      have hstart : ∀ task : Task, PcOk P s.shared ((machine P).start task) := fun _ => trivial
      refine Machine.inv_step hs (fun _ task _ _ => hstart task) ?_ hnext
      intro i choice p shared out ha hp hdir hpc hm
      subst ha
      cases p with
      | read task =>
        cases choice with
        | reads copy =>
          change (if copy ∈ s.shared.history then _ else none) = some (shared, out) at hm
          split at hm
          · next hcopy =>
            split at hm
            · cases hm
              exact ⟨hdir, fun q hq => (by cases hq), fun _ _ _ _ hq => hq⟩
            · next hhandler =>
              cases hm
              refine ⟨hdir, fun q hq => ?_, fun _ _ _ _ hq => hq⟩
              cases hq
              exact ⟨hdir.known copy hcopy, handler_decides hhandler⟩
          · cases hm
        | lands => cases hm
        | fails err => cases hm
      | commit task seen expect command =>
        obtain ⟨hseen, hdecides⟩ := hpc
        cases choice with
        | reads copy => cases hm
        | fails err =>
          cases hm
          exact ⟨hdir, fun q hq => (by cases hq), fun _ _ _ _ hq => hq⟩
        | lands =>
          change (if expect.all (fun v => v = s.shared.stored.version) then _ else none) =
            some (shared, out) at hm
          split at hm
          · next hexpect =>
            cases hm
            refine ⟨land hdir hseen hexpect hdecides (hok _ hp) rfl, fun q hq => (by cases hq), ?_⟩
            intro j q _ _ hq
            cases q with
            | read => trivial
            | commit task' seen' expect' command' =>
              obtain ⟨⟨hle, _⟩, hdecides'⟩ := hq
              exact ⟨⟨by dsimp only; omega, fun heq => absurd heq (by dsimp only; omega)⟩, hdecides'⟩
          · cases hm
  exact hinv.shared.directory

end

/-! ## A team and its member -/

/-- A password's hash is the password. -/
def plainPlatform : Platform where
  parser := ⟨fun _ => .error "no document", fun _ => []⟩
  hashSecret secret := secret
  hashPassword _ password := password
  verifyPassword password stored := password = stored
  isJson _ := false

def adminNode : Node where
  signer := .pinned ⟨adminKeySubject, 0, 0⟩ "cs1" rfl
  fileManaged := false
  env _ := none
  files := .empty
  dataDir := none
  config := ⟨⟨["bootstrap-admin-key"], 3600000⟩, [], []⟩
  appliedText := none
  snapshot := ⟨StoreState.default, 0⟩
  sessions := .empty

/-- An admin's request. -/
def asAdmin (call : Server.Call) : Task := ⟨adminNode, 1000, resolveAuthz StoreState.default .adminKey, call⟩

def createAna : Task := asAdmin (.createUser ⟨"ana@example.com", some "password", none⟩ "1" "salt")

def putTeamOfAna : Task := asAdmin (.putTeam ⟨"team", ["u_1"], [], none⟩ "1")

def withAna : Snapshot :=
  ⟨StoreState.default.apply (.putUser ⟨"u_1", "ana@example.com", "password", .member, 1000⟩), 1⟩

/-- A user is created, then a team that lists it. -/
def teamTrace : List (Label Bool Task Choice) :=
  [.invoke false createAna, .step false (.reads ⟨StoreState.default, 0⟩), .step false .lands,
    .invoke true putTeamOfAna, .step true (.reads withAna), .step true .lands]

/-- The user is deleted while the team's commit is on its way. -/
def ghostTrace : List (Label Bool Task Choice) :=
  [.invoke false createAna, .step false (.reads ⟨StoreState.default, 0⟩), .step false .lands,
    .invoke true putTeamOfAna, .step true (.reads withAna),
    .invoke false (asAdmin (.deleteUser "u_1")), .step false (.reads withAna), .step false .lands,
    .step true .lands]

instance (s : Shared) (command : Command) : ∀ call, Decidable (FreshFor P s command call)
  | .createUser input _ _ => inferInstanceAs (Decidable (∀ u ∈ s.stored.state.users.values,
      u.email ≠ toAsciiLowercase (trim input.email)))
  | .updateUser id input salt => inferInstanceAs (Decidable (∃ u ∈ s.stored.state.users.get? id,
      command = .putUser (editedUser P input salt u)))
  | .putTeam input _ => inferInstanceAs (Decidable (∀ m ∈ input.members,
      (s.stored.state.users.get? m).isSome))
  | .putTeamById id input => inferInstanceAs (Decidable ((∀ m ∈ input.members,
      (s.stored.state.users.get? m).isSome) ∧ ((s.stored.state.teams.get? id).isSome ∨
        ∀ doc ∈ s.history, doc.state.teams.get? id = none)))
  | .createKey input drawn => inferInstanceAs (Decidable
      (s.stored.state.virtualKeys.get? drawn.id = none ∧
        ∀ t ∈ input.tenant, t ∈ declared P s.stored.state.configText))
  | .updateKey _ input => inferInstanceAs (Decidable
      (∀ t ∈ input.tenant.join, t ∈ declared P s.stored.state.configText))
  | .putConfig _ text => inferInstanceAs (Decidable (∀ d ∈ s.stored.state.virtualKeys.values,
      ∀ t ∈ d.tenant, t ∈ declared P (some text)))
  | .editDocument _ text => inferInstanceAs (Decidable (∀ d ∈ s.stored.state.virtualKeys.values,
      ∀ t ∈ d.tenant, t ∈ declared P (some text)))
  | .look _ _ | .getConfig | .rotateKey _ _ | .deleteKey _ | .putSecret _ _
  | .putCredentialFile _ _ | .putCredentialFiles _ | .deleteUser _ | .deleteTeam _ => isTrue trivial

instance {ι : Type} (s : State ι Shared Pc) (a : Label ι Task Choice) : Decidable (Fresh P s a) :=
  match a with
  | .step i .lands =>
    match h : s.pc i with
    | none => isTrue fun p hp => by rw [h] at hp; cases hp
    | some (.read _) => isTrue fun p hp => by
        rw [h] at hp
        cases hp
        trivial
    | some (.commit task _ _ command) =>
      decidable_of_iff (FreshFor P s.shared command task.call)
        ⟨fun hf p hp => by
          rw [h] at hp
          cases hp
          exact hf, fun hf => hf _ h⟩
  | .step _ (.reads _) | .step _ (.fails _) | .invoke _ _ => isTrue trivial

theorem empty_starts : ((machine plainPlatform).system (· = empty)).init
    (Machine.initial empty : State Bool Shared Pc) := ⟨_, rfl, rfl⟩

theorem directory_sound_team :
    ∃ s : State Bool Shared Pc, s.shared.stored.version = 2 ∧ Directory plainPlatform s.shared := by
  have hreach := Reach.of_trace (Fresh plainPlatform) (machine plainPlatform).next
    empty_starts teamTrace (by decide) (by decide)
  exact ⟨_, by decide, directory_sound hreach⟩

/-- **A deleted user lingers as a ghost member.** The team was checked while
the user was there, and is stored after the user is gone. -/
theorem ghost_member :
    ¬ ∀ s : State Bool Shared Pc, Reach ((machine plainPlatform).system (· = empty)) free s →
      Directory plainPlatform s.shared := by
  intro h
  have hreach := Reach.of_trace free (machine plainPlatform).next empty_starts
    ghostTrace (by decide) (by decide)
  have hmember := (h _ hreach).members "t_1"
    ⟨"t_1", "team", {"u_1"}, ∅, .keys, 1000⟩ (by decide) "u_1" (by decide)
  exact absurd hmember (by decide)

end RapidRouter.Server.Concurrent
