import Mathlib.Data.Fintype.EquivFin
import RapidRouter.Lib.Lts
import RapidRouter.Server.Effects

/-!
# Scoped members and virtual keys

A member whose teams give `Keys` access scoped to a model list may manage
virtual keys "within the team's models". `enforce` only sees the path; the
model scope is each key handler's business, and the team tag `create_key`
records "is what scopes later edits".

The runs here are sequences of requests by such members. Beside the gateway a
run remembers, for every key still in the store, the grants of the members who
created it, changed it or were shown its secret (`exposed`), and each key that
was changed, rotated or deleted as it stood before (`edited`). `KeysInScope`
is what the access model promises of both.

`create_key` makes the check. `update_key`, `rotate_key` and `delete_key` never
see the caller's grant: `keys_in_scope` shows that the check they lack is
exactly what is missing, `rotate_crosses_teams` that without it one request
hands a member another team's key.
-/

namespace RapidRouter.Server

open RapidRouter.Core Store Lts

/-- The key, as it stands, lets its holder call this model. -/
def Authorises (d : VirtualKeyDef) (model : String) : Prop :=
  d.enabled = true ∧ d.allowsModel model none = true

/-- The key authorises nothing outside the grant. -/
def WithinGrant (g : Grant) (d : VirtualKeyDef) : Prop :=
  ∀ model, Authorises d model → g.allows model = true

/-- `create_key`'s scope check, on a definition: a disabled key opens nothing,
and a scoped grant covers a key that lists its models and lists only its own. -/
def inScope (g : Grant) (d : VirtualKeyDef) : Bool :=
  !d.enabled || g.models.isNone || (d.models ≠ [] && g.allowsModels d.models)

/-- No finite list covers every model name. -/
theorem exists_model_notMem (allowed : Finset String) : ∃ model, model ∉ allowed := by
  have hinj : Function.Injective fun n : Nat => String.ofList (List.replicate n 'm') := by
    intro a b h
    have hlen := congrArg (fun s : String => s.toList.length) h
    simpa using hlen
  have : Infinite String := Infinite.of_injective _ hinj
  exact Infinite.exists_notMem_finset allowed

/-- The check decides coverage. -/
theorem inScope_iff {g : Grant} {d : VirtualKeyDef} : inScope g d = true ↔ WithinGrant g d := by
  unfold WithinGrant Authorises
  constructor
  · intro h model ⟨hen, hmodel⟩
    simp only [inScope, hen, Bool.not_true, Bool.false_or, Bool.or_eq_true, Option.isNone_iff_eq_none,
      Bool.and_eq_true, decide_eq_true_eq] at h
    rcases h with hnone | ⟨hne, hall⟩
    · simp [Grant.allows, Grant.allowsModels, hnone]
    · rcases VirtualKeyDef.allowsModel_eq.mp hmodel with he | hin | ⟨r, hr, _⟩
      · exact absurd he hne
      · exact Grant.allowsModels_iff.mp hall model hin
      · cases hr
  · intro h
    simp only [inScope, Bool.or_eq_true, Bool.not_eq_true', Option.isNone_iff_eq_none, Bool.and_eq_true,
      decide_eq_true_eq]
    by_cases hen : d.enabled = true
    · refine or_iff_not_imp_left.mpr fun hopen => ⟨?_, ?_⟩
      · intro hnil
        cases hg : g.models with
        | none => exact hopen (Or.inr hg)
        | some allowed =>
          obtain ⟨model, hout⟩ := exists_model_notMem allowed
          have hin := h model ⟨hen, VirtualKeyDef.allowsModel_eq.mpr (Or.inl hnil)⟩
          simp [Grant.allows, Grant.allowsModels, hg, hout] at hin
      · refine Grant.allowsModels_iff.mpr fun model hin => ?_
        exact h model ⟨hen, VirtualKeyDef.allowsModel_eq.mpr (Or.inr (Or.inl hin))⟩
    · exact Or.inl (Or.inl (by simpa using hen))

/-- The key carries no team tag, or one of the grant's teams. -/
def teamInGrant (g : Grant) (d : VirtualKeyDef) : Bool :=
  (d.tags.get? "team").all fun team => g.teams.contains team

/-! ## Runs of member requests -/

/-- A request by a signed-in member. -/
structure MemberRequest where
  userId : String
  nowMs : Nat
  call : Call
  deriving DecidableEq

/-- A key that was changed, rotated or deleted, by whom, and the teams then. -/
structure Edit where
  userId : String
  teams : List TeamDef
  before : VirtualKeyDef

structure KeyRun where
  node : Node
  exposed : List (Grant × String)
  edited : List Edit

/-- The key a call writes or removes. -/
def Call.keyId : Call → Option String
  | .createKey _ drawn => some drawn.id
  | .updateKey id _ | .rotateKey id _ | .deleteKey id => some id
  | _ => none

def KeyRun.keys (s : KeyRun) : OrdMap String VirtualKeyDef := s.node.snapshot.state.virtualKeys

def KeyRun.authz (s : KeyRun) (userId : String) : Authz :=
  resolveAuthz s.node.snapshot.state (.user userId)

/-- Who holds or wrote which key, after a successful call. -/
def KeyRun.exposedAfter (s : KeyRun) (g : Grant) : Call → List (Grant × String)
  | .createKey _ drawn => (g, drawn.id) :: s.exposed
  | .updateKey id _ | .rotateKey id _ => (g, id) :: s.exposed
  | .deleteKey id => s.exposed.filter fun e => e.2 ≠ id
  | _ => s.exposed

/-- Which keys were edited, after a successful call. -/
def KeyRun.editedAfter (s : KeyRun) (userId : String) (call : Call) : List Edit :=
  match call.keyId.bind s.keys.get? with
  | some d => ⟨userId, s.node.snapshot.state.teams.values, d⟩ :: s.edited
  | none => s.edited

/-- One member request, served. -/
def KeyRun.next (P : Platform) (s : KeyRun) (a : MemberRequest) : Option KeyRun :=
  let authz := s.authz a.userId
  let r := (authorised P s.node a.nowMs authz a.call).alone s.node
  match r.2 with
  | .error _ => some { s with node := r.1 }
  | .ok _ => some ⟨r.1, s.exposedAfter authz.grant a.call, s.editedAfter a.userId a.call⟩

/-- Keys are stored under their ids. -/
def Indexed (keys : OrdMap String VirtualKeyDef) : Prop :=
  ∀ id d, keys.get? id = some d → d.id = id

/-- Any control-plane state, before the first request. -/
def KeyRun.start (s : KeyRun) : Prop := Indexed s.keys ∧ s.exposed = [] ∧ s.edited = []

def keyRuns (P : Platform) : System KeyRun MemberRequest := ofNext KeyRun.start (KeyRun.next P)

/-- A non-admin whose grant is `Keys` access scoped to a model list. -/
def ScopedMember (authz : Authz) : Prop :=
  authz.isAdmin = false ∧ authz.grant.access = .keys ∧ authz.grant.models.isSome = true

/-- The runs the access model speaks of: only scoped members ask. -/
def scopedMembers (s : KeyRun) (a : MemberRequest) : Prop := ScopedMember (s.authz a.userId)

/-- Every edited key was of one of its editor's teams, or of none. -/
def OwnTeamsOnly (log : List Edit) : Prop :=
  ∀ e ∈ log, ∀ team, e.before.tags.get? "team" = some team →
    ∃ t ∈ e.teams, t.id = team ∧ e.userId ∈ t.members

/-- **The promise.** A key a member created, changed or holds authorises
nothing outside that member's grant at the time, and only keys of the
member's own teams (or of none) were edited. -/
structure KeysInScope (s : KeyRun) : Prop where
  exposed : ∀ e ∈ s.exposed, ∀ d, s.keys.get? e.2 = some d → WithinGrant e.1 d
  edited : OwnTeamsOnly s.edited

/-- The check the key handlers leave out, made from the state before: an
update or rotation leaves the key inside the grant of its author and of
everyone already exposed to it, no key of a foreign team is edited, and a
fresh key does not land on an existing one. -/
def checkedEdits (s : KeyRun) (a : MemberRequest) : Prop :=
  let g := (s.authz a.userId).grant
  scopedMembers s a ∧
    match a.call with
    | .createKey _ drawn => s.keys.get? drawn.id = none
    | .updateKey id input => ∀ d ∈ s.keys.get? id, teamInGrant g d = true ∧
        inScope g (input.applyTo d) = true ∧
        ∀ e ∈ s.exposed, e.2 = id → inScope e.1 (input.applyTo d) = true
    | .rotateKey id _ => ∀ d ∈ s.keys.get? id, teamInGrant g d = true ∧ inScope g d = true
    | .deleteKey id => ∀ d ∈ s.keys.get? id, teamInGrant g d = true
    | _ => True

/-! ## What one checked request preserves -/

/-- What the run lemma carries: the promise, and that the store is indexed
and every exposure is of a key still there. -/
structure KeyRun.Inv (s : KeyRun) : Prop where
  scope : KeysInScope s
  indexed : Indexed s.keys
  present : ∀ e ∈ s.exposed, (s.keys.get? e.2).isSome = true

theorem indexed_insert {keys : OrdMap String VirtualKeyDef} (h : Indexed keys)
    (d : VirtualKeyDef) : Indexed (keys.insert d.id d) := by
  intro id d' hd'
  rw [OrdMap.get?_insert] at hd'
  split at hd'
  next he =>
    injection hd' with hd'
    rw [← hd', he]
  next => exact h id d' hd'

theorem indexed_erase {keys : OrdMap String VirtualKeyDef} (h : Indexed keys) (id : String) :
    Indexed (keys.erase id) := by
  intro id' d' hd'
  rw [OrdMap.get?_erase] at hd'
  split at hd'
  · cases hd'
  · exact h id' d' hd'

/-- A key the guard lets a member edit is of a team they are in. -/
theorem belongs_of_teamInGrant {s : KeyRun} {userId team : String} {d : VirtualKeyDef}
    (hmember : (s.authz userId).isAdmin = false)
    (h : teamInGrant (s.authz userId).grant d = true) (htag : d.tags.get? "team" = some team) :
    ∃ t ∈ s.node.snapshot.state.teams.values, t.id = team ∧ userId ∈ t.members := by
  have hmem : team ∈ (s.authz userId).grant.teams := by
    simpa [teamInGrant, htag] using h
  unfold KeyRun.authz resolveAuthz at hmem hmember
  dsimp only at hmem hmember
  rw [hmember] at hmem
  exact Grant.mem_teams_forMember.mp (by simpa using hmem)

/-- Logging a permitted edit keeps the second half of the promise. -/
theorem edited_step {s : KeyRun} (h : KeysInScope s) {userId : String} {call : Call}
    (hmember : (s.authz userId).isAdmin = false)
    (hteam : ∀ id d, call.keyId = some id → s.keys.get? id = some d →
      teamInGrant (s.authz userId).grant d = true) :
    OwnTeamsOnly (s.editedAfter userId call) := by
  unfold KeyRun.editedAfter
  split
  next d hd =>
    obtain ⟨id, hid, hget⟩ := Option.bind_eq_some_iff.mp hd
    intro e he team htag
    rcases List.mem_cons.mp he with rfl | he
    · exact belongs_of_teamInGrant hmember (hteam id d hid hget) htag
    · exact h.edited e he team htag
  next => exact h.edited

/-- Writing a definition inside the grants of its author and of everyone
exposed to its key keeps the invariant. -/
theorem inv_put {s : KeyRun} (h : s.Inv) {g : Grant} {d : VirtualKeyDef} {n' : Node}
    {log : List Edit} (hstate : n'.snapshot.state = s.node.snapshot.state.apply (.putVirtualKey d))
    (hself : inScope g d = true)
    (hothers : ∀ e ∈ s.exposed, e.2 = d.id → inScope e.1 d = true)
    (hlog : OwnTeamsOnly log) : KeyRun.Inv ⟨n', (g, d.id) :: s.exposed, log⟩ := by
  have hkeys : ∀ e, (KeyRun.mk n' e log).keys = s.keys.insert d.id d := by
    intro e
    rw [KeyRun.keys, hstate]
    rfl
  refine ⟨⟨?_, hlog⟩, ?_, ?_⟩
  · intro e he d' hd'
    rw [hkeys, OrdMap.get?_insert] at hd'
    rcases List.mem_cons.mp he with rfl | hin
    · rw [if_pos rfl] at hd'
      injection hd' with hd'
      exact hd' ▸ inScope_iff.mp hself
    · split at hd'
      next heq =>
        injection hd' with hd'
        exact hd' ▸ inScope_iff.mp (hothers e hin heq)
      next => exact h.scope.exposed e hin d' hd'
  · rw [hkeys]
    exact indexed_insert h.indexed d
  · intro e he
    rw [hkeys, OrdMap.get?_insert]
    rcases List.mem_cons.mp he with rfl | hin
    · simp
    · split
      · rfl
      · exact h.present e hin

/-- Deleting a key, and forgetting who was exposed to it, keeps it too. -/
theorem inv_delete {s : KeyRun} (h : s.Inv) {id : String} {n' : Node} {log : List Edit}
    (hstate : n'.snapshot.state = s.node.snapshot.state.apply (.deleteVirtualKey id))
    (hlog : OwnTeamsOnly log) :
    KeyRun.Inv ⟨n', s.exposed.filter (fun e => e.2 ≠ id), log⟩ := by
  have hkeys : ∀ e, (KeyRun.mk n' e log).keys = s.keys.erase id := by
    intro e
    rw [KeyRun.keys, hstate]
    rfl
  have hkeep : ∀ e ∈ s.exposed.filter (fun e => e.2 ≠ id),
      e ∈ s.exposed ∧ (s.keys.erase id).get? e.2 = s.keys.get? e.2 := by
    intro e he
    obtain ⟨hin, hne⟩ := List.mem_filter.mp he
    rw [OrdMap.get?_erase, if_neg (by simpa using hne)]
    exact ⟨hin, rfl⟩
  refine ⟨⟨?_, hlog⟩, ?_, ?_⟩
  · intro e he d hd
    obtain ⟨hin, hsame⟩ := hkeep e he
    rw [hkeys, hsame] at hd
    exact h.scope.exposed e hin d hd
  · rw [hkeys]
    exact indexed_erase h.indexed id
  · intro e he
    obtain ⟨hin, hsame⟩ := hkeep e he
    rw [hkeys, hsame]
    exact h.present e hin

/-- A step that leaves the keys and both logs alone keeps the invariant. -/
theorem KeyRun.Inv.of_same {s s' : KeyRun} (h : s.Inv) (hkeys : s'.keys = s.keys)
    (hexposed : s'.exposed = s.exposed) (hedited : s'.edited = s.edited) : s'.Inv where
  scope := ⟨by rw [hexposed, hkeys]; exact h.scope.exposed, by rw [hedited]; exact h.scope.edited⟩
  indexed := by rw [hkeys]; exact h.indexed
  present := by rw [hexposed, hkeys]; exact h.present

/-- A call that touches no virtual key leaves both logs alone. -/
theorem logs_of_no_key (s : KeyRun) (g : Grant) (userId : String) {call : Call}
    (h : call.keyId = none) :
    s.exposedAfter g call = s.exposed ∧ s.editedAfter userId call = s.edited := by
  constructor
  · cases call <;> first | rfl | simp [Call.keyId] at h
  · unfold KeyRun.editedAfter
    rw [h]
    rfl

/-- The command of a call that touches no virtual key touches none either. -/
theorem keys_of_no_key {P : Platform} {n : Node} {nowMs : Nat} {authz : Authz} {call : Call}
    {c : Command} {reply : Reply} (h : call.keyId = none)
    (hc : Commits P n nowMs authz c reply call) :
    (n.snapshot.state.apply c).virtualKeys = n.snapshot.state.virtualKeys := by
  cases call with
  | look | getConfig | putCredentialFile | putCredentialFiles => exact hc.elim
  | putConfig | editDocument | putSecret | deleteUser | deleteTeam =>
    obtain ⟨rfl, _⟩ := hc
    rfl
  | createUser | updateUser | putTeam | putTeamById =>
    obtain ⟨⟨d, rfl⟩, _⟩ := hc
    rfl
  | createKey | updateKey | rotateKey | deleteKey => simp [Call.keyId] at h

/-- The invariant after a command landed, call by call. -/
theorem inv_of_commits {P : Platform} {s : KeyRun} {n' : Node} {a : MemberRequest} {c : Command}
    {reply : Reply} (h : s.Inv) (hok : checkedEdits s a)
    (hc : Commits P s.node a.nowMs (s.authz a.userId) c reply a.call)
    (hstate : n'.snapshot.state = s.node.snapshot.state.apply c) :
    KeyRun.Inv ⟨n', s.exposedAfter (s.authz a.userId).grant a.call,
      s.editedAfter a.userId a.call⟩ := by
  obtain ⟨userId, nowMs, call⟩ := a
  obtain ⟨⟨hmember, -, hscoped⟩, hguard⟩ := hok
  cases hid : call.keyId with
  | none =>
    obtain ⟨hexp, hed⟩ := logs_of_no_key s (s.authz userId).grant userId hid
    refine h.of_same ?_ hexp hed
    rw [KeyRun.keys, hstate, keys_of_no_key hid hc]
    rfl
  | some id =>
    have hlog : (∀ d, s.keys.get? id = some d → teamInGrant (s.authz userId).grant d = true) →
        OwnTeamsOnly (s.editedAfter userId call) := by
      intro hteam
      refine edited_step h.scope hmember ?_
      intro id' d hid' hd
      rw [hid] at hid'
      injection hid' with hid'
      exact hteam d (hid' ▸ hd)
    cases call with
    | createKey input drawn =>
      obtain ⟨rfl, hscope, _⟩ := hc
      obtain ⟨hne, hall⟩ := hscope hscoped
      obtain rfl : drawn.id = id := by simpa [Call.keyId] using hid
      have hfresh : s.keys.get? drawn.id = none := hguard
      have hself : inScope (s.authz userId).grant
          (createdDef P nowMs (s.authz userId) input drawn) = true := by
        simp [inScope, createdDef, hne, hall]
      refine inv_put h hstate hself ?_ (hlog ?_)
      · intro e he heq
        have hpresent := h.present e he
        rw [show e.2 = drawn.id from heq, hfresh] at hpresent
        cases hpresent
      · intro d hd
        rw [hfresh] at hd
        cases hd
    | updateKey id' input =>
      obtain rfl : id' = id := by simpa [Call.keyId] using hid
      obtain ⟨d, hd, rfl, _⟩ := hc
      obtain ⟨hteam, hself, hothers⟩ := hguard d hd
      have hdid : (input.applyTo d).id = id' := h.indexed id' d hd
      have hinv := inv_put h hstate hself (fun e he heq => hothers e he (heq.trans hdid))
        (hlog fun d' hd' => by
          rw [show s.keys.get? id' = some d from hd] at hd'
          injection hd' with hd'
          exact hd' ▸ hteam)
      rw [hdid] at hinv
      exact hinv
    | rotateKey id' secret =>
      obtain rfl : id' = id := by simpa [Call.keyId] using hid
      obtain ⟨d, hd, rfl, _⟩ := hc
      obtain ⟨hteam, hself⟩ := hguard d hd
      have hdid : (rotatedDef P nowMs secret d).id = id' := h.indexed id' d hd
      -- Rotation leaves the allowlist alone, so whoever was covered still is.
      have hothers : ∀ e ∈ s.exposed, e.2 = (rotatedDef P nowMs secret d).id →
          inScope e.1 (rotatedDef P nowMs secret d) = true := by
        intro e he heq
        have hin : inScope e.1 d = true :=
          inScope_iff.mpr (h.scope.exposed e he d (by rw [heq, hdid]; exact hd))
        exact hin
      have hinv := inv_put h hstate hself hothers
        (hlog fun d' hd' => by
          rw [show s.keys.get? id' = some d from hd] at hd'
          injection hd' with hd'
          exact hd' ▸ hteam)
      rw [hdid] at hinv
      exact hinv
    | deleteKey id' =>
      obtain rfl : id' = id := by simpa [Call.keyId] using hid
      obtain ⟨rfl, _⟩ := hc
      exact inv_delete h hstate (hlog hguard)
    | _ => simp [Call.keyId] at hid

/-- One checked request keeps the invariant, refused or not. -/
theorem inv_step {P : Platform} {s s' : KeyRun} {a : MemberRequest} (h : s.Inv)
    (hok : checkedEdits s a) (hs : (keyRuns P).step s a s') : s'.Inv := by
  have hnext : s.next P a = some s' := hs
  unfold KeyRun.next at hnext
  dsimp only at hnext
  have hsame : ∀ n', n'.snapshot = s.node.snapshot → KeyRun.Inv { s with node := n' } := by
    intro n' hn'
    refine h.of_same ?_ rfl rfl
    rw [KeyRun.keys, KeyRun.keys, hn']
  rcases authorised_cases P s.node a.nowMs (s.authz a.userId) a.call with
    ⟨e, -, hrun⟩ | ⟨-, hrun⟩
  · rw [hrun] at hnext
    injection hnext with hnext
    exact hnext ▸ h
  · rw [hrun] at hnext
    rcases handler_cases P s.node a.nowMs (s.authz a.userId) a.call with
      ⟨hkeep, files, outcome, hstep, -⟩ | ⟨-, hland⟩
    · have hnone : a.call.keyId = none := by
        cases hcall : a.call <;> first | rfl | simp [hcall, Call.keepsDocument] at hkeep
      obtain ⟨hexp, hed⟩ := logs_of_no_key s (s.authz a.userId).grant a.userId hnone
      rw [hstep, hexp, hed] at hnext
      cases outcome <;> injection hnext with hnext <;> exact hnext ▸ hsame _ rfl
    · rcases hland.alone with ⟨hag, e, he⟩ | ⟨c, v, reply, hc, hag, hr⟩
      · rw [he] at hnext
        injection hnext with hnext
        exact hnext ▸ hsame _ hag.snapshot
      · rw [hr] at hnext
        injection hnext with hnext
        have hstate := congrArg Snapshot.state hag.snapshot
        rw [landed_snapshot] at hstate
        exact hnext ▸ inv_of_commits h hok hc hstate

/-- **Scoped members stay inside their grants** over every sequence of
requests whose key edits pass the check `create_key` makes. -/
theorem keys_in_scope (P : Platform) {s : KeyRun} (h : Reach (keyRuns P) checkedEdits s) :
    KeysInScope s := by
  have hinv : s.Inv := by
    refine h.invariant (I := KeyRun.Inv) ?_ ?_
    · rintro s ⟨hidx, hexp, hed⟩
      refine ⟨⟨?_, ?_⟩, hidx, ?_⟩
      · rw [hexp]
        exact fun e he => absurd he List.not_mem_nil
      · rw [hed]
        exact fun e he => absurd he List.not_mem_nil
      · rw [hexp]
        exact fun e he => absurd he List.not_mem_nil
    · intro s a s' hI hok hs
      exact inv_step hI hok hs
  exact hinv.scope

/-! ## Two runs -/

instance (authz : Authz) : Decidable (ScopedMember authz) :=
  inferInstanceAs (Decidable (_ ∧ _ ∧ _))

instance (s : KeyRun) (a : MemberRequest) : Decidable (scopedMembers s a) :=
  inferInstanceAs (Decidable (ScopedMember _))

instance (s : KeyRun) (a : MemberRequest) : Decidable (checkedEdits s a) := by
  obtain ⟨userId, nowMs, call⟩ := a
  cases call <;> unfold checkedEdits <;> dsimp only <;> infer_instance

/-- A gateway where `u_1` may manage keys for `openai/gpt-4o`, and another
team's key calls `anthropic/claude`. -/
def twoTeams : KeyRun where
  node :=
    { signer := .pinned ⟨"u_1", 3600000, 7⟩
        "cs1.eyJzIjoidV8xIiwiZSI6MzYwMDAwMCwibiI6N30.Qw5JgKCdoG7AB5a3Eq1ShDo4o9ZzjcH8f5r4ZiyukSk" rfl
      fileManaged := false
      env := fun _ => none
      files := .empty
      dataDir := none
      config := ⟨⟨["bootstrap"], 3600000⟩, [], []⟩
      appliedText := none
      snapshot := ⟨{ StoreState.default with
        teams := OrdMap.empty.insert "t_1"
          ⟨"t_1", "apps", {"u_1"}, {"openai/gpt-4o"}, .keys, 0⟩
        virtualKeys := OrdMap.empty.insert "00ff00"
          ⟨"00ff00", "slack", "blake3:00", none, ["anthropic/claude"], none, none, none, none,
            OrdMap.empty.insert "team" "t_2", true, 0⟩ }, 1⟩
      sessions := .empty }
  exposed := []
  edited := []

/-- The digests of the two secrets drawn below. -/
def drawnDigest (secret : String) : String :=
  if secret = "0123456789ABCDEFGHIJKLMNOP" then
    "blake3:e081f3733c4cb6090f38088bf5466bdcd933082a8bbdbd2d87716ddbdaf8f211"
  else "blake3:ceb38bc8796807602f1703bb609b8f45b8262a7a34e6e608e32804204bbd91d8"

def keyPlatform : Platform where
  parser := ⟨fun _ => .error "no document", fun _ => []⟩
  hashSecret := drawnDigest
  hashPassword _ _ := ""
  verifyPassword _ _ := false
  isJson _ := false

theorem twoTeams_start : (keyRuns keyPlatform).init twoTeams := by
  refine ⟨?_, rfl, rfl⟩
  intro id d hd
  have hget : (if id = "00ff00" then _ else none) = some d := hd
  split at hget
  next he =>
    injection hget with hget
    rw [← hget, he]
  next => cases hget

/-- A member creates a key, renames it and rotates it. -/
def ownKeyTrace : List MemberRequest :=
  [⟨"u_1", 1000, .createKey ⟨"ci", ["openai/gpt-4o"], none, none, none, none, .empty⟩
      ⟨"0a1b2c", "0123456789ABCDEFGHIJKLMNOP"⟩⟩,
    ⟨"u_1", 2000, .updateKey "0a1b2c" ⟨some "ci-2", none, none, none, none, none, none, none⟩⟩,
    ⟨"u_1", 3000, .rotateKey "0a1b2c" "QRSTUVWXYZabcdefghijklmnop"⟩]

theorem keys_in_scope_own_key : ∃ s, Reach (keyRuns keyPlatform) checkedEdits s ∧
    s.exposed.map (·.2) = ["0a1b2c", "0a1b2c", "0a1b2c"] ∧ s.edited.length = 2 ∧
      KeysInScope s := by
  have hreach := Reach.of_trace checkedEdits (KeyRun.next keyPlatform) twoTeams_start ownKeyTrace
    (by decide) (by decide)
  exact ⟨_, hreach, by decide, by decide, keys_in_scope keyPlatform hreach⟩

/-- **One rotation crosses teams.** The key is tagged with a team `u_1` is not
in and opens a model `u_1` was not granted; `rotate_key` hands `u_1` its new
secret. -/
theorem rotate_crosses_teams :
    ¬ ∀ s, Reach (keyRuns keyPlatform) scopedMembers s → KeysInScope s := by
  intro h
  have hreach := Reach.of_trace scopedMembers (KeyRun.next keyPlatform) twoTeams_start
    [⟨"u_1", 1000, .rotateKey "00ff00" "QRSTUVWXYZabcdefghijklmnop"⟩] (by decide) (by decide)
  obtain ⟨hexposed, -⟩ := h _ hreach
  have hin := inScope_iff.mpr (hexposed _ List.mem_cons_self _ rfl)
  exact absurd hin (by decide)

end RapidRouter.Server
