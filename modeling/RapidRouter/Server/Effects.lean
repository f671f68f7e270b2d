import RapidRouter.Server.Admin

/-!
# What a request can do to the document

One inversion for all handlers: `Commits` says, call by call, which command a
request commits when it succeeds and what was checked first, and
`handler_cases` that a request either leaves the document as it was or lands
exactly such a command. Results about runs of requests argue from the
command and never open a handler again.
-/

namespace RapidRouter.Server

open RapidRouter.Core Store

/-- Calls that leave the document alone whatever they answer. -/
def Call.keepsDocument : Call → Bool
  | .look _ _ | .getConfig | .putCredentialFile _ _ | .putCredentialFiles _ => true
  | _ => false

/-- The command a successful call commits, what its handler checked first,
and what it answers. -/
def Commits (P : Platform) (n : Node) (nowMs : Nat) (authz : Authz) (command : Command)
    (reply : Reply) : Call → Prop
  | .look _ _ | .getConfig | .putCredentialFile _ _ | .putCredentialFiles _ => False
  | .putConfig _ text | .editDocument _ text =>
    command = .putConfig text ∧ (∃ config, Config.fromStr P.parser n.sources text = .ok config) ∧
      reply.reveals = []
  | .createKey input drawn =>
    command = .putVirtualKey (createdDef P nowMs authz input drawn) ∧
      (authz.grant.models.isSome →
        input.models ≠ [] ∧ authz.grant.allowsModels input.models = true) ∧
      ∃ v, reply = .key drawn.full v
  | .updateKey id input =>
    ∃ d, n.snapshot.state.virtualKeys.get? id = some d ∧
      command = .putVirtualKey (input.applyTo d) ∧ reply.reveals = []
  | .rotateKey id secret =>
    ∃ d, n.snapshot.state.virtualKeys.get? id = some d ∧
      command = .putVirtualKey (rotatedDef P nowMs secret d) ∧
      ∃ v, reply = .key ("ck-" ++ d.id ++ "-" ++ secret) v
  | .deleteKey id => command = .deleteVirtualKey id ∧ reply.reveals = []
  | .putSecret name value =>
    command = .putSecret (Text.trim name) (Text.trim value) ∧ reply.reveals = []
  | .createUser _ _ _ | .updateUser _ _ _ => (∃ d, command = .putUser d) ∧ reply.reveals = []
  | .deleteUser id => command = .deleteUser id ∧ reply.reveals = []
  | .putTeam _ _ | .putTeamById _ _ => (∃ d, command = .putTeam d) ∧ reply.reveals = []
  | .deleteTeam id => command = .deleteTeam id ∧ reply.reveals = []

/-- The two nodes agree on everything but the session cache, from which
entries may have been revoked. -/
structure Agrees (n n' : Node) : Prop where
  signer : n'.signer = n.signer
  fileManaged : n'.fileManaged = n.fileManaged
  env : n'.env = n.env
  files : n'.files = n.files
  dataDir : n'.dataDir = n.dataDir
  config : n'.config = n.config
  appliedText : n'.appliedText = n.appliedText
  snapshot : n'.snapshot = n.snapshot
  sessions : ∀ t s, n'.sessions.get? t = some s → n.sessions.get? t = some s

theorem Agrees.refl (n : Node) : Agrees n n :=
  ⟨rfl, rfl, rfl, rfl, rfl, rfl, rfl, rfl, fun _ _ h => h⟩

/-- The node with a new copy of the document, once a command has landed: a
new configuration too, when that is what was committed. -/
def landed (P : Platform) (n : Node) (c : Command) (snap : Snapshot) : Node :=
  match c with
  | .putConfig _ => { n with snapshot := snap }.adoptStoreState P
  | _ => { n with snapshot := snap }

/-- Adopting a document changes the configuration and nothing else. -/
theorem adoptStoreState_frame (P : Platform) (n : Node) :
    n.adoptStoreState P =
      { n with
        config := (n.adoptStoreState P).config
        appliedText := (n.adoptStoreState P).appliedText } := by
  unfold Node.adoptStoreState
  split
  · rfl
  · split
    · rfl
    · split <;> rfl

/-- Adopting does not read the session cache. -/
theorem adoptStoreState_sessions (P : Platform) (n : Node) (m : OrdMap String Session) :
    { n with sessions := m }.adoptStoreState P = { n.adoptStoreState P with sessions := m } := by
  unfold Node.adoptStoreState
  dsimp only
  split
  · rfl
  · split
    · rfl
    · have hsrc : Node.sources { n with sessions := m } = n.sources := rfl
      rw [hsrc]
      split <;> rfl

theorem landed_frame (P : Platform) (n : Node) (c : Command) (snap : Snapshot) :
    landed P n c snap =
      { n with
        snapshot := snap
        config := (landed P n c snap).config
        appliedText := (landed P n c snap).appliedText } := by
  unfold landed
  split
  · rw [adoptStoreState_frame]
  · rfl

@[simp] theorem landed_snapshot (P : Platform) (n : Node) (c : Command) (snap : Snapshot) :
    (landed P n c snap).snapshot = snap := by rw [landed_frame]

theorem Agrees.eq {n n' : Node} (h : Agrees n n') : n' = { n with sessions := n'.sessions } := by
  obtain ⟨h1, h2, h3, h4, h5, h6, h7, h8, -⟩ := h
  cases n'
  simp_all

/-- Nodes that agree still do once the same command has landed on both. -/
theorem Agrees.landed {n n' : Node} (h : Agrees n n') (P : Platform) (c : Command)
    (snap : Snapshot) : Agrees (landed P n c snap) (Server.landed P n' c snap) := by
  have hsessions : ∀ t s, n'.sessions.get? t = some s → n.sessions.get? t = some s := h.sessions
  have hlanded : Server.landed P n' c snap =
      { Server.landed P n c snap with sessions := n'.sessions } := by
    rw [h.eq]
    unfold Server.landed
    split
    · exact adoptStoreState_sessions P { n with snapshot := snap } n'.sessions
    · rfl
  have hsame : (Server.landed P n c snap).sessions = n.sessions := by rw [landed_frame]
  rw [hlanded]
  exact ⟨rfl, rfl, rfl, rfl, rfl, rfl, rfl, rfl, fun t s hs => hsame ▸ hsessions t s hs⟩

/-- A handler whose command and answer meet `Q`: it refuses, or commits one
such command and then gives one such answer. -/
def Lands (P : Platform) (n : Node) (Q : Command → Reply → Prop) (s : Step) : Prop :=
  (∃ e, s = .answer n (.error e)) ∨
    ∃ n' refused expect c reply, s = .commit n' refused expect c reply ∧ Agrees n n' ∧
      ∀ snap, ∃ x, reply { n' with snapshot := snap } = (landed P n' c snap, .ok x) ∧ Q c x

theorem lands_fail {P : Platform} {n : Node} {Q : Command → Reply → Prop} (status : Nat)
    (message : String) : Lands P n Q (fail n status message) := Or.inl ⟨_, rfl⟩

theorem lands_writable {P : Platform} {n : Node} {Q : Command → Reply → Prop} {s : Step}
    (h : Lands P n Q s) : Lands P n Q (writable n s) := by
  unfold writable
  split
  · exact lands_fail _ _
  · exact h

theorem lands_commit {P : Platform} {n : Node} {Q : Command → Reply → Prop} {c : Command}
    (refused : CommitError → ApiError) (expect : Option Nat) (reply : Node → Node × Outcome)
    (hreply : ∀ snap, ∃ x, reply { n with snapshot := snap } = (landed P n c snap, .ok x) ∧
      Q c x) : Lands P n Q (.commit n refused expect c reply) :=
  Or.inr ⟨n, refused, expect, c, reply, rfl, Agrees.refl n, hreply⟩

/-- What carrying such a step out does, against any authoritative document:
it leaves the node its copy or the fresh one, or lands one command on one of
the two, and then the node holds what the document became. -/
theorem Lands.run {P : Platform} {n : Node} {Q : Command → Reply → Prop} {s : Step}
    (h : Lands P n Q s) (doc : Snapshot) (up : Bool) :
    (∃ kept e, (kept = n.snapshot ∨ kept = doc) ∧
        Agrees { n with snapshot := kept } (s.run doc up).1.1 ∧
        (s.run doc up).1.2 = .error e ∧ (s.run doc up).2 = doc) ∨
      ∃ base v c x, (base = n.snapshot ∨ base = doc) ∧ Q c x ∧
        Agrees (landed P n c ⟨base.state.apply c, v⟩) (s.run doc up).1.1 ∧
        (s.run doc up).1.2 = .ok x ∧ (s.run doc up).2 = ⟨base.state.apply c, v⟩ := by
  rcases h with ⟨e, rfl⟩ | ⟨n', refused, expect, c, reply, rfl, hag, hreply⟩
  · exact Or.inl ⟨n.snapshot, e, Or.inl rfl, Agrees.refl n, rfl, rfl⟩
  · rcases commit_cases n'.snapshot doc up expect c with
      ⟨e, kept, hkept, hcommit⟩ | ⟨base, v, hbase, hcommit⟩
    · have hrun : (Step.commit n' refused expect c reply).run doc up =
          (({ n' with snapshot := kept }, .error (refused e)), doc) := by
        simp only [Step.run, hcommit]
      rw [hrun]
      refine Or.inl ⟨kept, refused e, hag.snapshot ▸ hkept, ?_, rfl, rfl⟩
      exact { hag with snapshot := rfl }
    · obtain ⟨x, hx, hQ⟩ := hreply ⟨base.state.apply c, v⟩
      have hrun : (Step.commit n' refused expect c reply).run doc up =
          ((landed P n' c ⟨base.state.apply c, v⟩, .ok x), ⟨base.state.apply c, v⟩) := by
        simp only [Step.run, hcommit, hx]
      rw [hrun]
      exact Or.inr ⟨base, v, c, x, hag.snapshot ▸ hbase, hQ, hag.landed P c _, rfl, rfl⟩

/-- On the only node of its store. -/
theorem Lands.alone {P : Platform} {n : Node} {Q : Command → Reply → Prop} {s : Step}
    (h : Lands P n Q s) :
    (Agrees n (s.alone n).1 ∧ ∃ e, (s.alone n).2 = .error e) ∨
      ∃ c v x, Q c x ∧ Agrees (landed P n c ⟨n.snapshot.state.apply c, v⟩) (s.alone n).1 ∧
        (s.alone n).2 = .ok x := by
  rcases h.run n.snapshot true with
    ⟨kept, e, hkept, hag, hout, -⟩ | ⟨base, v, c, x, hbase, hQ, hag, hout, -⟩
  · obtain rfl : kept = n.snapshot := hkept.elim id id
    exact Or.inl ⟨hag, e, hout⟩
  · obtain rfl : base = n.snapshot := hbase.elim id id
    exact Or.inr ⟨c, v, x, hQ, hag, hout⟩

/-! ## Handler by handler -/

section
variable (P : Platform) (n : Node) (nowMs : Nat) (authz : Authz)

theorem commitDocument_lands (refused : CommitError → ApiError) (version : Nat) (text : String) :
    Lands P n (Commits P n nowMs authz · · (.putConfig version text))
      (commitDocument P refused n version text) := by
  unfold commitDocument
  split
  · exact lands_fail _ _
  · next config hconfig =>
    refine lands_commit _ _ _ ?_
    intro snap
    exact ⟨_, rfl, rfl, ⟨config, hconfig⟩, rfl⟩

theorem createKey_lands (input : KeyInput) (drawn : GeneratedKey) :
    Lands P n (Commits P n nowMs authz · · (.createKey input drawn))
      (createKey P n nowMs authz input drawn) := by
  refine lands_writable ?_
  split
  · exact lands_fail _ _
  · split
    · exact lands_fail _ _
    · next hne =>
      split
      · exact lands_fail _ _
      · next hout =>
        have hscope : authz.grant.models.isSome →
            input.models ≠ [] ∧ authz.grant.allowsModels input.models = true := by
          intro hsome
          exact ⟨fun he => hne ⟨hsome, he⟩, by simpa using fun hf => hout ⟨hsome, hf⟩⟩
        split
        · exact lands_fail _ _
        · refine lands_commit _ _ _ ?_
          intro snap
          exact ⟨_, rfl, rfl, hscope, _, rfl⟩

theorem updateKey_lands (id : String) (input : KeyUpdate) :
    Lands P n (Commits P n nowMs authz · · (.updateKey id input)) (updateKey n id input) := by
  refine lands_writable ?_
  split
  · exact lands_fail _ _
  · next d hd =>
    split
    · exact lands_fail _ _
    · refine lands_commit _ _ _ ?_
      intro snap
      exact ⟨_, rfl, d, hd, rfl, rfl⟩

theorem rotateKey_lands (id secret : String) :
    Lands P n (Commits P n nowMs authz · · (.rotateKey id secret))
      (rotateKey P n nowMs id secret) := by
  refine lands_writable ?_
  split
  · exact lands_fail _ _
  · next d hd =>
    refine lands_commit _ _ _ ?_
    intro snap
    exact ⟨_, rfl, d, hd, rfl, _, rfl⟩

theorem deleteKey_lands (id : String) :
    Lands P n (Commits P n nowMs authz · · (.deleteKey id)) (deleteKey n id) := by
  refine lands_writable (lands_commit _ _ _ ?_)
  intro snap
  exact ⟨_, rfl, rfl, rfl⟩

theorem putSecret_lands (name value : String) :
    Lands P n (Commits P n nowMs authz · · (.putSecret name value))
      (putSecret n name value) := by
  refine lands_writable ?_
  split
  · exact lands_fail _ _
  · split
    · exact lands_fail _ _
    · refine lands_commit _ _ _ ?_
      intro snap
      exact ⟨_, rfl, rfl, rfl⟩

theorem createUser_lands (input : UserWrite) (id salt : String) :
    Lands P n (Commits P n nowMs authz · · (.createUser input id salt))
      (createUser P n nowMs input id salt) := by
  refine lands_writable ?_
  dsimp only
  split
  · exact lands_fail _ _
  · split
    · exact lands_fail _ _
    · split
      · exact lands_fail _ _
      · split
        · exact lands_fail _ _
        · refine lands_commit _ _ _ ?_
          intro snap
          exact ⟨_, rfl, ⟨_, rfl⟩, rfl⟩

theorem updateUser_lands (id : String) (input : UserWrite) (salt : String) :
    Lands P n (Commits P n nowMs authz · · (.updateUser id input salt))
      (updateUser P n id input salt) := by
  refine lands_writable ?_
  split
  · exact lands_fail _ _
  · split
    · exact lands_fail _ _
    · split
      · exact lands_fail _ _
      · refine lands_commit _ _ _ ?_
        intro snap
        exact ⟨_, rfl, ⟨_, rfl⟩, rfl⟩

/-- Deleting a user drops this node's cached sessions of theirs, whether or
not the commit lands. -/
theorem deleteUser_lands (id : String) :
    Lands P n (Commits P n nowMs authz · · (.deleteUser id)) (deleteUser n id) := by
  refine lands_writable ?_
  have hrevoked : ∀ t s,
      (n.sessions.retain fun _ s => s.principal ≠ .user id).get? t = some s →
        n.sessions.get? t = some s := by
    intro t s hs
    rw [OrdMap.get?_retain] at hs
    exact (Option.filter_eq_some_iff.mp hs).1
  refine Or.inr ⟨_, _, _, _, _, rfl, ⟨rfl, rfl, rfl, rfl, rfl, rfl, rfl, rfl, hrevoked⟩, ?_⟩
  intro snap
  exact ⟨_, rfl, rfl, rfl⟩

theorem deleteTeam_lands (id : String) :
    Lands P n (Commits P n nowMs authz · · (.deleteTeam id)) (deleteTeam n id) := by
  refine lands_writable (lands_commit _ _ _ ?_)
  intro snap
  exact ⟨_, rfl, rfl, rfl⟩

theorem upsertTeam_lands (id : Option String) (drawn : String) (input : TeamWrite) :
    Lands P n (fun c reply => (∃ d, c = .putTeam d) ∧ reply.reveals = [])
      (upsertTeam n nowMs id drawn input) := by
  refine lands_writable ?_
  split
  · exact lands_fail _ _
  · split
    · exact lands_fail _ _
    · split
      · exact lands_fail _ _
      · refine lands_commit _ _ _ ?_
        intro snap
        exact ⟨_, rfl, ⟨_, rfl⟩, rfl⟩

/-- What a call that keeps the document may show of it. -/
def Call.shows (n : Node) : Call → List String
  | .getConfig => [n.snapshot.state.configText.getD ""]
  | _ => []

/-- A call that keeps the document answers at once and changes at most the
stored files. -/
def Keeps (n : Node) (call : Call) (s : Step) : Prop :=
  ∃ files outcome, s = .answer { n with files := files } outcome ∧
    ∀ reply, outcome = .ok reply → reply.reveals = call.shows n

theorem keeps_fail {n : Node} {call : Call} (status : Nat) (message : String) :
    Keeps n call (fail n status message) :=
  ⟨n.files, _, rfl, fun _ h => by cases h⟩

theorem keeps_ok {n : Node} {call : Call} (files : OrdMap String String) {reply : Reply}
    (h : reply.reveals = call.shows n) :
    Keeps n call (.answer { n with files := files } (.ok reply)) := by
  refine ⟨files, _, rfl, fun reply' h' => ?_⟩
  injection h' with h'
  exact h' ▸ h

theorem putCredentialFile_keeps (name content : String) :
    Keeps n (.putCredentialFile name content) (putCredentialFile P n name content) := by
  unfold putCredentialFile writable
  split
  · exact keeps_fail _ _
  · split
    · exact keeps_fail _ _
    · split
      · exact keeps_fail _ _
      · split
        · exact keeps_fail _ _
        · exact keeps_ok _ rfl

theorem putCredentialFiles_keeps (files : List (String × String)) :
    Keeps n (.putCredentialFiles files) (putCredentialFiles P n files) := by
  unfold putCredentialFiles writable
  split
  · exact keeps_fail _ _
  · split
    · exact keeps_fail _ _
    · exact keeps_ok _ rfl

/-- **What a request does.** A call of the reading kind keeps the document;
any other is refused and leaves the node as it is, or lands one command of
the call's own. -/
theorem handler_cases (call : Call) :
    (call.keepsDocument = true ∧ Keeps n call (handler P n nowMs authz call)) ∨
      (call.keepsDocument = false ∧
        Lands P n (Commits P n nowMs authz · · call) (handler P n nowMs authz call)) := by
  cases call with
  | look method path => exact Or.inl ⟨rfl, keeps_ok n.files rfl⟩
  | getConfig => exact Or.inl ⟨rfl, keeps_ok n.files rfl⟩
  | putCredentialFile name content =>
    exact Or.inl ⟨rfl, putCredentialFile_keeps P n name content⟩
  | putCredentialFiles files => exact Or.inl ⟨rfl, putCredentialFiles_keeps P n files⟩
  | putConfig version text =>
    exact Or.inr ⟨rfl, lands_writable (commitDocument_lands P n nowMs authz _ version text)⟩
  | editDocument route text =>
    exact Or.inr ⟨rfl, lands_writable (commitDocument_lands P n nowMs authz _ _ text)⟩
  | createKey input drawn => exact Or.inr ⟨rfl, createKey_lands P n nowMs authz input drawn⟩
  | updateKey id input => exact Or.inr ⟨rfl, updateKey_lands P n nowMs authz id input⟩
  | rotateKey id secret => exact Or.inr ⟨rfl, rotateKey_lands P n nowMs authz id secret⟩
  | deleteKey id => exact Or.inr ⟨rfl, deleteKey_lands P n nowMs authz id⟩
  | putSecret name value => exact Or.inr ⟨rfl, putSecret_lands P n nowMs authz name value⟩
  | createUser input id salt =>
    exact Or.inr ⟨rfl, createUser_lands P n nowMs authz input id salt⟩
  | updateUser id input salt =>
    exact Or.inr ⟨rfl, updateUser_lands P n nowMs authz id input salt⟩
  | deleteUser id => exact Or.inr ⟨rfl, deleteUser_lands P n nowMs authz id⟩
  | putTeam input drawn => exact Or.inr ⟨rfl, upsertTeam_lands P n nowMs none drawn input⟩
  | putTeamById id input => exact Or.inr ⟨rfl, upsertTeam_lands P n nowMs (some id) "" input⟩
  | deleteTeam id => exact Or.inr ⟨rfl, deleteTeam_lands P n nowMs authz id⟩

/-- A failed request leaves the document unchanged. -/
theorem handler_error {call : Call} {e : ApiError} {doc : Snapshot} {up : Bool}
    (h : ((handler P n nowMs authz call).run doc up).1.2 = .error e) :
    ((handler P n nowMs authz call).run doc up).2 = doc := by
  rcases handler_cases P n nowMs authz call with ⟨-, _, _, hs, -⟩ | ⟨-, hs⟩
  · rw [hs]
    rfl
  · rcases hs.run doc up with ⟨_, _, _, _, _, hdoc⟩ | ⟨_, _, _, _, _, _, _, hok, _⟩
    · exact hdoc
    · rw [hok] at h
      cases h

/-! ## The gate -/

/-- The call reaches its handler, or is turned away untouched. -/
theorem authorised_cases (call : Call) :
    (∃ e, enforce authz call.method call.path = .error e ∧
        authorised P n nowMs authz call = .answer n (.error e)) ∨
      (enforce authz call.method call.path = .ok () ∧
        authorised P n nowMs authz call = handler P n nowMs authz call) := by
  unfold authorised
  cases h : enforce authz call.method call.path with
  | error e => exact Or.inl ⟨e, rfl, rfl⟩
  | ok u => exact Or.inr ⟨rfl, rfl⟩

end

/-- Managing users and teams is for admins. -/
theorem enforce_access {authz : Authz} {method : Method} {path : String}
    (hget : method ≠ .get) (hadmin : authz.isAdmin = false)
    (hpath : Text.startsWith "/users" path = true ∨ Text.startsWith "/teams" path = true) :
    ∃ e, enforce authz method path = .error e := by
  unfold enforce
  rw [if_neg (by simp [hget, hadmin]), if_pos (by simpa using hpath)]
  exact ⟨_, rfl⟩

theorem startsWith_append (pre rest : String) : Text.startsWith pre (pre ++ rest) = true := by
  unfold Text.startsWith
  rw [String.toList_append]
  exact List.isPrefixOf_iff_prefix.mpr (List.prefix_append _ _)

/-- **A non-admin commits nothing that manages access**: every handler that
puts or deletes a user or a team sits behind a path the gate keeps for
admins. -/
theorem commits_access {P : Platform} {n : Node} {nowMs : Nat} {authz : Authz} {call : Call}
    {c : Command} {reply : Reply} (hadmin : authz.isAdmin = false)
    (hgate : enforce authz call.method call.path = .ok ())
    (hc : Commits P n nowMs authz c reply call) : c.managesAccess = false := by
  have hblocked : ∀ rest, call.method ≠ .get →
      call.path = "/users" ++ rest ∨ call.path = "/teams" ++ rest → False := by
    intro rest hget hpath
    have hstarts : Text.startsWith "/users" call.path = true ∨
        Text.startsWith "/teams" call.path = true := by
      rcases hpath with hp | hp
      · exact Or.inl (hp ▸ startsWith_append _ _)
      · exact Or.inr (hp ▸ startsWith_append _ _)
    obtain ⟨e, he⟩ := enforce_access hget hadmin hstarts
    rw [he] at hgate
    cases hgate
  have hroot : ∀ s : String, s = s ++ "" := fun s => by simp
  have husers : ∀ t : String, "/users/" ++ t = "/users" ++ ("/" ++ t) := by
    intro t
    rw [← String.append_assoc]
    rfl
  have hteams : ∀ t : String, "/teams/" ++ t = "/teams" ++ ("/" ++ t) := by
    intro t
    rw [← String.append_assoc]
    rfl
  cases call with
  | look | getConfig | putCredentialFile | putCredentialFiles => exact hc.elim
  | putConfig | editDocument | createKey | deleteKey | putSecret =>
    obtain ⟨rfl, _⟩ := hc
    rfl
  | updateKey | rotateKey =>
    obtain ⟨_, _, rfl, _⟩ := hc
    rfl
  | createUser => exact (hblocked "" (by simp [Call.method]) (Or.inl (hroot _))).elim
  | updateUser id => exact (hblocked ("/" ++ id) (by simp [Call.method]) (Or.inl (husers id))).elim
  | deleteUser id => exact (hblocked ("/" ++ id) (by simp [Call.method]) (Or.inl (husers id))).elim
  | putTeam => exact (hblocked "" (by simp [Call.method]) (Or.inr (hroot _))).elim
  | putTeamById id => exact (hblocked ("/" ++ id) (by simp [Call.method]) (Or.inr (hteams id))).elim
  | deleteTeam id => exact (hblocked ("/" ++ id) (by simp [Call.method]) (Or.inr (hteams id))).elim

end RapidRouter.Server
