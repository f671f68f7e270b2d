import RapidRouter.Lib.Lts
import RapidRouter.Server.Effects

/-!
# Who has access stays above being granted access

`enforce` keeps users and teams for admins, because otherwise "membership in
a `Full` team would be self-escalating". The runs here are everything
non-admin principals can do: log in and send admin requests, with any text
they have come to know (`known`). What an admin could present is
`AdminCredential`: an admin key of the live configuration, a session or a
validly signed token of an admin, an admin's password, the seed of the signing
key. `NoneHeld` says they have none of these.

Users and teams are beyond them in every run. Admin keys are not: they come
from the configuration document, which a `Full` member may rewrite and every
signed-in principal may read. `access_above_grants` is what does hold, over
every run in which no document they write adds an admin key or sends an admin
credential to an upstream, none they read contains one, and no user is called
`a`, the subject `session.rs` keeps for the admin key.
-/

namespace RapidRouter.Server

open RapidRouter.Core Store Lts

/-- Whether the users give this principal the admin role. -/
def isAdminPrincipal (users : OrdMap String UserDef) : Principal → Bool
  | .adminKey => true
  | .user id => (users.get? id).any fun u => u.role = .admin

/-- Presenting this text makes an admin of whoever does. -/
inductive AdminCredential (P : Platform) (n : Node) (x : String) : Prop where
  | key (h : x ∈ n.config.console.adminKeys)
  | session (s : Session) (h : n.sessions.get? x = some s)
      (hadmin : isAdminPrincipal n.snapshot.state.users s.principal = true)
  | token (c : Claims) (h : n.signer.read x = some c)
      (hadmin : isAdminPrincipal n.snapshot.state.users c.principal = true)
  | password (u : UserDef) (h : u ∈ n.snapshot.state.users.values) (hadmin : u.role = .admin)
      (hverify : P.verifyPassword x u.passwordHash = true)
  | seed (h : x = n.signer.seed)

/-- The gateway, and the texts its non-admin principals know. -/
structure Standing where
  node : Node
  known : String → Prop

def Standing.users (s : Standing) : OrdMap String UserDef := s.node.snapshot.state.users

def Standing.teams (s : Standing) : OrdMap String TeamDef := s.node.snapshot.state.teams

/-- They hold no admin credential. -/
def NoneHeld (P : Platform) (s : Standing) : Prop := ∀ x, s.known x → ¬ AdminCredential P s.node x

inductive MemberAct where
  | login (nowMs : Nat) (input : SessionRequest) (nonce : Nat)
  | request (nowMs : Nat) (r : Request) (call : Call)

/-- What an answer lets its reader read off: any part of a document, and the
credentials handed out. -/
def discloses (outcome : Outcome) (x : String) : Prop :=
  match outcome with
  | .ok (.document _ _ _ text) => Text.Occurs x text
  | .ok reply => x ∈ reply.reveals
  | .error _ => False

/-- Whether a call writes the configuration document. -/
def Call.document : Call → Option String
  | .putConfig _ text | .editDocument _ text => some text
  | _ => none

/-- One act. Whoever writes the document also names where its upstream
credentials are sent. -/
def Standing.next (P : Platform) (s : Standing) : MemberAct → Option Standing
  | .login nowMs input nonce =>
    let r := createSession P s.node nowMs input nonce
    some ⟨r.1, fun x => s.known x ∨ discloses r.2 x⟩
  | .request nowMs r call =>
    let out := (serve P s.node nowMs r call).alone s.node
    some ⟨out.1, fun x => s.known x ∨ discloses out.2 x ∨
      call.document.isSome ∧ out.2.isOk ∧ x ∈ out.1.config.upstreamKeys⟩

/-- A control-plane state whose users are stored under their ids, seen by
principals who hold no admin credential. -/
structure Standing.Start (P : Platform) (s : Standing) : Prop where
  indexed : ∀ id u, s.users.get? id = some u → u.id = id
  none_held : NoneHeld P s

def memberRuns (P : Platform) (s₀ : Standing) : System Standing MemberAct :=
  ofNext (fun s => s = s₀ ∧ s.Start P) (Standing.next P)

/-- The act presents only what its author knows. -/
def Presents (s : Standing) : MemberAct → Prop
  | .login _ (.key key) _ => s.known key
  | .login _ (.password _ password) _ => s.known password
  | .login _ .empty _ => True
  | .request _ r _ => ∀ token ∈ r.bearer.or r.cookie, s.known token

/-- What an act must not do for admin access to stay where it is. -/
def LeavesConsole (P : Platform) (s : Standing) : MemberAct → Prop
  | .login nowMs (.password email _) nonce =>
    -- No user carries the admin key's subject, and the fresh token is no
    -- other credential by chance.
    ∀ u ∈ s.users.values.find? fun u => Text.eqIgnoreAsciiCase u.email email,
      u.id ≠ adminKeySubject ∧ ∀ token,
        token = s.node.signer.mint (.user u.id) (nowMs + s.node.config.console.sessionTtlMs) nonce →
          token ∉ s.node.config.console.adminKeys ∧ token ≠ s.node.signer.seed ∧
            s.node.sessions.get? token = none ∧
              ∀ a ∈ s.users.values, P.verifyPassword token a.passwordHash = false
  | .login _ _ _ => True
  | .request _ _ call =>
    match call with
    | .getConfig => ∀ x, Text.Occurs x (s.node.snapshot.state.configText.getD "") →
        ¬ AdminCredential P s.node x
    | .putConfig _ text | .editDocument _ text =>
      ∀ config, Config.fromStr P.parser s.node.sources text = .ok config →
        (∀ key ∈ config.console.adminKeys, key ∈ s.node.config.console.adminKeys) ∧
          ∀ key, key ∈ config.upstreamKeys ∨ key ∈ s.node.config.upstreamKeys →
            ¬ AdminCredential P s.node key
    | .createKey _ drawn => ¬ AdminCredential P s.node drawn.full
    | .rotateKey id secret => ∀ d ∈ s.node.snapshot.state.virtualKeys.get? id,
        ¬ AdminCredential P s.node ("ck-" ++ d.id ++ "-" ++ secret)
    | _ => True

def fromMembers (s : Standing) (a : MemberAct) : Prop := Presents s a

def leavesConsole (P : Platform) (s : Standing) (a : MemberAct) : Prop :=
  fromMembers s a ∧ LeavesConsole P s a

/-! ## What one act preserves -/

theorem resolveAuthz_isAdmin (s : StoreState) (p : Principal) :
    (resolveAuthz s p).isAdmin = isAdminPrincipal s.users p := by cases p <;> rfl

/-- A node with no new admin key and no session its tokens do not prove admits
no new admin. -/
theorem AdminCredential.mono {P : Platform} {n n' : Node} {x : String}
    (hkeys : ∀ k ∈ n'.config.console.adminKeys, k ∈ n.config.console.adminKeys)
    (hsessions : ∀ t s, n'.sessions.get? t = some s → n.sessions.get? t = some s ∨
      ∃ c, n.signer.read t = some c ∧ c.principal = s.principal)
    (hsigner : n'.signer = n.signer)
    (husers : n'.snapshot.state.users = n.snapshot.state.users)
    (h : AdminCredential P n' x) : AdminCredential P n x := by
  cases h with
  | key h => exact .key (hkeys x h)
  | session s h hadmin =>
    rw [husers] at hadmin
    rcases hsessions x s h with hold | ⟨c, hread, hprin⟩
    · exact .session s hold hadmin
    · exact .token c hread (hprin ▸ hadmin)
  | token c h hadmin => exact .token c (hsigner ▸ h) (husers ▸ hadmin)
  | password u h hadmin hverify => exact .password u (husers ▸ h) hadmin hverify
  | seed h => exact .seed (hsigner ▸ h)

/-- A session found by a text that is no admin credential is nobody admin's,
and looking it up admits no new one. -/
theorem sessionPrincipal_standing {P : Platform} {n n' : Node} {nowMs : Nat} {token : String}
    {found : Option Principal} (hrun : sessionPrincipal n nowMs token = (found, n'))
    (htoken : ¬ AdminCredential P n token) :
    (∀ p, found = some p → isAdminPrincipal n.snapshot.state.users p = false) ∧
      n' = { n with sessions := n'.sessions } ∧
        ∀ t s, n'.sessions.get? t = some s → n.sessions.get? t = some s ∨
          ∃ c, n.signer.read t = some c ∧ c.principal = s.principal := by
  have hlive : ∀ t s,
      (n.sessions.retain fun _ session => nowMs ≤ session.expiresMs).get? t = some s →
        n.sessions.get? t = some s := by
    intro t s hs
    rw [OrdMap.get?_retain] at hs
    exact (Option.filter_eq_some_iff.mp hs).1
  unfold sessionPrincipal at hrun
  dsimp only at hrun
  split at hrun
  next session hs =>
    injection hrun with hfound hnode
    subst hfound hnode
    refine ⟨?_, rfl, fun t s h => Or.inl (hlive t s h)⟩
    rintro p ⟨⟩
    exact Bool.eq_false_iff.mpr fun hadmin => htoken (.session session (hlive _ _ hs) hadmin)
  next =>
    split at hrun
    next =>
      injection hrun with hfound hnode
      subst hfound hnode
      exact ⟨(fun p hp => by cases hp), rfl, fun t s h => Or.inl (hlive t s h)⟩
    next principal expiresMs hverify =>
      injection hrun with hfound hnode
      subst hfound hnode
      obtain ⟨c, hread, -, hprin, -⟩ := SessionSigner.verify_eq_some.mp hverify
      refine ⟨?_, rfl, ?_⟩
      · rintro p ⟨⟩
        exact Bool.eq_false_iff.mpr fun hadmin => htoken (.token c hread (hprin ▸ hadmin))
      · intro t s hs
        rw [OrdMap.get?_insert] at hs
        split at hs
        next heq =>
          injection hs with hs
          exact Or.inr ⟨c, heq ▸ hread, by rw [hprin, ← hs]⟩
        next => exact Or.inl (hlive t s hs)

/-- Authenticating with what is no admin credential yields no admin. -/
theorem authenticate_standing {P : Platform} {n n' : Node} {nowMs : Nat} {r : Request}
    {out : Except ApiError Principal} (hrun : authenticate n nowMs r = (out, n'))
    (htoken : ∀ token ∈ r.bearer.or r.cookie, ¬ AdminCredential P n token) :
    (∀ p, out = .ok p → isAdminPrincipal n.snapshot.state.users p = false) ∧
      n' = { n with sessions := n'.sessions } ∧
        ∀ t s, n'.sessions.get? t = some s → n.sessions.get? t = some s ∨
          ∃ c, n.signer.read t = some c ∧ c.principal = s.principal := by
  unfold authenticate at hrun
  split at hrun
  · injection hrun with hout hnode
    subst hout hnode
    exact ⟨(fun p hp => by cases hp), rfl, fun t s h => Or.inl h⟩
  · split at hrun
    next hstatic =>
      -- A static admin key is an admin credential.
      exfalso
      cases hb : r.bearer with
      | none => simp [hb] at hstatic
      | some token =>
        have hin : token ∈ n.config.console.adminKeys := by simpa [hb] using hstatic
        exact htoken token (by simp [hb]) (.key hin)
    next =>
      split at hrun
      next =>
        injection hrun with hout hnode
        subst hout hnode
        exact ⟨(fun p hp => by cases hp), rfl, fun t s h => Or.inl h⟩
      next token htok =>
        have hnot := htoken token htok
        split at hrun
        next principal n'' hsess =>
          injection hrun with hout hnode
          subst hout hnode
          obtain ⟨hprin, hframe⟩ := sessionPrincipal_standing hsess hnot
          exact ⟨fun p hp => hprin p (by injection hp with hp; rw [hp]), hframe⟩
        next n'' hsess =>
          injection hrun with hout hnode
          subst hout hnode
          exact ⟨(fun p hp => by cases hp), (sessionPrincipal_standing hsess hnot).2⟩

theorem occurs_self (x : String) : Text.Occurs x x := List.infix_rfl

/-- Whatever an answer discloses is part of something it reveals. -/
theorem discloses_reveals {reply : Reply} {x : String} (h : discloses (.ok reply) x) :
    ∃ t ∈ reply.reveals, Text.Occurs x t := by
  cases reply with
  | document mode readOnly version text => exact ⟨text, List.mem_singleton.mpr rfl, h⟩
  | _ => exact ⟨x, h, occurs_self x⟩

/-- What the node and its principals look like after one act, against before:
same users and teams, no new way to be an admin, and nothing learnt that is
one. -/
structure Kept (P : Platform) (n n' : Node) (learnt : String → Prop) : Prop where
  users : n'.snapshot.state.users = n.snapshot.state.users
  teams : n'.snapshot.state.teams = n.snapshot.state.teams
  admins : ∀ x, AdminCredential P n' x → AdminCredential P n x
  learnt : ∀ x, learnt x → ¬ AdminCredential P n' x

theorem Kept.of_admins {P : Platform} {n n' : Node} {learnt : String → Prop}
    (husers : n'.snapshot.state.users = n.snapshot.state.users)
    (hteams : n'.snapshot.state.teams = n.snapshot.state.teams)
    (hadmins : ∀ x, AdminCredential P n' x → AdminCredential P n x)
    (hlearnt : ∀ x, learnt x → ¬ AdminCredential P n x) : Kept P n n' learnt :=
  ⟨husers, hteams, hadmins, fun x hx h => hlearnt x hx (hadmins x h)⟩

/-- Adopting a document leaves the live configuration, or puts in its place
the one the document resolves to. -/
theorem adopted_config (P : Platform) (n : Node) (text : String) (v : Nat) :
    (landed P n (.putConfig text) ⟨n.snapshot.state.apply (.putConfig text), v⟩).config = n.config ∨
      Config.fromStr P.parser n.sources text =
        .ok (landed P n (.putConfig text) ⟨n.snapshot.state.apply (.putConfig text), v⟩).config := by
  unfold landed Node.adoptStoreState
  dsimp only [StoreState.apply]
  split
  · exact Or.inl rfl
  · split
    next config hconfig => exact Or.inr hconfig
    next => exact Or.inl rfl

/-- A landed command that manages nobody's access, on a node whose documents
leave the console alone. -/
theorem kept_of_landed {P : Platform} {n n' : Node} {c : Command} {v : Nat}
    {learnt : String → Prop} (hag : Agrees (landed P n c ⟨n.snapshot.state.apply c, v⟩) n')
    (hc : c.managesAccess = false)
    (hkeys : ∀ k ∈ (landed P n c ⟨n.snapshot.state.apply c, v⟩).config.console.adminKeys,
      k ∈ n.config.console.adminKeys)
    (hlearnt : ∀ x, learnt x → ¬ AdminCredential P n x) : Kept P n n' learnt := by
  obtain ⟨husers, hteams⟩ := StoreState.apply_access (s := n.snapshot.state) hc
  have hstate := congrArg Snapshot.state hag.snapshot
  rw [landed_snapshot] at hstate
  refine Kept.of_admins (by rw [hstate, husers]) (by rw [hstate, hteams]) (fun x => ?_) hlearnt
  refine AdminCredential.mono ?_ ?_ ?_ (by rw [hstate, husers])
  · rw [hag.config]
    exact hkeys
  · intro t s hs
    have hold := hag.sessions t s hs
    rw [landed_frame] at hold
    exact Or.inl hold
  · rw [hag.signer, landed_frame]

/-- Commands other than a document leave the configuration. -/
theorem landed_config {P : Platform} {n : Node} {c : Command} {snap : Snapshot}
    (h : ∀ text, c ≠ .putConfig text) : (landed P n c snap).config = n.config := by
  cases c <;> first | rfl | exact absurd rfl (h _)

/-- **One call of a non-admin.** -/
theorem kept_of_handler {P : Platform} {n : Node} {nowMs : Nat} {authz : Authz} {call : Call}
    (hadmin : authz.isAdmin = false) (hgate : enforce authz call.method call.path = .ok ())
    (hguard : ∀ known r, LeavesConsole P ⟨n, known⟩ (.request nowMs r call)) :
    let out := (handler P n nowMs authz call).alone n
    Kept P n out.1 fun x => discloses out.2 x ∨
      call.document.isSome ∧ out.2.isOk ∧ x ∈ out.1.config.upstreamKeys := by
  have hg := hguard (fun _ => True) ⟨none, none⟩
  rcases handler_cases P n nowMs authz call with ⟨hkeep, files, outcome, hs, hshows⟩ | ⟨-, hland⟩
  · rw [hs]
    have hdoc : call.document = none := by
      cases call <;> first | rfl | simp [Call.keepsDocument] at hkeep
    refine Kept.of_admins rfl rfl
      (fun x => AdminCredential.mono (fun _ h => h) (fun _ _ h => Or.inl h) rfl rfl) ?_
    rintro x (hx | ⟨hsome, -⟩)
    · cases outcome with
      | error e => exact hx.elim
      | ok reply =>
        obtain ⟨t, ht, hocc⟩ := discloses_reveals hx
        rw [hshows reply rfl] at ht
        cases call with
        | getConfig => exact hg x (List.mem_singleton.mp ht ▸ hocc)
        | _ => exact absurd ht List.not_mem_nil
    · simp [hdoc] at hsome
  · rcases hland.alone with ⟨hag, e, he⟩ | ⟨c, v, reply, hc, hag, hr⟩
    · refine Kept.of_admins (by rw [hag.snapshot]) (by rw [hag.snapshot]) (fun x => ?_) ?_
      · exact AdminCredential.mono (by rw [hag.config]; exact fun _ h => h)
          (fun t s h => Or.inl (hag.sessions t s h)) hag.signer (by rw [hag.snapshot])
      · rw [he]
        rintro x (hx | ⟨-, hx, -⟩)
        · exact hx.elim
        · simp [Except.isOk, Except.toBool] at hx
    · have hquiet := commits_access hadmin hgate hc
      -- Only a written document moves the configuration; only keys are shown.
      have hsame : (∀ text, c ≠ .putConfig text) → call.document = none →
          (∀ x, discloses (.ok reply) x → ¬ AdminCredential P n x) →
          Kept P n ((handler P n nowMs authz call).alone n).1 fun x =>
            discloses ((handler P n nowMs authz call).alone n).2 x ∨
              call.document.isSome ∧ ((handler P n nowMs authz call).alone n).2.isOk ∧
                x ∈ ((handler P n nowMs authz call).alone n).1.config.upstreamKeys := by
        intro hne hdoc hshow
        refine kept_of_landed hag hquiet (by rw [landed_config hne]; exact fun _ h => h) ?_
        rw [hr, hdoc]
        rintro x (hx | ⟨hsome, -⟩)
        · exact hshow x hx
        · simp at hsome
      have hnothing : reply.reveals = [] → ∀ x, discloses (.ok reply) x → ¬ AdminCredential P n x := by
        intro hnil x hx
        obtain ⟨t, ht, -⟩ := discloses_reveals hx
        rw [hnil] at ht
        exact absurd ht List.not_mem_nil
      have hwrites : ∀ text, c = .putConfig text →
          (∀ config, Config.fromStr P.parser n.sources text = .ok config →
            (∀ key ∈ config.console.adminKeys, key ∈ n.config.console.adminKeys) ∧
              ∀ key, key ∈ config.upstreamKeys ∨ key ∈ n.config.upstreamKeys →
                ¬ AdminCredential P n key) →
          (∃ config, Config.fromStr P.parser n.sources text = .ok config) →
          reply.reveals = [] →
          Kept P n ((handler P n nowMs authz call).alone n).1 fun x =>
            discloses ((handler P n nowMs authz call).alone n).2 x ∨
              call.document.isSome ∧ ((handler P n nowMs authz call).alone n).2.isOk ∧
                x ∈ ((handler P n nowMs authz call).alone n).1.config.upstreamKeys := by
        rintro text rfl hleaves ⟨config, hconfig⟩ hnil
        have hadopt := adopted_config P n text v
        refine kept_of_landed hag hquiet ?_ ?_
        · rcases hadopt with hold | hnew
          · rw [hold]
            exact fun _ h => h
          · exact (hleaves _ hnew).1
        · rw [hr, hag.config]
          rintro x (hx | ⟨-, -, hx⟩)
          · exact hnothing hnil x hx
          · rcases hadopt with hold | hnew
            · exact (hleaves config hconfig).2 x (Or.inr (hold ▸ hx))
            · exact (hleaves _ hnew).2 x (Or.inl hx)
      cases call with
      | look | getConfig | putCredentialFile | putCredentialFiles => exact hc.elim
      | putConfig version text => exact hwrites text hc.1 hg hc.2.1 hc.2.2
      | editDocument route text => exact hwrites text hc.1 hg hc.2.1 hc.2.2
      | createKey input drawn =>
        obtain ⟨rfl, -, v, rfl⟩ := hc
        refine hsame (fun _ => by simp) rfl fun x hx => ?_
        exact List.mem_singleton.mp hx ▸ hg
      | updateKey id input =>
        obtain ⟨d, hd, rfl, hnil⟩ := hc
        exact hsame (fun _ => by simp) rfl (hnothing hnil)
      | rotateKey id secret =>
        obtain ⟨d, hd, rfl, v, rfl⟩ := hc
        refine hsame (fun _ => by simp) rfl fun x hx => ?_
        exact List.mem_singleton.mp hx ▸ hg d hd
      | deleteKey | putSecret | deleteUser | deleteTeam =>
        obtain ⟨rfl, hnil⟩ := hc
        exact hsame (fun _ => by simp) rfl (hnothing hnil)
      | createUser | updateUser | putTeam | putTeamById =>
        obtain ⟨⟨d, rfl⟩, hnil⟩ := hc
        exact hsame (fun _ => by simp) rfl (hnothing hnil)

theorem Kept.refl {P : Platform} {n n' : Node} {learnt : String → Prop}
    (hframe : n' = { n with sessions := n'.sessions })
    (hsessions : ∀ t s, n'.sessions.get? t = some s → n.sessions.get? t = some s ∨
      ∃ c, n.signer.read t = some c ∧ c.principal = s.principal)
    (hlearnt : ∀ x, learnt x → ¬ AdminCredential P n x) : Kept P n n' learnt := by
  refine Kept.of_admins (by rw [hframe]) (by rw [hframe]) (fun x => ?_) hlearnt
  refine AdminCredential.mono ?_ hsessions (by rw [hframe]) (by rw [hframe])
  rw [hframe]
  exact fun _ h => h

theorem Kept.trans {P : Platform} {n n' n'' : Node} {learnt learnt' : String → Prop}
    (h : Kept P n n' learnt) (h' : Kept P n' n'' learnt') : Kept P n n'' learnt' :=
  ⟨h'.users.trans h.users, h'.teams.trans h.teams, fun x hx => h.admins x (h'.admins x hx),
    h'.learnt⟩

/-- The condition on a call survives authentication, which only touches the
session cache. -/
theorem leavesConsole_authenticated {P : Platform} {n : Node} {m : OrdMap String Session}
    {nowMs : Nat} {r : Request} {call : Call} {known : String → Prop}
    (hmono : ∀ x, AdminCredential P { n with sessions := m } x → AdminCredential P n x)
    (h : LeavesConsole P ⟨n, known⟩ (.request nowMs r call)) (known' : String → Prop)
    (r' : Request) : LeavesConsole P ⟨{ n with sessions := m }, known'⟩ (.request nowMs r' call) := by
  have hnot : ∀ {x}, ¬ AdminCredential P n x → ¬ AdminCredential P { n with sessions := m } x :=
    fun hx hx' => hx (hmono _ hx')
  cases call with
  | getConfig => exact fun x hx => hnot (h x hx)
  | putConfig version text =>
    exact fun config hconfig => ⟨(h config hconfig).1, fun key hk => hnot ((h config hconfig).2 key hk)⟩
  | editDocument route text =>
    exact fun config hconfig => ⟨(h config hconfig).1, fun key hk => hnot ((h config hconfig).2 key hk)⟩
  | createKey input drawn => exact hnot h
  | rotateKey id secret => exact fun d hd => hnot (h d hd)
  | _ => trivial

/-- **One request of a non-admin**, from the credentials to the answer. -/
theorem kept_of_serve {P : Platform} {n : Node} {known : String → Prop} {nowMs : Nat}
    {r : Request} {call : Call} (htoken : ∀ token ∈ r.bearer.or r.cookie, ¬ AdminCredential P n token)
    (hguard : LeavesConsole P ⟨n, known⟩ (.request nowMs r call)) :
    let out := (serve P n nowMs r call).alone n
    Kept P n out.1 fun x => discloses out.2 x ∨
      call.document.isSome ∧ out.2.isOk ∧ x ∈ out.1.config.upstreamKeys := by
  have hrefused : ∀ e : ApiError, ∀ config : Config, ∀ x,
      (discloses (.error e) x ∨ call.document.isSome ∧ (.error e : Outcome).isOk ∧
        x ∈ config.upstreamKeys) → ¬ AdminCredential P n x := by
    rintro e config x (hx | ⟨-, hx, -⟩)
    · exact hx.elim
    · simp [Except.isOk, Except.toBool] at hx
  unfold serve
  cases hauth : authenticate n nowMs r with
  | mk res n' =>
    obtain ⟨hprin, hframe, hsessions⟩ := authenticate_standing hauth htoken
    cases res with
    | error e => exact Kept.refl hframe hsessions (hrefused e _)
    | ok principal =>
      have hkept : Kept P n n' fun _ => False := Kept.refl hframe hsessions fun _ h => h.elim
      have hadmin : (resolveAuthz n'.snapshot.state principal).isAdmin = false := by
        rw [resolveAuthz_isAdmin, hframe]
        exact hprin principal rfl
      have halone : ∀ s : Step, s.alone n = s.alone n' := by
        intro s
        rw [hframe]
        rfl
      dsimp only
      rw [halone]
      rcases authorised_cases P n' nowMs (resolveAuthz n'.snapshot.state principal) call with
        ⟨e, -, hrun⟩ | ⟨hgate, hrun⟩
      · rw [hrun]
        exact Kept.refl hframe hsessions (hrefused e _)
      · rw [hrun]
        have hleaves : ∀ known' r', LeavesConsole P ⟨n', known'⟩ (.request nowMs r' call) := by
          intro known' r'
          have hmono := hkept.admins
          rw [hframe] at hmono ⊢
          exact leavesConsole_authenticated hmono hguard known' r'
        exact hkept.trans (kept_of_handler hadmin hgate hleaves)

/-- **One login of a non-admin**: a session of their own, whose token proves
the same principal on any node. -/
theorem kept_of_login {P : Platform} {s : Standing}
    (hindexed : ∀ id u, s.users.get? id = some u → u.id = id) {nowMs nonce : Nat}
    {input : SessionRequest} (hnone : NoneHeld P s) (hsent : Presents s (.login nowMs input nonce))
    (hguard : LeavesConsole P s (.login nowMs input nonce)) :
    let r := createSession P s.node nowMs input nonce
    Kept P s.node r.1 (discloses r.2) := by
  have hrefused : ∀ e : ApiError, Kept P s.node s.node (discloses (.error e)) :=
    fun e => Kept.refl rfl (fun _ _ h => Or.inl h) fun _ h => h.elim
  unfold createSession
  split
  · exact hrefused _
  · cases input with
    | empty => exact hrefused _
    | key key =>
      dsimp only
      split
      next hin => exact absurd (.key (by simpa using hin)) (hnone key hsent)
      next => exact hrefused _
    | password email password =>
      dsimp only
      split
      next user hfind =>
        split
        next hverify =>
          obtain ⟨hid, hfresh⟩ := hguard user hfind
          obtain ⟨hkeys, hseed, hsess, hpass⟩ := hfresh _ rfl
          have hmem : user ∈ s.users.values := List.mem_of_find?_eq_some hfind
          -- The password is known, so it is no admin's.
          have hnotadmin : isAdminPrincipal s.users (.user user.id) = false := by
            obtain ⟨id, hget⟩ := OrdMap.mem_values.mp hmem
            rw [isAdminPrincipal, hindexed id user hget, hget]
            exact Bool.eq_false_iff.mpr fun hadmin =>
              hnone password hsent (.password user hmem (by simpa using hadmin) hverify)
          have hread : s.node.signer.read (s.node.signer.mint (.user user.id)
              (nowMs + s.node.config.console.sessionTtlMs) nonce) =
                some ⟨user.id, nowMs + s.node.config.console.sessionTtlMs, nonce⟩ :=
            s.node.signer.read_text _
          have hprin : (Claims.mk user.id (nowMs + s.node.config.console.sessionTtlMs)
              nonce).principal = .user user.id := by
            simp [Claims.principal, hid]
          refine Kept.refl rfl ?_ ?_
          · intro t session hs
            unfold createSession.issue at hs
            dsimp only at hs
            rw [OrdMap.get?_insert] at hs
            split at hs
            next heq =>
              injection hs with hs
              exact Or.inr ⟨_, heq ▸ hread, by rw [hprin, ← hs]⟩
            next => exact Or.inl hs
          · intro x hx hcred
            obtain rfl := List.mem_singleton.mp hx
            cases hcred with
            | key h => exact hkeys h
            | session session h _ => simp [hsess] at h
            | token c h hadmin =>
              rw [hread] at h
              injection h with h
              rw [← h, hprin] at hadmin
              exact absurd hnotadmin (by simpa [Standing.users] using hadmin)
            | password u h _ hv => simp [hpass u h] at hv
            | seed h => exact hseed h
        next => exact hrefused _
      next => exact hrefused _

/-- One act that leaves the console alone keeps users and teams, and leaves
its author with no admin credential. -/
theorem standing_step {P : Platform} {s s' : Standing} {a : MemberAct}
    (hindexed : ∀ id u, s.users.get? id = some u → u.id = id) (hnone : NoneHeld P s)
    (hok : leavesConsole P s a) (hs : s.next P a = some s') :
    s'.users = s.users ∧ s'.teams = s.teams ∧ NoneHeld P s' := by
  obtain ⟨hsent, hguard⟩ := hok
  cases a with
  | login nowMs input nonce =>
    injection hs with hs
    subst hs
    have hkept := kept_of_login hindexed hnone hsent hguard
    refine ⟨hkept.users, hkept.teams, ?_⟩
    rintro x (hx | hx)
    · exact fun h => hnone x hx (hkept.admins x h)
    · exact hkept.learnt x hx
  | request nowMs r call =>
    injection hs with hs
    subst hs
    have hkept := kept_of_serve (fun token ht => hnone token (hsent token ht)) hguard
    refine ⟨hkept.users, hkept.teams, ?_⟩
    rintro x (hx | hx)
    · exact fun h => hnone x hx (hkept.admins x h)
    · exact hkept.learnt x hx

/-- **Managing access stays above having it.** In every run of non-admin acts
that leave the console alone, users and teams are as they were, and no text
the principals know makes an admin. -/
theorem access_above_grants (P : Platform) {s₀ s : Standing}
    (h : Reach (memberRuns P s₀) (leavesConsole P) s) :
    s.users = s₀.users ∧ s.teams = s₀.teams ∧ NoneHeld P s := by
  have hinv : (∀ id u, s.users.get? id = some u → u.id = id) ∧
      s.users = s₀.users ∧ s.teams = s₀.teams ∧ NoneHeld P s := by
    refine h.invariant (I := fun s => (∀ id u, s.users.get? id = some u → u.id = id) ∧
      s.users = s₀.users ∧ s.teams = s₀.teams ∧ NoneHeld P s) ?_ ?_
    · rintro s ⟨rfl, hstart⟩
      exact ⟨hstart.indexed, rfl, rfl, hstart.none_held⟩
    · rintro s a s' ⟨hidx, husers, hteams, hnone⟩ hok hs
      obtain ⟨husers', hteams', hnone'⟩ := standing_step hidx hnone hok hs
      exact ⟨by rw [husers']; exact hidx, husers'.trans husers, hteams'.trans hteams, hnone'⟩
  exact hinv.2

/-! ## A `Full` member and the configuration document -/

def ownKeyDocument : String := "[console]\nadmin_keys = [\"mine-0123456789\"]\n"

def envKeyDocument : String := "[console]\nadmin_keys = [\"env.ADMIN_KEY\"]\n"

def consolePlatform : Platform where
  parser :=
    { toml := fun text =>
        if text = ownKeyDocument then .ok ⟨["mine-0123456789"], 43200, [], []⟩
        else if text = envKeyDocument then .ok ⟨["env.ADMIN_KEY"], 43200, [], []⟩
        else .error "no such document"
      otherErrors := fun _ => [] }
  hashSecret := fun _ => "blake3:e081f3733c4cb6090f38088bf5466bdcd933082a8bbdbd2d87716ddbdaf8f211"
  hashPassword _ _ := ""
  verifyPassword _ _ := false
  isJson _ := false

def fullToken : String :=
  "cs1.eyJzIjoidV8xIiwiZSI6MzYwMDAwMCwibiI6N30.Qw5JgKCdoG7AB5a3Eq1ShDo4o9ZzjcH8f5r4ZiyukSk"

/-- `u_1` is a member of a `Full` team, holds a session token and can think
of a password. -/
def fullMember : Standing where
  node :=
    { signer := .pinned ⟨"u_1", 3600000, 7⟩ fullToken rfl
      fileManaged := false
      env := fun name => if name = "ADMIN_KEY" then some "root-9876543210" else none
      files := .empty
      dataDir := none
      config := ⟨⟨["root-9876543210"], 43200000⟩, [], []⟩
      appliedText := none
      snapshot := ⟨{ StoreState.default with
        users := OrdMap.empty.insert "u_1" ⟨"u_1", "ana@example.com", "", .member, 0⟩
        teams := OrdMap.empty.insert "t_1" ⟨"t_1", "ops", {"u_1"}, ∅, .full, 0⟩ }, 1⟩
      sessions := .empty }
  known x := x = fullToken ∨ x = "mine-0123456789"

/-- What makes an admin of a `u_1`-only gateway. -/
theorem admin_of_full {n : Node} {x : String} (h : AdminCredential consolePlatform n x)
    (husers : n.snapshot.state.users = fullMember.users)
    (hsigner : n.signer = fullMember.node.signer)
    (hread : n.signer.read x = none ∨ n.signer.read x = some ⟨"u_1", 3600000, 7⟩)
    (hsess : n.sessions.get? x = none ∨ n.sessions.get? x = some ⟨3600000, .user "u_1"⟩) :
    x ∈ n.config.console.adminKeys ∨ x = fullMember.node.signer.seed := by
  have hmember : isAdminPrincipal n.snapshot.state.users (.user "u_1") = false := by
    rw [husers]
    decide
  cases h with
  | key h => exact Or.inl h
  | seed h => exact Or.inr (hsigner ▸ h)
  | password u _ _ hverify => cases hverify
  | session s h hadmin =>
    rcases hsess with hs | hs <;> rw [hs] at h
    · cases h
    · injection h with h
      rw [← h, hmember] at hadmin
      cases hadmin
  | token c h hadmin =>
    rcases hread with hs | hs <;> rw [hs] at h
    · cases h
    · injection h with h
      rw [← h, show (Claims.mk "u_1" 3600000 7).principal = .user "u_1" from rfl, hmember] at hadmin
      cases hadmin

theorem fullMember_start : fullMember.Start consolePlatform := by
  constructor
  · intro id u hu
    have hget : (if id = "u_1" then _ else none) = some u := hu
    split at hget
    next he =>
      injection hget with hget
      rw [← hget, he]
    next => cases hget
  · rintro x (rfl | rfl) hcred
    · rcases admin_of_full hcred rfl rfl (Or.inr (by decide)) (Or.inl rfl) with h | h
      · exact absurd h (by decide)
      · exact absurd h (by decide)
    · rcases admin_of_full hcred rfl rfl (Or.inl (by decide)) (Or.inl rfl) with h | h
      · exact absurd h (by decide)
      · exact absurd h (by decide)

/-- A run goes on with any admitted request. -/
theorem reach_request {P : Platform} {s₀ s : Standing} {ok : Standing → MemberAct → Prop}
    (h : Reach (memberRuns P s₀) ok s) (nowMs : Nat) (r : Request) (call : Call)
    (hok : ok s (.request nowMs r call)) :
    Reach (memberRuns P s₀) ok
      ⟨((serve P s.node nowMs r call).alone s.node).1, fun x =>
        s.known x ∨ discloses ((serve P s.node nowMs r call).alone s.node).2 x ∨
          call.document.isSome ∧ ((serve P s.node nowMs r call).alone s.node).2.isOk ∧
            x ∈ ((serve P s.node nowMs r call).alone s.node).1.config.upstreamKeys⟩ :=
  .step h hok rfl

/-- **A `Full` member makes themselves an admin**: one `PUT /config` whose
document lists a key they chose. -/
theorem put_config_escalates :
    ¬ ∀ s, Reach (memberRuns consolePlatform fullMember) fromMembers s →
      s.users = fullMember.users ∧ s.teams = fullMember.teams ∧ NoneHeld consolePlatform s := by
  intro h
  have hstart : Reach (memberRuns consolePlatform fullMember) fromMembers fullMember :=
    .start ⟨rfl, fullMember_start⟩
  have hsent : fromMembers fullMember
      (.request 1000 ⟨some fullToken, none⟩ (.putConfig 1 ownKeyDocument)) := by
    intro token ht
    exact Or.inl (Option.some.inj ht).symm
  obtain ⟨-, -, hnone⟩ := h _ (reach_request hstart _ _ _ hsent)
  exact hnone "mine-0123456789" (Or.inl (Or.inr rfl)) (.key (by decide))

/-- The same member edits the document without touching its admin keys, and
manages a virtual key. -/
theorem access_above_grants_full_member :
    ∃ s, Reach (memberRuns consolePlatform fullMember) (leavesConsole consolePlatform) s ∧
      s.node.appliedText = some envKeyDocument ∧
        s.node.snapshot.state.virtualKeys.get? "0a1b2c" ≠ none ∧
          s.users = fullMember.users ∧ s.teams = fullMember.teams ∧
            NoneHeld consolePlatform s := by
  have hstart : Reach (memberRuns consolePlatform fullMember) (leavesConsole consolePlatform)
      fullMember := .start ⟨rfl, fullMember_start⟩
  have hput : leavesConsole consolePlatform fullMember
      (.request 1000 ⟨some fullToken, none⟩ (.putConfig 1 envKeyDocument)) := by
    refine ⟨fun token ht => Or.inl (Option.some.inj ht).symm, ?_⟩
    intro config hconfig
    have hresolved : Config.fromStr consolePlatform.parser fullMember.node.sources envKeyDocument =
        .ok ⟨⟨["root-9876543210"], 43200000⟩, [], []⟩ := by rfl
    rw [hresolved] at hconfig
    injection hconfig with hconfig
    rw [← hconfig]
    refine ⟨fun key hk => hk, ?_⟩
    rintro key (hk | hk)
    · exact absurd hk List.not_mem_nil
    · exact absurd hk List.not_mem_nil
  have hfirst := reach_request hstart _ _ _ hput
  have hreach := reach_request hfirst 2000 ⟨some fullToken, none⟩
    (.createKey ⟨"ci", [], none, none, none, none, .empty⟩
      ⟨"0a1b2c", "0123456789ABCDEFGHIJKLMNOP"⟩) (by
      refine ⟨?_, ?_⟩
      · intro token ht
        exact Or.inl (Or.inl (Option.some.inj ht).symm)
      · intro hcred
        rcases admin_of_full hcred rfl rfl (Or.inl (by decide)) (Or.inl (by decide)) with h | h
        · exact absurd h (by decide)
        · exact absurd h (by decide))
  exact ⟨_, hreach, by rfl, by decide, access_above_grants consolePlatform hreach⟩

end RapidRouter.Server
