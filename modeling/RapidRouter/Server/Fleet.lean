import Mathlib.Logic.Function.Basic
import RapidRouter.Lib.Lts
import RapidRouter.Server.Effects

/-!
# A fleet of gateways and the sessions of deleted users

Nodes share one control-plane document and one signing key. Each serves admin
requests from its own copy of the document (`refresh` polls it, a commit
moves it) and keeps its own session cache, which a restart loses. A token is
honoured from the cache or, on any node, from its own signature.

`delete_user` says "a deleted user with a live token is not deleted" and drops
the deleting node's cached sessions of that user. The signature check then
re-admits the token: it looks at the claims and the clock, never at whether
the user exists. `deleted_session_refused_iff` is the exact extent: once the
deletion is in a node's copy, the token is refused exactly when it would have
been refused anyway, expired or with the console disabled.
-/

namespace RapidRouter.Server

open RapidRouter.Core Store Lts

/-- A token some node handed out. -/
structure Minted where
  principal : Principal
  token : String
  expiresMs : Nat
  deriving DecidableEq

structure Fleet (ι : Type*) where
  doc : Snapshot
  node : ι → Node
  minted : List Minted
  /-- Each user deletion that landed, with the version it landed at. -/
  deletions : List (String × Nat)

inductive FleetAct (ι : Type*) where
  | login (i : ι) (nowMs : Nat) (input : SessionRequest) (nonce : Nat)
  | request (i : ι) (nowMs : Nat) (r : Request) (call : Call) (up : Bool)
  | refresh (i : ι)
  | restart (i : ι) (config : Config)

section
variable {ι : Type*}

/-- The text a request authenticates with. -/
def Request.token (r : Request) : Option String := r.bearer.or r.cookie

/-- A deletion of this user is in the copy of the document this node holds. -/
def Fleet.DeletedIn (s : Fleet ι) (i : ι) (userId : String) : Prop :=
  ∃ v, (userId, v) ∈ s.deletions ∧ v ≤ (s.node i).snapshot.version

/-- The request is not authenticated. -/
def Fleet.Refuses (s : Fleet ι) (i : ι) (nowMs : Nat) (r : Request) : Prop :=
  ∃ e, (authenticate (s.node i) nowMs r).1 = .error e

/-- The deletions after a call: one more when a `DeleteUser` landed. -/
def deletionsAfter (deletions : List (String × Nat)) (before after : Snapshot) :
    Call → List (String × Nat)
  | .deleteUser id =>
    if after.version ≠ before.version then (id, after.version) :: deletions else deletions
  | _ => deletions

variable [DecidableEq ι]

def Fleet.next (P : Platform) (s : Fleet ι) : FleetAct ι → Option (Fleet ι)
  | .login i nowMs input nonce =>
    let r := createSession P (s.node i) nowMs input nonce
    let s' := { s with node := Function.update s.node i r.1 }
    match r.2, input with
    | .ok (.session token expiresMs), .key _ =>
      some { s' with minted := ⟨.adminKey, token, expiresMs⟩ :: s.minted }
    | .ok (.session token expiresMs), .password email _ =>
      match (s.node i).snapshot.state.users.values.find?
          fun u => Text.eqIgnoreAsciiCase u.email email with
      | some user => some { s' with minted := ⟨.user user.id, token, expiresMs⟩ :: s.minted }
      | none => some s'
    | _, _ => some s'
  | .request i nowMs r call up =>
    let out := (serve P (s.node i) nowMs r call).run s.doc up
    some { s with
      doc := out.2
      node := Function.update s.node i out.1.1
      deletions := deletionsAfter s.deletions s.doc out.2 call }
  | .refresh i =>
    -- `Store::refresh`, then adopt what the document says.
    let n := { s.node i with snapshot := s.doc }.adoptStoreState P
    some { s with node := Function.update s.node i n }
  | .restart i config =>
    -- A new process: an empty cache and a fresh copy; the signing key is
    -- derived again from the same seed.
    let n := { s.node i with
      sessions := .empty, snapshot := s.doc, config := config, appliedText := none }
    some { s with node := Function.update s.node i n }

/-! ## What the signature keeps true of every node -/

/-- Every cached session is one the token itself proves, expiry included. -/
def SessionsSigned (k : SessionSigner) (n : Node) : Prop :=
  ∀ t session, n.sessions.get? t = some session →
    ∃ c, k.read t = some c ∧ c.expiresMs = session.expiresMs

/-- One signing key over the fleet, and tokens that read back. -/
structure Fleet.Signed (k : SessionSigner) (s : Fleet ι) : Prop where
  key : ∀ i, (s.node i).signer = k
  cached : ∀ i, SessionsSigned k (s.node i)
  minted : ∀ m ∈ s.minted, ∃ c, k.read m.token = some c ∧ c.expiresMs = m.expiresMs

/-- A fleet sharing `k`, at any point of its life. -/
def fleet (P : Platform) (k : SessionSigner) : System (Fleet ι) (FleetAct ι) :=
  ofNext (Fleet.Signed k) (Fleet.next P)

/-- Only the session cache of a node changes while it authenticates. -/
theorem authenticate_frame (n : Node) (nowMs : Nat) (r : Request) :
    (authenticate n nowMs r).2 = { n with sessions := (authenticate n nowMs r).2.sessions } := by
  unfold authenticate
  split
  · rfl
  · split
    · rfl
    · split
      · rfl
      · next token _ =>
        have hframe : (sessionPrincipal n nowMs token).2 =
            { n with sessions := (sessionPrincipal n nowMs token).2.sessions } := by
          unfold sessionPrincipal
          dsimp only
          split
          · rfl
          · split <;> rfl
        split
        next _ n' hn => rwa [hn] at hframe
        next n' hn => rwa [hn] at hframe

/-- Looking a session up keeps the cache signed: an entry it adds is what the
signature said. -/
theorem sessionPrincipal_signed {k : SessionSigner} {n : Node} (hk : n.signer = k)
    (h : SessionsSigned k n) (nowMs : Nat) (token : String) :
    SessionsSigned k (sessionPrincipal n nowMs token).2 := by
  have hlive : ∀ t session,
      (n.sessions.retain fun _ session => nowMs ≤ session.expiresMs).get? t = some session →
        ∃ c, k.read t = some c ∧ c.expiresMs = session.expiresMs := by
    intro t session hs
    rw [OrdMap.get?_retain] at hs
    exact h t session (Option.filter_eq_some_iff.mp hs).1
  unfold sessionPrincipal
  dsimp only
  split
  · exact hlive
  · split
    · exact hlive
    next principal expiresMs hverify =>
      intro t session hs
      rw [hk] at hverify
      obtain ⟨c, hread, -, -, hexp⟩ := SessionSigner.verify_eq_some.mp hverify
      dsimp only at hs
      rw [OrdMap.get?_insert] at hs
      split at hs
      next heq =>
        injection hs with hs
        exact ⟨c, heq ▸ hread, by rw [hexp, ← hs]⟩
      next => exact hlive t session hs

theorem authenticate_signed {k : SessionSigner} {n : Node} (hk : n.signer = k)
    (h : SessionsSigned k n) (nowMs : Nat) (r : Request) :
    SessionsSigned k (authenticate n nowMs r).2 := by
  unfold authenticate
  split
  · exact h
  · split
    · exact h
    · split
      · exact h
      · next token _ =>
        have hsigned := sessionPrincipal_signed hk h nowMs token
        split
        next _ n' hn => rwa [hn] at hsigned
        next n' hn => rwa [hn] at hsigned

/-- Whatever a handler does, the node keeps its key and gains no session. -/
theorem handler_sessions (P : Platform) (n : Node) (nowMs : Nat) (authz : Authz) (call : Call)
    (doc : Snapshot) (up : Bool) :
    let n' := ((authorised P n nowMs authz call).run doc up).1.1
    n'.signer = n.signer ∧ ∀ t s, n'.sessions.get? t = some s → n.sessions.get? t = some s := by
  rcases authorised_cases P n nowMs authz call with ⟨e, -, hrun⟩ | ⟨-, hrun⟩
  · rw [hrun]
    exact ⟨rfl, fun _ _ h => h⟩
  · rw [hrun]
    rcases handler_cases P n nowMs authz call with ⟨-, files, outcome, hs, -⟩ | ⟨-, hland⟩
    · rw [hs]
      exact ⟨rfl, fun _ _ h => h⟩
    · rcases hland.run doc up with ⟨kept, e, -, hag, -, -⟩ | ⟨base, v, c, x, -, -, hag, -, -⟩
      · exact ⟨hag.signer, hag.sessions⟩
      · rw [landed_frame] at hag
        exact ⟨hag.signer, hag.sessions⟩

/-- Serving a request keeps the node's key and its cache signed. -/
theorem serve_signed {P : Platform} {k : SessionSigner} {n : Node} (hk : n.signer = k)
    (h : SessionsSigned k n) (nowMs : Nat) (r : Request) (call : Call) (doc : Snapshot)
    (up : Bool) :
    let n' := ((serve P n nowMs r call).run doc up).1.1
    n'.signer = k ∧ SessionsSigned k n' := by
  have hframe := authenticate_frame n nowMs r
  have hsigned := authenticate_signed hk h nowMs r
  unfold serve
  split
  next e n' hauth =>
    rw [hauth] at hframe hsigned
    exact ⟨by rw [show n' = _ from hframe]; exact hk, hsigned⟩
  next principal n' hauth =>
    rw [hauth] at hframe hsigned
    obtain ⟨hkey, hsub⟩ := handler_sessions P n' nowMs
      (resolveAuthz n'.snapshot.state principal) call doc up
    refine ⟨hkey.trans (by rw [show n' = _ from hframe]; exact hk), ?_⟩
    exact fun t s hs => hsigned t s (hsub t s hs)

/-- A login mints a token for exactly the session it caches. -/
theorem createSession_signed {P : Platform} {k : SessionSigner} {n : Node} (hk : n.signer = k)
    (h : SessionsSigned k n) (nowMs : Nat) (input : SessionRequest) (nonce : Nat) :
    let r := createSession P n nowMs input nonce
    r.1.signer = k ∧ SessionsSigned k r.1 ∧
      ∀ token expiresMs, r.2 = .ok (.session token expiresMs) →
        ∃ c, k.read token = some c ∧ c.expiresMs = expiresMs := by
  have hissue : ∀ principal, let r := createSession.issue n nowMs nonce principal
      r.1.signer = k ∧ SessionsSigned k r.1 ∧
        ∀ token expiresMs, r.2 = .ok (.session token expiresMs) →
          ∃ c, k.read token = some c ∧ c.expiresMs = expiresMs := by
    intro principal
    have hread : k.read (n.signer.mint principal (nowMs + n.config.console.sessionTtlMs) nonce) =
        some ⟨principal.subject, nowMs + n.config.console.sessionTtlMs, nonce⟩ := by
      rw [hk]
      exact k.read_text _
    refine ⟨hk, ?_, ?_⟩
    · intro t session hs
      unfold createSession.issue at hs
      dsimp only at hs
      rw [OrdMap.get?_insert] at hs
      split at hs
      next heq =>
        injection hs with hs
        exact ⟨_, heq ▸ hread, by rw [← hs]⟩
      next => exact h t session hs
    · intro token expiresMs hout
      injection hout with hout
      injection hout with htoken hexp
      exact ⟨_, htoken ▸ hread, hexp⟩
  have herror : ∀ e : ApiError, n.signer = k ∧ SessionsSigned k n ∧
      ∀ token expiresMs, (.error e : Outcome) = .ok (.session token expiresMs) →
        ∃ c, k.read token = some c ∧ c.expiresMs = expiresMs :=
    fun e => ⟨hk, h, fun _ _ hout => by cases hout⟩
  unfold createSession
  split
  · exact herror _
  · cases input with
    | key key =>
      dsimp only
      split
      · exact hissue _
      · exact herror _
    | password email password =>
      dsimp only
      split
      · split
        · exact hissue _
        · exact herror _
      · exact herror _
    | empty => exact herror _

/-- One step of one node keeps the fleet signed. -/
theorem Fleet.Signed.update {k : SessionSigner} {s s' : Fleet ι} (h : s.Signed k) {i : ι}
    {n : Node} (hnode : s'.node = Function.update s.node i n) (hk : n.signer = k)
    (hn : SessionsSigned k n)
    (hminted : ∀ m ∈ s'.minted, ∃ c, k.read m.token = some c ∧ c.expiresMs = m.expiresMs) :
    s'.Signed k := by
  have heach : ∀ j, (s'.node j).signer = k ∧ SessionsSigned k (s'.node j) := by
    intro j
    rw [hnode]
    by_cases hj : j = i
    · subst hj
      rw [Function.update_self]
      exact ⟨hk, hn⟩
    · rw [Function.update_of_ne hj]
      exact ⟨h.key j, h.cached j⟩
  exact ⟨fun j => (heach j).1, fun j => (heach j).2, hminted⟩

theorem signed_step {P : Platform} {k : SessionSigner} {s s' : Fleet ι} {a : FleetAct ι}
    (h : s.Signed k) (hs : (fleet P k).step s a s') : s'.Signed k := by
  have hnext : s.next P a = some s' := hs
  cases a with
  | login i nowMs input nonce =>
    obtain ⟨hk, hn, hmint⟩ := createSession_signed (P := P) (h.key i) (h.cached i) nowMs input nonce
    have hcons : ∀ p token expiresMs,
        (createSession P (s.node i) nowMs input nonce).2 = .ok (.session token expiresMs) →
        ∀ m ∈ (⟨p, token, expiresMs⟩ : Minted) :: s.minted,
          ∃ c, k.read m.token = some c ∧ c.expiresMs = m.expiresMs := by
      intro p token expiresMs hout m hm
      rcases List.mem_cons.mp hm with rfl | hm
      · exact hmint token expiresMs hout
      · exact h.minted m hm
    unfold Fleet.next at hnext
    dsimp only at hnext
    split at hnext
    next _ _ token expiresMs _ hout =>
      injection hnext with hnext
      subst hnext
      exact h.update rfl hk hn (hcons _ token expiresMs hout)
    next _ _ token expiresMs _ _ hout =>
      split at hnext <;> injection hnext with hnext <;> subst hnext
      · exact h.update rfl hk hn (hcons _ token expiresMs hout)
      · exact h.update rfl hk hn h.minted
    next =>
      injection hnext with hnext
      subst hnext
      exact h.update rfl hk hn h.minted
  | request i nowMs r call up =>
    injection hnext with hnext
    subst hnext
    obtain ⟨hk, hn⟩ := serve_signed (P := P) (h.key i) (h.cached i) nowMs r call s.doc up
    exact h.update rfl hk hn h.minted
  | refresh i =>
    injection hnext with hnext
    subst hnext
    refine h.update rfl ?_ ?_ h.minted
    · rw [adoptStoreState_frame]
      exact h.key i
    · rw [adoptStoreState_frame]
      exact h.cached i
  | restart i config =>
    injection hnext with hnext
    subst hnext
    exact h.update rfl (h.key i) (fun t session hs => by cases hs) h.minted

/-! ## Deleted users -/

/-- A request bearing a token minted for a user whose deletion is in this
node's copy of the document. -/
structure AfterDeletion (s : Fleet ι) (i : ι) (userId : String) (m : Minted) (r : Request) :
    Prop where
  minted : m ∈ s.minted
  owner : m.principal = .user userId
  deleted : s.DeletedIn i userId
  bears : r.token = some m.token

/-- When a token's session is found: until it expires, cached or not. -/
theorem sessionPrincipal_none_iff {k : SessionSigner} {n : Node} (hk : n.signer = k)
    (hn : SessionsSigned k n) {token : String} {c : Claims} (hread : k.read token = some c)
    (nowMs : Nat) : (sessionPrincipal n nowMs token).1 = none ↔ c.expiresMs < nowMs := by
  unfold sessionPrincipal
  dsimp only
  rw [OrdMap.get?_retain]
  split
  next session hlive =>
    -- Cached and live: the cache's expiry is the token's own.
    obtain ⟨hcached, hfresh⟩ := Option.filter_eq_some_iff.mp hlive
    obtain ⟨c', hread', hexp⟩ := hn token session hcached
    rw [hread] at hread'
    injection hread' with hread'
    rw [← hread'] at hexp
    have hle : nowMs ≤ session.expiresMs := by simpa using hfresh
    simp only [reduceCtorEq, false_iff, not_lt]
    omega
  next =>
    rw [hk]
    split
    next hverify =>
      refine iff_of_true rfl ?_
      by_contra hnot
      have hsome := SessionSigner.verify_eq_some.mpr ⟨c, hread, not_lt.mp hnot, rfl, rfl⟩
      rw [hsome] at hverify
      cases hverify
    next p e hverify =>
      obtain ⟨c', hread', hle, -, -⟩ := SessionSigner.verify_eq_some.mp hverify
      rw [hread] at hread'
      injection hread' with hread'
      rw [← hread'] at hle
      simp only [reduceCtorEq, false_iff, not_lt]
      exact hle

/-- **Deletion does not reach the token.** In every reachable state of the
fleet, once the deletion of a user is in a node's copy, a request bearing
that user's token is refused there exactly when the console is disabled, or
the token has outlived its own expiry and is no admin key besides. -/
theorem deleted_session_refused_iff (P : Platform) (k : SessionSigner) {s : Fleet ι}
    (h : Reach (fleet P k) free s) {i : ι} {userId : String} {m : Minted} {r : Request}
    (hr : AfterDeletion s i userId m r) (nowMs : Nat) :
    s.Refuses i nowMs r ↔
      (s.node i).config.console.enabled = false ∨
        m.expiresMs < nowMs ∧
          ¬ (r.bearer = some m.token ∧ m.token ∈ (s.node i).config.console.adminKeys) := by
  have hsigned : s.Signed k := by
    refine h.invariant (I := Fleet.Signed k) (fun _ h0 => h0) ?_
    intro s a s' hI _ hs
    exact signed_step hI hs
  obtain ⟨c, hread, hexp⟩ := hsigned.minted m hr.minted
  have hfound := sessionPrincipal_none_iff (hsigned.key i) (hsigned.cached i) hread nowMs
  rw [hexp] at hfound
  have hbears : r.bearer.or r.cookie = some m.token := hr.bears
  unfold Fleet.Refuses authenticate
  by_cases hen : (s.node i).config.console.enabled = true
  · rw [if_neg (by simp [hen])]
    by_cases hkey : r.bearer = some m.token ∧ m.token ∈ (s.node i).config.console.adminKeys
    · rw [if_pos (by simp [hkey.1, hkey.2])]
      simp [hen, hkey]
    · have hstatic : ¬ (r.bearer.any fun token =>
          (s.node i).config.console.adminKeys.contains token) = true := by
        intro hany
        cases hb : r.bearer with
        | none => simp [hb] at hany
        | some t =>
          have heq : t = m.token := by simpa [hb] using hbears
          exact hkey ⟨by rw [hb, heq], by simpa [hb, heq] using hany⟩
      rw [if_neg hstatic, hbears]
      dsimp only
      simp only [hen, hkey, not_false_eq_true, and_true, Bool.true_eq_false, false_or, ← hfound]
      split
      next p n' hp => simp [hp]
      next n' hp => simp [hp]
  · rw [if_pos (by simpa using hen)]
    simp [hen]

end

/-! ## A deletion on one node, read on another -/

def memberClaims : Claims := ⟨"u_2", 3600000, 7⟩

def memberToken : String :=
  "cs1.eyJzIjoidV8yIiwiZSI6MzYwMDAwMCwibiI6N30.5qH_WTp_IfQCLo2e1w1Y4lQMrm6TwRcZjQTH-X0xqNI"

def fleetSigner : SessionSigner := .pinned memberClaims memberToken rfl

def fleetPlatform : Platform where
  parser := ⟨fun _ => .error "no document", fun _ => []⟩
  hashSecret _ := ""
  hashPassword _ _ := ""
  verifyPassword _ _ := false
  isJson _ := false

/-- Two nodes of one store; `u_2` is signed in on the first. -/
def signedIn : Fleet Bool where
  doc := ⟨{ StoreState.default with
    users := OrdMap.empty.insert "u_2" ⟨"u_2", "ana@example.com", "", .member, 0⟩ }, 1⟩
  node i :=
    { signer := fleetSigner
      fileManaged := false
      env := fun _ => none
      files := .empty
      dataDir := none
      config := ⟨⟨["bootstrap-admin-key"], 3600000⟩, [], []⟩
      appliedText := none
      snapshot := ⟨{ StoreState.default with
        users := OrdMap.empty.insert "u_2" ⟨"u_2", "ana@example.com", "", .member, 0⟩ }, 1⟩
      sessions := if i then .empty else OrdMap.empty.insert memberToken ⟨3600000, .user "u_2"⟩ }
  minted := [⟨.user "u_2", memberToken, 3600000⟩]
  deletions := []

theorem fleetSigner_read : fleetSigner.read memberToken = some memberClaims :=
  fleetSigner.read_text memberClaims

theorem signedIn_signed : Fleet.Signed fleetSigner signedIn := by
  refine ⟨fun i => rfl, ?_, ?_⟩
  · intro i t session hs
    cases i with
    | true => cases hs
    | false =>
      have hget : (if t = memberToken then some (Session.mk 3600000 (.user "u_2")) else none)
          = some session := hs
      split at hget
      next heq =>
        injection hget with hget
        exact ⟨memberClaims, heq ▸ fleetSigner_read, by rw [← hget]; rfl⟩
      next => cases hget
  · intro m hm
    rw [List.mem_singleton.mp hm]
    exact ⟨memberClaims, fleetSigner_read, rfl⟩

/-- An operator deletes `u_2` through the first node; the second polls. -/
def deletionTrace : List (FleetAct Bool) :=
  [.request false 1000 ⟨some "bootstrap-admin-key", none⟩ (.deleteUser "u_2") true,
    .refresh true]

/-- The member's browser, asking the second node with the token it kept. -/
def memberRequest : Request := ⟨some memberToken, none⟩

/-- The fleet after the trace, and what its second node makes of the token. -/
theorem deletion_reached : ∃ s, Reach (fleet fleetPlatform fleetSigner) free s ∧
    AfterDeletion s true "u_2" ⟨.user "u_2", memberToken, 3600000⟩ memberRequest ∧
      memberToken ∉ (s.node true).config.console.adminKeys ∧
        (authenticate (s.node true) 2000 memberRequest).1 = .ok (.user "u_2") := by
  have hreach := Reach.of_trace (free (σ := Fleet Bool)) (Fleet.next fleetPlatform) signedIn_signed
    deletionTrace (by decide) (by decide)
  refine ⟨_, hreach, ⟨List.mem_singleton.mpr rfl, rfl, ⟨2, ?_, ?_⟩, rfl⟩, ?_, rfl⟩
  · exact List.mem_singleton.mpr rfl
  · decide
  · decide

theorem deleted_session_refused_after_expiry :
    ∃ s, Reach (fleet fleetPlatform fleetSigner) free s ∧ s.DeletedIn true "u_2" ∧
      s.Refuses true 3600001 memberRequest := by
  obtain ⟨s, hreach, hafter, hkey, -⟩ := deletion_reached
  refine ⟨s, hreach, hafter.deleted, ?_⟩
  exact (deleted_session_refused_iff fleetPlatform fleetSigner hreach hafter 3600001).mpr
    (Or.inr ⟨by decide, fun hin => hkey hin.2⟩)

/-- **The deleted user's session lives on**: the second node, holding the
deletion, authenticates the token it has never seen. -/
theorem deleted_session_rehydrates :
    ¬ ∀ s, Reach (fleet fleetPlatform fleetSigner) free s → ∀ (i : Bool) userId m r,
      AfterDeletion s i userId m r → ∀ nowMs, s.Refuses i nowMs r := by
  intro h
  obtain ⟨s, hreach, hafter, -, hauth⟩ := deletion_reached
  obtain ⟨e, he⟩ := h s hreach true "u_2" _ memberRequest hafter 2000
  rw [hauth] at he
  cases he

end RapidRouter.Server
