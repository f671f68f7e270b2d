import RapidRouter.Core.Config
import RapidRouter.Store.State
import RapidRouter.Server.Session

/-!
# The admin API

`router-server/src/admin.rs`: who a request comes from (`authenticate`), what
that principal may do (`resolveAuthz`), the coarse gate by method and path
(`enforce`), and the handlers that write the control-plane document.

A `Call` is a routed request with its decoded body; what the source draws at
random or reads from the clock (key material, ids, salts, nonces, the time)
is part of the call or an argument. `Call.method` and `Call.path` are what
`enforce` sees. Handlers that only look, and those that touch nothing the
model keeps (probing an upstream, a device login, prices), share `look`.
The endpoints that edit the configuration document all end in
`commit_document`, so they differ only in their route and the text the edit
leaves.
-/

namespace RapidRouter.Server

open RapidRouter.Core Core.Text Store

structure ApiError where
  status : Nat
  message : String
  deriving DecidableEq, Repr

/-- Third-party functions: hashing, the TOML and JSON readers. -/
structure Platform where
  parser : Parser
  hashSecret : String → String
  hashPassword : (salt password : String) → String
  verifyPassword : (password stored : String) → Bool
  isJson : String → Bool

/-- One gateway process, as far as the admin API sees it. -/
structure Node where
  signer : SessionSigner
  fileManaged : Bool
  env : String → Option String
  files : OrdMap String String
  dataDir : Option String
  config : Config
  appliedText : Option String
  snapshot : Snapshot
  sessions : OrdMap String Session

namespace Node

/-- Where this node resolves references: `store.` names from its copy of the
document, everything else from the process environment and the disk. -/
def sources (n : Node) : Sources where
  env name :=
    match stripPrefix "store." name with
    | some secret => n.snapshot.state.secrets.get? secret
    | none => n.env name
  file := n.files.get?

/-- `AppState::adopt_store_state`: make the document's configuration live,
keeping the last good one when it does not parse here. -/
def adoptStoreState (P : Platform) (n : Node) : Node :=
  match n.snapshot.state.configText with
  | none => n
  | some text =>
    if n.appliedText = some text then n
    else
      match Config.fromStr P.parser n.sources text with
      | .ok config => { n with config := config, appliedText := some text }
      | .error _ => n

end Node

/-! ## Who is asking -/

/-- The credentials of a request: the bearer token and the session cookie. -/
structure Request where
  bearer : Option String
  cookie : Option String
  deriving DecidableEq

/-- The session a presented token stands for: from the cache, else
rehydrated from its signature. -/
def sessionPrincipal (n : Node) (nowMs : Nat) (token : String) : Option Principal × Node :=
  let live := n.sessions.retain fun _ session => nowMs ≤ session.expiresMs
  match live.get? token with
  | some session => (some session.principal, { n with sessions := live })
  | none =>
    match n.signer.verify token nowMs with
    | none => (none, { n with sessions := live })
    | some (principal, expiresMs) =>
      (some principal, { n with sessions := live.insert token ⟨expiresMs, principal⟩ })

/-- `admin_auth`, up to the principal. -/
def authenticate (n : Node) (nowMs : Nat) (r : Request) : Except ApiError Principal × Node :=
  if !n.config.console.enabled then (.error ⟨404, "console is disabled"⟩, n)
  else if r.bearer.any fun token => n.config.console.adminKeys.contains token then
    (.ok .adminKey, n)
  else
    match r.bearer.or r.cookie with
    | none => (.error ⟨401, "missing or invalid admin session"⟩, n)
    | some token =>
      match sessionPrincipal n nowMs token with
      | (some principal, n') => (.ok principal, n')
      | (none, n') => (.error ⟨401, "missing or invalid admin session"⟩, n')

structure Authz where
  userId : Option String
  isAdmin : Bool
  grant : Grant
  deriving DecidableEq

/-- `resolve_authz`, from this node's copy of the document. -/
def resolveAuthz (s : StoreState) : Principal → Authz
  | .adminKey => ⟨none, true, Grant.admin⟩
  | .user id =>
    let isAdmin := (s.users.get? id).any fun u => u.role = .admin
    ⟨some id, isAdmin, if isAdmin then Grant.admin else Grant.forMember id s.teams.values⟩

inductive Method where
  | get
  | post
  | put
  | delete
  deriving DecidableEq, Repr

/-- `enforce`: the coarse gate, by method and path. -/
def enforce (authz : Authz) (method : Method) (path : String) : Except ApiError Unit :=
  if method = .get ∨ authz.isAdmin then .ok ()
  else if startsWith "/users" path || startsWith "/teams" path then
    .error ⟨403, "managing users and teams needs an admin"⟩
  else
    let needed := if startsWith "/keys" path then TeamAccess.keys else TeamAccess.full
    if authz.grant.access < needed then
      .error ⟨403,
        match needed with
        | .keys => "your teams do not allow managing virtual keys"
        | _ => "your teams grant read-only or key access, not configuration changes"⟩
    else .ok ()

/-! ## Requests -/

structure KeyInput where
  name : String
  models : List String
  tenant : Option String
  budget : Option Budget
  rate : Option RateLimit
  expiresMs : Option Nat
  tags : OrdMap String String
  deriving DecidableEq

structure KeyUpdate where
  name : Option String
  models : Option (List String)
  tenant : Option (Option String)
  budget : Option (Option Budget)
  rate : Option (Option RateLimit)
  expiresMs : Option (Option Nat)
  tags : Option (OrdMap String String)
  enabled : Option Bool
  deriving DecidableEq

/-- What `vkey::generate` drew. -/
structure GeneratedKey where
  id : String
  secret : String
  deriving DecidableEq

/-- `GeneratedKey::full`. -/
def GeneratedKey.full (g : GeneratedKey) : String := "ck-" ++ g.id ++ "-" ++ g.secret

structure UserWrite where
  email : String
  password : Option String
  role : Option String
  deriving DecidableEq

structure TeamWrite where
  name : String
  members : List String
  models : List String
  access : Option String
  deriving DecidableEq

/-- The endpoints that edit the configuration document. -/
inductive DocumentRoute where
  | createTenant
  | deleteTenant (name : String)
  | createProvider
  | updateProvider (name : String)
  | deleteProvider (name : String)
  | addProviderKey (name : String)
  | addProviderKeys (name : String)
  | deleteProviderKeys (name : String)
  | addModel (name : String)
  | deleteModel (name model : String)
  | setAccountTenant (name key : String)
  | deleteProviderKey (name key : String)
  | putRoute
  | deleteRoute (name : String)
  deriving DecidableEq

def DocumentRoute.method : DocumentRoute → Method
  | .createTenant | .createProvider | .addProviderKey _ | .addProviderKeys _ | .addModel _
  | .putRoute => .post
  | .updateProvider _ | .setAccountTenant _ _ => .put
  | .deleteTenant _ | .deleteProvider _ | .deleteProviderKeys _ | .deleteModel _ _
  | .deleteProviderKey _ _ | .deleteRoute _ => .delete

def DocumentRoute.path : DocumentRoute → String
  | .createTenant => "/tenants"
  | .deleteTenant name => "/tenants/" ++ name
  | .createProvider => "/providers"
  | .updateProvider name => "/providers/" ++ name
  | .deleteProvider name => "/providers/" ++ name
  | .addProviderKey name => "/providers/" ++ name ++ "/keys"
  | .addProviderKeys name => "/providers/" ++ name ++ "/keys/bulk"
  | .deleteProviderKeys name => "/providers/" ++ name ++ "/keys/bulk"
  | .addModel name => "/providers/" ++ name ++ "/models"
  | .deleteModel name model => "/providers/" ++ name ++ "/models/" ++ model
  | .setAccountTenant name key => "/providers/" ++ name ++ "/keys/" ++ key ++ "/tenant"
  | .deleteProviderKey name key => "/providers/" ++ name ++ "/keys/" ++ key
  | .putRoute => "/routes"
  | .deleteRoute name => "/routes/" ++ name

inductive Call where
  | look (method : Method) (path : String)
  | getConfig
  | putConfig (version : Nat) (text : String)
  | editDocument (route : DocumentRoute) (text : String)
  | createKey (input : KeyInput) (drawn : GeneratedKey)
  | updateKey (id : String) (input : KeyUpdate)
  | rotateKey (id : String) (secret : String)
  | deleteKey (id : String)
  | putSecret (name value : String)
  | putCredentialFile (name content : String)
  | putCredentialFiles (files : List (String × String))
  | createUser (input : UserWrite) (id salt : String)
  | updateUser (id : String) (input : UserWrite) (salt : String)
  | deleteUser (id : String)
  | putTeam (input : TeamWrite) (id : String)
  | putTeamById (id : String) (input : TeamWrite)
  | deleteTeam (id : String)
  deriving DecidableEq

def Call.method : Call → Method
  | .look method _ => method
  | .getConfig => .get
  | .putConfig _ _ | .updateKey _ _ | .updateUser _ _ _ | .putTeamById _ _ => .put
  | .editDocument route _ => route.method
  | .createKey _ _ | .rotateKey _ _ | .putSecret _ _ | .putCredentialFile _ _
  | .putCredentialFiles _ | .createUser _ _ _ | .putTeam _ _ => .post
  | .deleteKey _ | .deleteUser _ | .deleteTeam _ => .delete

def Call.path : Call → String
  | .look _ path => path
  | .getConfig | .putConfig _ _ => "/config"
  | .editDocument route _ => route.path
  | .createKey _ _ => "/keys"
  | .updateKey id _ | .deleteKey id => "/keys/" ++ id
  | .rotateKey id _ => "/keys/" ++ id ++ "/rotate"
  | .putSecret _ _ => "/secrets"
  | .putCredentialFile _ _ => "/credential-files"
  | .putCredentialFiles _ => "/credential-files/bulk"
  | .createUser _ _ _ => "/users"
  | .updateUser id _ _ | .deleteUser id => "/users/" ++ id
  | .putTeam _ _ => "/teams"
  | .putTeamById id _ | .deleteTeam id => "/teams/" ++ id

/-- What a successful request answers, as far as it carries anything that
authenticates. -/
inductive Reply where
  | done
  | version (version : Nat)
  | document (mode : String) (readOnly : Bool) (version : Nat) (text : String)
  | key (full : String) (version : Nat)
  | reference (reference : String)
  | uploads (written failed : List (String × String))
  | session (token : String) (expiresMs : Nat)
  deriving DecidableEq

/-- The texts an answer lets its reader see. -/
def Reply.reveals : Reply → List String
  | .document _ _ _ text => [text]
  | .key full _ => [full]
  | .session token _ => [token]
  | _ => []

abbrev Outcome := Except ApiError Reply

/-! ## Handlers -/

/-- `commit_error`. -/
def commitError (e : CommitError) : ApiError :=
  match e with
  | .conflict _ _ => ⟨409, e.text⟩
  | .unavailable _ => ⟨503, e.text⟩

/-- How `commit_document` reports a commit that did not land. -/
def documentError (e : CommitError) : ApiError :=
  match e with
  | .conflict _ _ => ⟨409, "the configuration changed since it was read; reload and try again"⟩
  | .unavailable _ => ⟨500, e.text⟩

/-- Where a handler stands when it has decided: an answer, or a commit and
how to go on from its result. -/
inductive Step where
  | answer (n : Node) (outcome : Outcome)
  | commit (n : Node) (refused : CommitError → ApiError) (expect : Option Nat)
      (command : Command) (reply : Node → Node × Outcome)

/-- Carry a step out against the authoritative document; also returns what
the document is afterwards. -/
def Step.run (doc : Snapshot) (up : Bool) : Step → (Node × Outcome) × Snapshot
  | .answer n outcome => ((n, outcome), doc)
  | .commit n refused expect command reply =>
    match Store.commit n.snapshot doc up expect command with
    | (.error e, kept) => (({ n with snapshot := kept }, .error (refused e)), doc)
    | (.ok next, _) => (reply { n with snapshot := next }, next)

def fail (n : Node) (status : Nat) (message : String) : Step := .answer n (.error ⟨status, message⟩)

/-- `writable`, of a node that has a store. -/
def writable (n : Node) (handler : Step) : Step :=
  if n.fileManaged then fail n 403 "file mode is read-only; edit the source file and reload"
  else handler

/-- `check_tenant`. -/
def checkTenant (n : Node) : Option String → Except String Unit
  | none => .ok ()
  | some tenant =>
    if tenant ∈ n.config.tenants then .ok ()
    else .error ("no service named `" ++ tenant ++ "` is declared")

def getConfig (n : Node) : Step :=
  Step.answer n (.ok (.document (if n.fileManaged then "file" else "managed") n.fileManaged
    n.snapshot.version (n.snapshot.state.configText.getD "")))

/-- The tail of `put_config` and `commit_document`: validate, commit, adopt. -/
def commitDocument (P : Platform) (refused : CommitError → ApiError) (n : Node) (version : Nat)
    (text : String) : Step :=
  match Config.fromStr P.parser n.sources text with
  | .error e => fail n 422 e.text
  | .ok _ =>
    Step.commit n refused (some version) (.putConfig text) fun n' =>
      (n'.adoptStoreState P, .ok (.version n'.snapshot.version))

def putConfig (P : Platform) (n : Node) (version : Nat) (text : String) : Step :=
  writable n (commitDocument P commitError n version text)

/-- A document edit: it read the document at the version it commits against. -/
def editDocument (P : Platform) (n : Node) (text : String) : Step :=
  writable n (commitDocument P documentError n n.snapshot.version text)

/-- The tags `create_key` records: the member's first team and their id, over
whatever the caller supplied. -/
def createdTags (authz : Authz) (tags : OrdMap String String) : OrdMap String String :=
  let tags := match authz.grant.teams.head? with
    | some team => tags.insert "team" team
    | none => tags
  match authz.userId with
  | some user => tags.insert "created_by" user
  | none => tags

/-- The definition `create_key` commits. -/
def createdDef (P : Platform) (nowMs : Nat) (authz : Authz) (input : KeyInput)
    (drawn : GeneratedKey) : VirtualKeyDef where
  id := drawn.id
  name := input.name
  secretHash := P.hashSecret drawn.secret
  prevSecret := none
  models := input.models
  tenant := input.tenant
  budget := input.budget
  rate := input.rate
  expiresMs := input.expiresMs
  tags := createdTags authz input.tags
  enabled := true
  createdMs := nowMs

def createKey (P : Platform) (n : Node) (nowMs : Nat) (authz : Authz) (input : KeyInput)
    (drawn : GeneratedKey) : Step :=
  writable n <|
    if trim input.name = "" then fail n 422 "name must not be empty"
    -- An unscoped key is the widest of all: it needs an unscoped grant.
    else if authz.grant.models.isSome ∧ input.models = [] then
      fail n 403 "your teams are scoped to specific models; pick which ones this key may use"
    else if authz.grant.models.isSome ∧ authz.grant.allowsModels input.models = false then
      fail n 403 "one or more models are outside your teams' access"
    else
      match checkTenant n input.tenant with
      | .error message => fail n 422 message
      | .ok _ =>
        Step.commit n commitError none (.putVirtualKey (createdDef P nowMs authz input drawn)) fun n' =>
          (n', .ok (.key drawn.full n'.snapshot.version))

/-- The definition `update_key` commits: each field given replaces the old. -/
def KeyUpdate.applyTo (input : KeyUpdate) (d : VirtualKeyDef) : VirtualKeyDef :=
  { d with
    name := input.name.getD d.name
    models := input.models.getD d.models
    tenant := input.tenant.getD d.tenant
    budget := input.budget.getD d.budget
    rate := input.rate.getD d.rate
    expiresMs := input.expiresMs.getD d.expiresMs
    tags := input.tags.getD d.tags
    enabled := input.enabled.getD d.enabled }

def updateKey (n : Node) (id : String) (input : KeyUpdate) : Step :=
  writable n <|
    match n.snapshot.state.virtualKeys.get? id with
    | none => fail n 404 "virtual key not found"
    | some d =>
      match checkTenant n (input.tenant.getD none) with
      | .error message => fail n 422 message
      | .ok _ =>
        Step.commit n commitError (some n.snapshot.version) (.putVirtualKey (input.applyTo d)) fun n' =>
          (n', .ok (.version n'.snapshot.version))

/-- The definition `rotate_key` commits: a new secret, the old one honoured
for a day. -/
def rotatedDef (P : Platform) (nowMs : Nat) (secret : String) (d : VirtualKeyDef) :
    VirtualKeyDef :=
  { d with
    prevSecret := some ⟨d.secretHash, nowMs + 24 * 60 * 60 * 1000⟩
    secretHash := P.hashSecret secret }

def rotateKey (P : Platform) (n : Node) (nowMs : Nat) (id secret : String) : Step :=
  writable n <|
    match n.snapshot.state.virtualKeys.get? id with
    | none => fail n 404 "virtual key not found"
    | some d =>
      Step.commit n commitError (some n.snapshot.version) (.putVirtualKey (rotatedDef P nowMs secret d))
        fun n' => (n', .ok (.key ("ck-" ++ d.id ++ "-" ++ secret) n'.snapshot.version))

def deleteKey (n : Node) (id : String) : Step :=
  writable n <|
    Step.commit n commitError (some n.snapshot.version) (.deleteVirtualKey id) fun n' =>
      (n', .ok (.version n'.snapshot.version))

def putSecret (n : Node) (name value : String) : Step :=
  writable n <|
    if !isReferenceName (trim name) then
      fail n 422 "secret names use letters, digits, `_` and `-`"
    else if trim value = "" then fail n 422 "an empty secret is not a secret"
    else
      Step.commit n commitError none (.putSecret (trim name) (trim value)) fun n' =>
        (n', .ok (.reference ("store." ++ trim name)))

/-- Where an uploaded credential document of this name is kept. -/
def credentialPath (dir name : String) : String := dir ++ "/credentials/" ++ name ++ ".json"

def putCredentialFile (P : Platform) (n : Node) (name content : String) : Step :=
  writable n <|
    if !isReferenceName (trim name) then
      fail n 422 "credential file names use letters, digits, `_` and `-`"
    else if !P.isJson content then fail n 422 "the uploaded file is not valid JSON"
    else
      match n.dataDir with
      | none => fail n 409 "this node has no data directory"
      | some dir =>
        let path := credentialPath dir (trim name)
        Step.answer { n with files := n.files.insert path content } (.ok (.reference ("file:" ++ path)))

/-- One file of a bulk upload, after the ones before it. -/
def uploadOne (P : Platform) (dir : String)
    (acc : OrdMap String String × List (String × String) × List (String × String))
    (file : String × String) :
    OrdMap String String × List (String × String) × List (String × String) :=
  let (files, written, failed) := acc
  let name := trim file.1
  if !isReferenceName name then
    (files, written, failed ++ [(file.1, "invalid credential file name")])
  else if !P.isJson file.2 then (files, written, failed ++ [(name, "not valid JSON")])
  else
    let path := credentialPath dir name
    (files.insert path file.2, written ++ [(name, "file:" ++ path)], failed)

def putCredentialFiles (P : Platform) (n : Node) (uploads : List (String × String)) :
    Step :=
  writable n <|
    match n.dataDir with
    | none => fail n 409 "this node has no data directory"
    | some dir =>
      let (files, written, failed) := uploads.foldl (uploadOne P dir) (n.files, [], [])
      Step.answer { n with files := files } (.ok (.uploads written failed))

/-- `parse_role`. -/
def parseRole : Option String → Except ApiError UserRole
  | none => .ok .member
  | some role =>
    if role = "member" then .ok .member
    else if role = "admin" then .ok .admin
    else .error ⟨422, "unknown role `" ++ role ++ "`; use `admin` or `member`"⟩

/-- The role after an update that may leave it alone. -/
def updatedRole (old : UserRole) : Option String → Except ApiError UserRole
  | none => .ok old
  | some role => parseRole (some role)

def createUser (P : Platform) (n : Node) (nowMs : Nat) (input : UserWrite) (id salt : String) :
    Step :=
  writable n <|
    let email := toAsciiLowercase (trim input.email)
    if email = "" ∨ '@' ∉ email.toList then fail n 422 "a valid email is required"
    else
      match input.password.filter fun p => 8 ≤ p.utf8ByteSize with
      | none => fail n 422 "a password of at least 8 characters is required"
      | some password =>
        if n.snapshot.state.users.values.any fun u => u.email = email then
          fail n 409 "a user with this email already exists"
        else
          match parseRole input.role with
          | .error e => Step.answer n (.error e)
          | .ok role =>
            let d : UserDef := ⟨"u_" ++ id, email, P.hashPassword salt password, role, nowMs⟩
            Step.commit n commitError none (.putUser d) fun n' => (n', .ok .done)

def updateUser (P : Platform) (n : Node) (id : String) (input : UserWrite) (salt : String) :
    Step :=
  writable n <|
    match n.snapshot.state.users.get? id with
    | none => fail n 404 "no such user"
    | some user =>
      if input.password.any fun p => p.utf8ByteSize < 8 then
        fail n 422 "password too short"
      else
        match updatedRole user.role input.role with
        | .error e => Step.answer n (.error e)
        | .ok role =>
          let hash := (input.password.map (P.hashPassword salt)).getD user.passwordHash
          Step.commit n commitError none (.putUser { user with passwordHash := hash, role := role }) fun n' =>
            (n', .ok .done)

def deleteUser (n : Node) (id : String) : Step :=
  writable n <|
    -- Sessions are revoked before the commit, on this node.
    let n := { n with sessions := n.sessions.retain fun _ s => s.principal ≠ .user id }
    Step.commit n commitError none (.deleteUser id) fun n' => (n', .ok .done)

/-- The access level `upsert_team` reads. -/
def parseAccess : Option String → Except ApiError TeamAccess
  | none => .ok .keys
  | some access =>
    if access = "keys" then .ok .keys
    else if access = "full" then .ok .full
    else if access = "read_only" then .ok .readOnly
    else .error ⟨422, "unknown access `" ++ access ++ "`; use `full`, `keys` or `read_only`"⟩

/-- `upsert_team`; `drawn` is the id a new team would get. -/
def upsertTeam (n : Node) (nowMs : Nat) (id : Option String) (drawn : String)
    (input : TeamWrite) : Step :=
  writable n <|
    if trim input.name = "" then fail n 422 "a team name is required"
    else
      match parseAccess input.access with
      | .error e => Step.answer n (.error e)
      | .ok access =>
        match input.members.find? fun m => (n.snapshot.state.users.get? m).isNone with
        | some ghost => fail n 422 ("`" ++ ghost ++ "` is not a user on this gateway")
        | none =>
          let created := (id.bind n.snapshot.state.teams.get?).map (·.createdMs)
          let d : TeamDef :=
            ⟨id.getD ("t_" ++ drawn), trim input.name, input.members.toFinset,
              input.models.toFinset, access, created.getD nowMs⟩
          Step.commit n commitError none (.putTeam d) fun n' => (n', .ok .done)

def deleteTeam (n : Node) (id : String) : Step :=
  writable n <| Step.commit n commitError none (.deleteTeam id) fun n' => (n', .ok .done)

/-- The handler a call is routed to. -/
def handler (P : Platform) (n : Node) (nowMs : Nat) (authz : Authz) : Call → Step
  | .look _ _ => Step.answer n (.ok .done)
  | .getConfig => getConfig n
  | .putConfig version text => putConfig P n version text
  | .editDocument _ text => editDocument P n text
  | .createKey input drawn => createKey P n nowMs authz input drawn
  | .updateKey id input => updateKey n id input
  | .rotateKey id secret => rotateKey P n nowMs id secret
  | .deleteKey id => deleteKey n id
  | .putSecret name value => putSecret n name value
  | .putCredentialFile name content => putCredentialFile P n name content
  | .putCredentialFiles files => putCredentialFiles P n files
  | .createUser input id salt => createUser P n nowMs input id salt
  | .updateUser id input salt => updateUser P n id input salt
  | .deleteUser id => deleteUser n id
  | .putTeam input drawn => upsertTeam n nowMs none drawn input
  | .putTeamById id input => upsertTeam n nowMs (some id) "" input
  | .deleteTeam id => deleteTeam n id

/-- The gate and the handler, for a resolved authorization. -/
def authorised (P : Platform) (n : Node) (nowMs : Nat) (authz : Authz) (call : Call) : Step :=
  match enforce authz call.method call.path with
  | .error e => .answer n (.error e)
  | .ok _ => handler P n nowMs authz call

/-- A protected route: authenticate, resolve, gate, handle. -/
def serve (P : Platform) (n : Node) (nowMs : Nat) (r : Request) (call : Call) : Step :=
  match authenticate n nowMs r with
  | (.error e, n') => .answer n' (.error e)
  | (.ok principal, n') =>
    authorised P n' nowMs (resolveAuthz n'.snapshot.state principal) call

/-- A step on the only node of its store, whose copy is the document. -/
def Step.alone (n : Node) (s : Step) : Node × Outcome := (s.run n.snapshot true).1

/-- The body of a login. -/
inductive SessionRequest where
  | key (key : String)
  | password (email password : String)
  | empty
  deriving DecidableEq

/-- `create_session`. -/
def createSession (P : Platform) (n : Node) (nowMs : Nat) (input : SessionRequest) (nonce : Nat) :
    Node × Outcome :=
  if !n.config.console.enabled then (n, .error ⟨401, "console is disabled"⟩)
  else
    match input with
    | .key key =>
      if n.config.console.adminKeys.contains key then issue .adminKey
      else (n, .error ⟨401, "invalid admin key"⟩)
    | .password email password =>
      match n.snapshot.state.users.values.find? fun u => eqIgnoreAsciiCase u.email email with
      | some user =>
        if P.verifyPassword password user.passwordHash then issue (.user user.id)
        else (n, .error ⟨401, "invalid email or password"⟩)
      | none => (n, .error ⟨401, "invalid email or password"⟩)
    | .empty => (n, .error ⟨400, "send `key`, or `email` and `password`"⟩)
where
  issue (principal : Principal) : Node × Outcome :=
    let expiresMs := nowMs + n.config.console.sessionTtlMs
    let token := n.signer.mint principal expiresMs nonce
    ({ n with sessions := n.sessions.insert token ⟨expiresMs, principal⟩ },
      .ok (.session token expiresMs))

end RapidRouter.Server
