import RapidRouter.Core.Credential
import RapidRouter.Lib.Lts
import RapidRouter.Usage.Pages

/-!
# Signing a seat in from the console

`router-server/src/device_login.rs`. `start` mints a one-time code for a seat and
hands back one that is still outstanding; a task of its own polls until the
operator has claimed the code, exchanges what was claimed for tokens, merges them
into the seat's document, writes the file and publishes the seat (`install`), and
settles the login with what came of it. The console reads the outcome from the
registry, until the login is reaped by a later start.

Any number of starts and polling tasks are under way here, and each step between
two of their awaits, locks or writes is a step of the run; whatever else the
gateway does to the table, the seats and the files is a step too. A ghost log
keeps what was done for each login. `logins_accountable` says what it reads like:
a login that failed has written no file and published no seat, one that signed in
has done both in this order, and each is settled once and kept for the console to
read.
-/

namespace RapidRouter

namespace Core

/-- `code` of an error class. -/
def ErrorClass.code : ErrorClass → String
  | .invalidRequest => "invalid_request"
  | .authentication => "invalid_api_key"
  | .permission => "permission_denied"
  | .notFound => "not_found"
  | .payloadTooLarge => "payload_too_large"
  | .rateLimited => "rate_limited"
  | .insufficientQuota => "insufficient_quota"
  | .upstreamError => "upstream_error"
  | .noCapacity => "no_capacity"
  | .timeout => "timeout"

/-- An error as it is displayed. -/
def GatewayError.display (e : GatewayError) : String := e.class_.code ++ ": " ++ e.message

def Credential.CredentialError.display : Credential.CredentialError → String
  | .notJson => "credential is not valid JSON"
  | .noAccessToken => "credential document carries no access token"
  | .noAccountId => "codex credential carries no account id and no id_token to derive one from"

end Core

namespace Server.Login

open Lts
open Json (Value Bytes fromSlice utf8)
open Core (ProviderKind GatewayError Text.trim Text.eqIgnoreAsciiCase)
open Core.Credential

/-! ## The registry -/

def codexDeviceVerificationUrl : String := "https://auth.openai.com/codex/device"

def codexDeviceCodeTtlS : Nat := 15 * 60

def codexDevicePollIntervalS : Nat := 5

def retainFinishedMs : Nat := 5 * 60 * 1000

inductive Outcome where
  | waiting
  | signed (email : Option String)
  | failed (reason : String)
  deriving DecidableEq

structure DeviceLogin where
  provider : String
  key : String
  userCode : String
  verificationUrl : String
  expiresAtMs : Nat
  outcome : Outcome
  finishedAtMs : Option Nat
  deriving DecidableEq

/-- The sessions, by id. The order in which they are searched is not known. -/
abbrev Registry := OrdMap String DeviceLogin

/-- A record nobody can still be waiting on. -/
def DeviceLogin.stale (login : DeviceLogin) (now : Nat) : Bool :=
  match login.finishedAtMs with
  | some at_ => retainFinishedMs ≤ now - at_
  | none => saturatingAdd login.expiresAtMs retainFinishedMs ≤ now

def DeviceLogin.outstandingFor (login : DeviceLogin) (provider key : String) (now : Nat) : Bool :=
  login.provider = provider && login.key = key && login.outcome = .waiting &&
    now < login.expiresAtMs

namespace Registry

def settle (r : Registry) (id : String) (outcome : Outcome) (now : Nat) : Registry :=
  match r.get? id with
  | some login => r.insert id { login with outcome := outcome, finishedAtMs := some now }
  | none => r

def reap (r : Registry) (now : Nat) : Registry := r.retain fun _ login => !login.stale now

/-- `outstanding` may find this one. -/
def mayFind (r : Registry) (provider key : String) (now : Nat) : Option String → Bool
  | some id => (r.get? id).any (·.outstandingFor provider key now)
  | none => r.entries.all fun e => !e.2.outstandingFor provider key now

end Registry

/-! ## The configuration -/

structure Key where
  name : String
  /-- Where the state of its seat is; a static credential has none. -/
  seat : Option Nat
  sourcePath : Option String

structure Provider where
  name : String
  kind : ProviderKind
  keys : List Key

abbrev Table := List Provider

def Table.key (table : Table) (provider key : String) : Option Key :=
  (table.find? (·.name = provider)).bind fun p => p.keys.find? (·.name = key)

structure Refusal where
  status : Nat
  message : String
  deriving DecidableEq

/-- What `start` asks of the seat. -/
def eligible (table : Table) (provider key : String) : Except Refusal Unit :=
  match table.find? (·.name = provider) with
  | none => .error ⟨404, "no provider `" ++ provider ++ "`"⟩
  | some p =>
    if p.kind ≠ .codexSubscription then
      .error ⟨409, "device login is a Codex flow; this provider signs in another way"⟩
    else
      match p.keys.find? (·.name = key) with
      | none => .error ⟨404, "no credential `" ++ key ++ "`"⟩
      | some k =>
        if k.seat.isNone then .error ⟨409, "this credential is not a subscription seat"⟩
        else if k.sourcePath.isNone then
          .error ⟨409, "this seat is configured inline or from the environment, so a new " ++
            "credential would have nowhere to be written — point it at a credential file first"⟩
        else .ok ()

/-! ## The endpoints -/

/-- A response read to the end. -/
structure Read where
  status : Nat
  bytes : Bytes

/-- How a status displays, and what a JSON reader says of bytes it cannot read. -/
structure Texts where
  status : Nat → String
  json : Bytes → String

def isSuccess (status : Nat) : Bool := 200 ≤ status && status < 300

structure Minted where
  deviceAuthId : String
  userCode : String
  intervalS : Nat

/-- The spacing of the polls, sent as a string or as a number. -/
def intervalOf (value : Value) : Nat :=
  (((value.get? "interval").bind fun v =>
    v.asU64.or (v.asStr.bind fun s => Usage.Pages.parseU64 (Text.trim s).toList)).filter
      (0 < ·)).getD codexDevicePollIntervalS

section
variable (T : Texts)

/-- `request_user_code`, of what the usercode endpoint answers. -/
def requestUserCode : Except GatewayError Read → Except GatewayError Minted
  | .error err => .error err
  | .ok read =>
    if !isSuccess read.status then
      .error (.new .upstreamError ("device code request refused with " ++ T.status read.status))
    else
      match fromSlice read.bytes with
      | none =>
        .error (.new .upstreamError ("device code response was not JSON: " ++ T.json read.bytes))
      | some value =>
        match nonEmpty value "device_auth_id",
          (nonEmpty value "user_code").or (nonEmpty value "usercode") with
        | some deviceAuthId, some userCode => .ok ⟨deviceAuthId, userCode, intervalOf value⟩
        | _, _ => .error (.new .upstreamError "device code response carried no code")

inductive Polled where
  | again
  | claimed (bytes : Bytes)
  | refused (reason : String)

/-- What a poll says: a code that is outstanding is a 403 or a 404, and a
transport error is not a refusal. -/
def polled : Except GatewayError Read → Polled
  | .error _ => .again
  | .ok read =>
    if isSuccess read.status then .claimed read.bytes
    else if read.status = 403 ∨ read.status = 404 then .again
    else .refused ("OpenAI refused the login with " ++ T.status read.status)

/-- The authorization code and its verifier. -/
def claimedCode (bytes : Bytes) : Except String (String × String) :=
  match fromSlice bytes with
  | none => .error ("login response was not JSON: " ++ T.json bytes)
  | some claimed =>
    match nonEmpty claimed "authorization_code", nonEmpty claimed "code_verifier" with
    | some code, some verifier => .ok (code, verifier)
    | _, _ => .error "login response carried no authorization code"

/-- `exchange`, of what the token endpoint answers. -/
def exchange : Except GatewayError Read → Except GatewayError Value
  | .error err => .error err
  | .ok read =>
    if !isSuccess read.status then
      .error (.new .authentication ("token endpoint answered " ++ T.status read.status))
    else
      match fromSlice read.bytes with
      | none => .error (.new .upstreamError ("token response was not JSON: " ++ T.json read.bytes))
      | some tokens => .ok tokens

end

/-! ## Installing the credential -/

structure Install where
  path : String
  seat : Nat
  document : Document
  renewed : SeatState

/-- The addresses, when both are known and are not one. -/
def otherAccount (had got : Option String) : Option (String × String) :=
  match had, got with
  | some had, some got => if Text.eqIgnoreAsciiCase had got then none else some (had, got)
  | _, _ => none

/-- `install`, up to the write. -/
def prepare (c : Core.Credential.Claims) (table : Table) (seats : Nat → SeatState)
    (provider key : String) (tokens : Value) (now : Nat) : Except String Install :=
  match table.key provider key with
  | none => .error "the credential was removed while the login was in progress"
  | some k =>
    match k.seat, k.sourcePath with
    | some seat, some path =>
      match mergeRefresh c (seats seat).document tokens now with
      | .error err => .error ("could not build the credential document: " ++ err.display)
      | .ok merged =>
        match parseCodexAuthJson c merged with
        | .error err => .error ("the new credential did not parse: " ++ err.display)
        | .ok renewed =>
          match otherAccount (seats seat).email renewed.email with
          | some (had, got) =>
            .error ("signed in as " ++ got ++ ", but this seat is " ++ had ++
              " — sign out of ChatGPT, or use the seat for " ++ got)
          | none => .ok ⟨path, seat, merged, renewed⟩
    | _, _ => .error "the credential is no longer a seat with a file to write"

/-! ## Tasks -/

/-- How far a start has got. -/
inductive Starting where
  | called
  | reaped
  | eligible
  /-- A code is asked for; the logins there were when none was outstanding. -/
  | minting (seen : List String)
  | minted (seen : List String) (minted : Minted)
  | answered (answer : Except Refusal (String × DeviceLogin))

structure Poll where
  id : String
  provider : String
  key : String
  minted : Minted

/-- How far a polling task has got. -/
inductive Stage where
  | spawned
  | polling (deadline : Nat)
  | asleep (deadline : Nat)
  | exchanging (code verifier : String)
  | installing (tokens : Value)
  /-- Before the temporary file is written, and before it is renamed. -/
  | writing (install : Install)
  | written (install : Install)
  | publishing (install : Install)
  | settling (outcome : Outcome)

inductive Task where
  /-- A start, with the seat and the clock it was called by. -/
  | start (provider key : String) (now : Nat) (starting : Starting)
  | poll (p : Poll) (stage : Stage)
  | ended

/-- A code that was minted, with the clock of its start and the logins that had
been issued when that start found none outstanding. -/
structure Issue where
  id : String
  login : DeviceLogin
  asked : Nat
  seen : List String

/-- What is done for a login. -/
inductive Event where
  | issued (issue : Issue)
  /-- The table in force, the seat as it was and the tokens. -/
  | prepared (id : String) (table : Table) (had : SeatState) (tokens : Value) (install : Install)
  /-- The document that is in the file then, and whether the login wrote it. -/
  | renamed (id path : String) (document : Document) (own : Bool)
  | published (id : String) (seat : Nat) (renewed : SeatState)
  | settled (id : String) (outcome : Outcome)
  | reaped (id : String) (login : DeviceLogin) (now : Nat)

def Event.id : Event → String
  | .issued issue => issue.id
  | .prepared id _ _ _ _ => id
  | .renamed id _ _ _ => id
  | .published id _ _ => id
  | .settled id _ => id
  | .reaped id _ _ => id

/-- The registry, the tasks and a ghost: what was done, the last first. -/
structure Books where
  logins : Registry
  tasks : List Task
  log : List Event

structure State extends Books where
  table : Table
  seats : Nat → SeatState
  files : String → Option Document
  /-- The temporary file beside each, which every writer of the file shares. -/
  temporary : String → Option Document
  /-- A ghost: the login that wrote it last. -/
  writer : String → Option String

inductive Label where
  | start (provider key : String) (now : Nat)
  | reap (k : Nat)
  | check (k : Nat)
  | look (k : Nat) (found : Option String)
  | mint (k : Nat) (answer : Except GatewayError Read)
  | insert (k : Nat) (id : String)
  | arm (k now : Nat)
  /-- The deadline is looked at, and the task sleeps. -/
  | wait (k now : Nat)
  | poll (k : Nat) (answer : Except GatewayError Read)
  | exchange (k : Nat) (answer : Except GatewayError Read)
  | prepare (k now : Nat)
  | write (k : Nat) (error : Option String)
  | rename (k : Nat) (error : Option String)
  | publish (k : Nat)
  | settle (k now : Nat)
  /-- Reloads, rotations and other processes. -/
  | elsewhere (table : Table) (seats : Nat → SeatState) (files : String → Option Document)
  | writeElsewhere (path : String) (document : Option Document)

/-! ## The steps -/

def Event.issuedId : Event → Option String
  | .issued issue => some issue.id
  | _ => none

/-- The ids that were issued. -/
def Books.issuedIds (b : Books) : List String := b.log.filterMap Event.issuedId

/-- The records that `reap` drops. -/
def Books.dropped (b : Books) (now : Nat) : List Event :=
  (b.logins.entries.filter fun e => e.2.stale now).map fun e => .reaped e.1 e.2 now

def State.setTask (s : State) (k : Nat) (t : Task) : State := { s with tasks := s.tasks.set k t }

def State.record (s : State) (e : Event) : State := { s with log := e :: s.log }

def errorRefusal (err : GatewayError) : Refusal :=
  ⟨502, "could not get a login code from OpenAI: " ++ err.display⟩

/-- The login of a code that was just minted. -/
def newLogin (provider key : String) (now : Nat) (minted : Minted) : DeviceLogin where
  provider := provider
  key := key
  userCode := minted.userCode
  verificationUrl := codexDeviceVerificationUrl
  expiresAtMs := now + codexDeviceCodeTtlS * 1000
  outcome := .waiting
  finishedAtMs := none

def writeError (err : String) : Outcome :=
  .failed ("could not write the credential file: " ++ err)

section
variable (c : Core.Credential.Claims) (T : Texts)

/-- A start goes on. -/
def starts (s : State) (k : Nat) (provider key : String) (now : Nat) :
    Starting → Label → Option State
  | .called, .reap _ =>
    some { s with
      logins := s.logins.reap now
      log := s.dropped now ++ s.log
      tasks := s.tasks.set k (.start provider key now .reaped) }
  | .reaped, .check _ =>
    match eligible s.table provider key with
    | .error refusal => some (s.setTask k (.start provider key now (.answered (.error refusal))))
    | .ok () => some (s.setTask k (.start provider key now .eligible))
  | .eligible, .look _ found =>
    if s.logins.mayFind provider key now found then
      match found.bind fun id => (s.logins.get? id).map (id, ·) with
      | some existing =>
        some (s.setTask k (.start provider key now (.answered (.ok existing))))
      | none => some (s.setTask k (.start provider key now (.minting s.issuedIds)))
    else none
  | .minting seen, .mint _ answer =>
    match requestUserCode T answer with
    | .error err =>
      some (s.setTask k (.start provider key now (.answered (.error (errorRefusal err)))))
    | .ok minted => some (s.setTask k (.start provider key now (.minted seen minted)))
  | .minted seen minted, .insert _ id =>
    -- an id is never drawn twice
    if id ∈ s.issuedIds then none
    else
      let login := newLogin provider key now minted
      some { s with
        logins := s.logins.insert id login
        log := .issued ⟨id, login, now, seen⟩ :: s.log
        tasks := s.tasks.set k (.start provider key now (.answered (.ok (id, login)))) ++
          [.poll ⟨id, provider, key, minted⟩ .spawned] }
  | _, _ => none

/-- A polling task goes on. -/
def polls (s : State) (k : Nat) (p : Poll) : Stage → Label → Option State
  | .spawned, .arm _ now =>
    some (s.setTask k (.poll p (.polling (now + codexDeviceCodeTtlS * 1000))))
  | .polling deadline, .wait _ now =>
    if deadline ≤ now then
      some (s.setTask k (.poll p (.settling (.failed "the code expired before it was entered"))))
    else some (s.setTask k (.poll p (.asleep deadline)))
  | .asleep deadline, .poll _ answer =>
    match polled T answer with
    | .again => some (s.setTask k (.poll p (.polling deadline)))
    | .refused reason => some (s.setTask k (.poll p (.settling (.failed reason))))
    | .claimed bytes =>
      match claimedCode T bytes with
      | .error reason => some (s.setTask k (.poll p (.settling (.failed reason))))
      | .ok (code, verifier) => some (s.setTask k (.poll p (.exchanging code verifier)))
  | .exchanging _ _, .exchange _ answer =>
    match exchange T answer with
    | .error err =>
      some (s.setTask k (.poll p (.settling (.failed ("token exchange failed: " ++ err.display)))))
    | .ok tokens => some (s.setTask k (.poll p (.installing tokens)))
  | .installing tokens, .prepare _ now =>
    match prepare c s.table s.seats p.provider p.key tokens now with
    | .error reason => some (s.setTask k (.poll p (.settling (.failed reason))))
    | .ok install =>
      some ((s.record (.prepared p.id s.table (s.seats install.seat) tokens install)).setTask k
        (.poll p (.writing install)))
  | .writing install, .write _ error =>
    match error with
    | some err => some (s.setTask k (.poll p (.settling (writeError err))))
    | none =>
      some ({ s with
        temporary := Function.update s.temporary install.path (some install.document)
        writer := Function.update s.writer install.path (some p.id) }.setTask k
          (.poll p (.written install)))
  | .written install, .rename _ error =>
    match error, s.temporary install.path with
    | some err, _ => some (s.setTask k (.poll p (.settling (writeError err))))
    -- there is nothing to rename
    | none, none => none
    | none, some document =>
      some (({ s with
        files := Function.update s.files install.path (some document)
        temporary := Function.update s.temporary install.path none }.record
          (.renamed p.id install.path document (s.writer install.path = some p.id))).setTask k
            (.poll p (.publishing install)))
  | .publishing install, .publish _ =>
    some (({ s with seats := Function.update s.seats install.seat install.renewed }.record
      (.published p.id install.seat install.renewed)).setTask k
        (.poll p (.settling (.signed install.renewed.email))))
  | .settling outcome, .settle _ now =>
    some (({ s with logins := s.logins.settle p.id outcome now }.record
      (.settled p.id outcome)).setTask k .ended)
  | _, _ => none

/-- The task a step is of. -/
def Label.task : Label → Option Nat
  | .reap k | .check k | .look k _ | .mint k _ | .insert k _ | .arm k _ | .wait k _ | .poll k _
  | .exchange k _ | .prepare k _ | .write k _ | .rename k _ | .publish k | .settle k _ => some k
  | .start .. | .elsewhere .. | .writeElsewhere .. => none

def next (s : State) (l : Label) : Option State :=
  match l.task with
  | some k =>
    match s.tasks[k]? with
    | some (.start provider key now starting) => starts T s k provider key now starting l
    | some (.poll p stage) => polls c T s k p stage l
    | _ => none
  | none =>
    match l with
    | .start provider key now =>
      some { s with tasks := s.tasks ++ [.start provider key now .called] }
    | .elsewhere table seats files => some { s with table := table, seats := seats, files := files }
    | .writeElsewhere path document =>
      some { s with
        temporary := Function.update s.temporary path document
        writer := Function.update s.writer path none }
    | _ => none

/-- A gateway that has just started. -/
def Fresh (s : State) : Prop :=
  s.toBooks = ⟨.empty, [], []⟩ ∧ ∀ path, s.writer path = none

def signingIn : System State Label := ofNext Fresh (next c T)

end

/-- `device_login_status`: the record of a login, for the seat it is of. -/
def deviceLoginStatus (s : State) (name key session : String) : Except Refusal DeviceLogin :=
  match s.logins.get? session with
  | none => .error ⟨404, "that login is no longer being tracked — start a new one"⟩
  | some login =>
    if login.provider ≠ name ∨ login.key ≠ key then
      .error ⟨404, "that login belongs to another seat"⟩
    else .ok login

/-! ## What is done for a login -/

inductive Phase where
  | unknown
  | waiting (provider key : String)
  | prepared (install : Install)
  | renamed (install : Install)
  | published (install : Install)
  | settled (outcome : Outcome)

namespace Phase

def outcome : Phase → Outcome
  | .settled outcome => outcome
  | _ => .waiting

def isSettled : Phase → Bool
  | .settled _ => true
  | _ => false

/-- A code is outstanding, or the login it bought is being installed. -/
def Open (phase : Phase) : Prop := phase ≠ .unknown ∧ phase.isSettled = false

/-- Neither the file nor the seat has been changed. -/
def Untouched : Phase → Prop
  | .waiting _ _ | .prepared _ => True
  | _ => False

theorem Open.outcome_eq {phase : Phase} (h : phase.Open) : phase.outcome = .waiting := by
  cases phase with
  | settled outcome => cases h.2
  | _ => rfl

/-- What the registry says in a phase. -/
structure Shows (phase : Phase) (login : DeviceLogin) : Prop where
  known : phase ≠ .unknown
  outcome : login.outcome = phase.outcome
  finished : login.finishedAtMs.isSome = phase.isSettled

end Phase

section
variable (c : Core.Credential.Claims)

/-- A credential for the seat that was asked for: its file and its seat in the
table in force, its document with the tokens merged into it, and no other
account than the one it had. -/
structure Prepared (table : Table) (provider key : String) (had : SeatState) (tokens : Value)
    (install : Install) : Prop where
  key : ∃ k, table.key provider key = some k ∧ k.seat = some install.seat ∧
    k.sourcePath = some install.path
  merged : ∃ now, mergeRefresh c had.document tokens now = .ok install.document
  renewed : parseCodexAuthJson c install.document = .ok install.renewed
  account : otherAccount had.email install.renewed.email = none

/-- What a log tells of a login, and the phase that it leaves it in. Before a
login fails nothing is changed; before it is signed in, the file and then the
seat. Nothing but reaping follows. -/
inductive Told (id : String) : List Event → Phase → Prop where
  | start : Told id [] .unknown
  | other {e log phase} : e.id ≠ id → Told id log phase → Told id (e :: log) phase
  | issued {issue log} : issue.id = id → Told id log .unknown →
      Told id (.issued issue :: log) (.waiting issue.login.provider issue.login.key)
  | prepared {table had tokens install provider key log} :
      Prepared c table provider key had tokens install → Told id log (.waiting provider key) →
      Told id (.prepared id table had tokens install :: log) (.prepared install)
  | renamed {install document own log} : (own = true → document = install.document) →
      Told id log (.prepared install) →
      Told id (.renamed id install.path document own :: log) (.renamed install)
  | published {install log} : Told id log (.renamed install) →
      Told id (.published id install.seat install.renewed :: log) (.published install)
  | failed {phase reason log} : phase.Untouched → Told id log phase →
      Told id (.settled id (.failed reason) :: log) (.settled (.failed reason))
  | signed {install log} : Told id log (.published install) →
      Told id (.settled id (.signed install.renewed.email) :: log)
        (.settled (.signed install.renewed.email))
  | reaped {phase login now log} : phase.Shows login → login.stale now = true →
      Told id log phase → Told id (.reaped id login now :: log) phase

variable {c}

theorem known_of_issued {id : String} {log : List Event} {phase : Phase} (h : Told c id log phase) :
    id ∈ log.filterMap Event.issuedId ↔ phase ≠ .unknown := by
  induction h with
  | start => exact ⟨fun hmem => (by cases hmem), fun hne => absurd rfl hne⟩
  | @other e log phase hne _ ih =>
    rw [← ih]
    cases e with
    | issued issue =>
      have hcons : (Event.issued issue :: log).filterMap Event.issuedId =
          issue.id :: log.filterMap Event.issuedId := rfl
      rw [hcons, List.mem_cons]
      exact ⟨fun hor => hor.resolve_left fun heq => hne heq.symm, Or.inr⟩
    | _ => exact Iff.rfl
  | @issued issue log hid _ _ =>
    have hcons : (Event.issued issue :: log).filterMap Event.issuedId =
        issue.id :: log.filterMap Event.issuedId := rfl
    rw [hcons, hid]
    exact ⟨fun _ => Phase.noConfusion, fun _ => List.mem_cons_self⟩
  | prepared _ _ ih => exact ⟨fun _ => Phase.noConfusion, fun _ => ih.mpr Phase.noConfusion⟩
  | renamed _ _ ih => exact ⟨fun _ => Phase.noConfusion, fun _ => ih.mpr Phase.noConfusion⟩
  | published _ ih => exact ⟨fun _ => Phase.noConfusion, fun _ => ih.mpr Phase.noConfusion⟩
  | @failed phase reason log huntouched _ ih =>
    refine ⟨fun _ => Phase.noConfusion, fun _ => ih.mpr ?_⟩
    intro heq
    rw [heq] at huntouched
    exact huntouched
  | signed _ ih => exact ⟨fun _ => Phase.noConfusion, fun _ => ih.mpr Phase.noConfusion⟩
  | reaped _ _ _ ih => exact ih

end

/-! ## What a step does -/

/-- Where the task that polls for a login is, in a phase of it. -/
def Phase.At (p : Poll) : Stage → Phase → Prop
  | .spawned, phase => phase = .waiting p.provider p.key
  | .polling _, phase => phase = .waiting p.provider p.key
  | .asleep _, phase => phase = .waiting p.provider p.key
  | .exchanging _ _, phase => phase = .waiting p.provider p.key
  | .installing _, phase => phase = .waiting p.provider p.key
  | .writing install, phase => phase = .prepared install
  | .written install, phase => phase = .prepared install
  | .publishing install, phase => phase = .renamed install
  | .settling .waiting, _ => False
  | .settling (.signed email), phase =>
    ∃ install, phase = .published install ∧ email = install.renewed.email
  | .settling (.failed _), phase => phase.Untouched

/-- What a start goes on to. -/
inductive Begins (b : Books) (provider key : String) (now : Nat) : Starting → Starting → Prop where
  | refused {starting refusal} : Begins b provider key now starting (.answered (.error refusal))
  | eligible : Begins b provider key now .reaped .eligible
  | found {id login} : b.logins.get? id = some login →
      login.outstandingFor provider key now = true →
      Begins b provider key now .eligible (.answered (.ok (id, login)))
  | none : (∀ id login, b.logins.get? id = some login →
      login.outstandingFor provider key now = false) →
      Begins b provider key now .eligible (.minting b.issuedIds)
  | minted {seen minted} : Begins b provider key now (.minting seen) (.minted seen minted)

section
variable (c : Core.Credential.Claims)

/-- What a step does to the registry, the tasks and the log. -/
inductive Effect (b : Books) : Books → Prop where
  | none : Effect b b
  | called {provider key now} :
      Effect b { b with tasks := b.tasks ++ [.start provider key now .called] }
  | reaped {k provider key now} : b.tasks[k]? = some (.start provider key now .called) →
      Effect b ⟨b.logins.reap now, b.tasks.set k (.start provider key now .reaped),
        b.dropped now ++ b.log⟩
  | began {k provider key now starting starting'} :
      b.tasks[k]? = some (.start provider key now starting) →
      Begins b provider key now starting starting' →
      Effect b { b with tasks := b.tasks.set k (.start provider key now starting') }
  | issued {k provider key now seen minted id} :
      b.tasks[k]? = some (.start provider key now (.minted seen minted)) → id ∉ b.issuedIds →
      Effect b ⟨b.logins.insert id (newLogin provider key now minted),
        b.tasks.set k (.start provider key now
          (.answered (.ok (id, newLogin provider key now minted)))) ++
            [.poll ⟨id, provider, key, minted⟩ .spawned],
        .issued ⟨id, newLogin provider key now minted, now, seen⟩ :: b.log⟩
  | moved {k p stage stage'} : b.tasks[k]? = some (.poll p stage) →
      (∀ phase, Phase.At p stage phase → Phase.At p stage' phase) →
      Effect b { b with tasks := b.tasks.set k (.poll p stage') }
  /-- The file or the seat is changed, or about to be. -/
  | noted {k p stage stage' e} : b.tasks[k]? = some (.poll p stage) → e.id = p.id →
      e.issuedId = .none →
      (∀ log phase, Told c p.id log phase → Phase.At p stage phase → ∃ phase',
        Told c p.id (e :: log) phase' ∧ Phase.At p stage' phase' ∧ phase'.Open) →
      Effect b { b with tasks := b.tasks.set k (.poll p stage'), log := e :: b.log }
  | settled {k p outcome now} : b.tasks[k]? = some (.poll p (.settling outcome)) →
      Effect b ⟨b.logins.settle p.id outcome now, b.tasks.set k .ended,
        .settled p.id outcome :: b.log⟩

variable {c} {T : Texts}

/-- A credential that was prepared is one for the seat. -/
theorem prepared_of_prepare {table : Table} {seats : Nat → SeatState} {provider key : String}
    {tokens : Value} {now : Nat} {install : Install}
    (h : prepare c table seats provider key tokens now = .ok install) :
    Prepared c table provider key (seats install.seat) tokens install := by
  unfold prepare at h
  split at h
  · cases h
  · next k hkey =>
    split at h
    · next seat path hseat hpath =>
      split at h
      · cases h
      · next merged hmerged =>
        split at h
        · cases h
        · next renewed hrenewed =>
          split at h
          · cases h
          · next hsame =>
            cases h
            exact ⟨⟨k, hkey, hseat, hpath⟩, ⟨now, hmerged⟩, hrenewed, hsame⟩
    · cases h

theorem effect_starts {s s' : State} {k : Nat} {provider key : String} {now : Nat}
    {starting : Starting} {l : Label} (hk : s.tasks[k]? = some (.start provider key now starting))
    (h : starts T s k provider key now starting l = some s') : Effect c s.toBooks s'.toBooks := by
  unfold starts at h
  split at h
  · cases h
    exact .reaped hk
  · split at h
    · cases h
      exact .began hk .refused
    · cases h
      exact .began hk .eligible
  · next found =>
    split at h
    · next hfind =>
      cases found with
      | none =>
        cases h
        refine .began hk (.none fun id login hlogin => ?_)
        have hall := List.all_eq_true.mp hfind (id, login) (OrdMap.mem_entries.mpr hlogin)
        exact Bool.not_eq_true' _ ▸ hall
      | some id =>
        obtain ⟨login, hlogin, hfound⟩ := (Option.any_eq_true _ _).mp hfind
        have hbind : ((some id).bind fun id => (s.logins.get? id).map (id, ·)) =
            some (id, login) := by
          rw [Option.bind_some, hlogin]
          rfl
        rw [hbind] at h
        cases h
        exact .began hk (.found hlogin hfound)
    · cases h
  · split at h
    · cases h
      exact .began hk .refused
    · cases h
      exact .began hk .minted
  · split at h
    · cases h
    · next hfresh =>
      cases h
      exact .issued hk hfresh
  · cases h

/-- What a task finds in the temporary file that it wrote last is what it wrote. -/
def Written (s : State) : Prop :=
  ∀ (k : Nat) (p : Poll) (install : Install), s.tasks[k]? = some (.poll p (.written install)) →
    s.writer install.path = some p.id →
      ∀ document, s.temporary install.path = some document → document = install.document

theorem effect_polls {s s' : State} (hwritten : Written s) {k : Nat} {p : Poll} {stage : Stage}
    {l : Label} (hk : s.tasks[k]? = some (.poll p stage))
    (h : polls c T s k p stage l = some s') : Effect c s.toBooks s'.toBooks := by
  -- until a document is prepared every way out is a failure
  have hfailed : ∀ {reason phase}, phase = Phase.waiting p.provider p.key →
      Phase.At p (.settling (.failed reason)) phase := by
    intro reason phase hphase
    rw [hphase]
    trivial
  unfold polls at h
  split at h
  · cases h
    exact .moved hk fun _ => id
  · split at h
    · cases h
      exact .moved hk fun _ => hfailed
    · cases h
      exact .moved hk fun _ => id
  · split at h
    · cases h
      exact .moved hk fun _ => id
    · cases h
      exact .moved hk fun _ => hfailed
    · split at h
      · cases h
        exact .moved hk fun _ => hfailed
      · cases h
        exact .moved hk fun _ => id
  · split at h
    · cases h
      exact .moved hk fun _ => hfailed
    · cases h
      exact .moved hk fun _ => id
  · split at h
    · cases h
      exact .moved hk fun _ => hfailed
    · next install hprepare =>
      cases h
      refine .noted hk rfl rfl fun log phase htold hat => ?_
      cases (show phase = _ from hat)
      exact ⟨_, .prepared (prepared_of_prepare hprepare) htold, rfl, Phase.noConfusion, rfl⟩
  · split at h
    · -- a write that fails leaves the file and the seat as they were
      cases h
      refine .moved hk fun phase hat => ?_
      cases (show phase = _ from hat)
      trivial
    · cases h
      exact .moved hk fun _ => id
  · split at h
    · cases h
      refine .moved hk fun phase hat => ?_
      cases (show phase = _ from hat)
      trivial
    · cases h
    · next document hdocument =>
      cases h
      refine .noted hk rfl rfl fun log phase htold hat => ?_
      cases (show phase = _ from hat)
      -- what this login wrote there is still its document
      have hown := fun hwriter => hwritten k p _ hk (of_decide_eq_true hwriter) document hdocument
      exact ⟨_, .renamed hown htold, rfl, Phase.noConfusion, rfl⟩
  · cases h
    refine .noted hk rfl rfl fun log phase htold hat => ?_
    cases (show phase = _ from hat)
    exact ⟨_, .published htold, ⟨_, rfl, rfl⟩, Phase.noConfusion, rfl⟩
  · cases h
    exact .settled hk
  · cases h

theorem effect_next {s s' : State} (hwritten : Written s) {l : Label}
    (h : next c T s l = some s') : Effect c s.toBooks s'.toBooks := by
  unfold next at h
  split at h
  · split at h
    · next hk => exact effect_starts hk h
    · next hk => exact effect_polls hwritten hk h
    · cases h
  · split at h
    · cases h
      exact .called
    · cases h
      exact .none
    · cases h
      exact .none
    · cases h

end

/-! ## What every step keeps -/

/-- The task at a place polls for a login. -/
def Polls (tasks : List Task) (k : Nat) (p : Poll) (stage : Stage) : Prop :=
  tasks[k]? = some (.poll p stage)

theorem polls_set_start {tasks : List Task} {k : Nat} {provider key : String} {now : Nat}
    {starting starting' : Starting} (hk : tasks[k]? = some (.start provider key now starting))
    {j : Nat} {p : Poll} {stage : Stage} :
    Polls (tasks.set k (.start provider key now starting')) j p stage ↔ Polls tasks j p stage := by
  unfold Polls
  rw [List.getElem?_set]
  by_cases hj : k = j
  · subst hj
    rw [if_pos rfl, hk]
    split
    · exact ⟨fun h => (by cases h), fun h => (by cases h)⟩
    · exact ⟨fun h => (by cases h), fun h => (by cases h)⟩
  · rw [if_neg hj]

theorem polls_append {tasks : List Task} {t : Task} {j : Nat} {p : Poll} {stage : Stage} :
    Polls (tasks ++ [t]) j p stage ↔
      Polls tasks j p stage ∨ (j = tasks.length ∧ t = .poll p stage) := by
  unfold Polls
  by_cases hj : j < tasks.length
  · rw [List.getElem?_append_left hj]
    exact ⟨Or.inl, fun h => h.resolve_right fun h => absurd h.1 (by omega)⟩
  · have hnone : tasks[j]? = none := List.getElem?_eq_none (by omega)
    rw [List.getElem?_append_right (by omega), hnone]
    by_cases heq : j = tasks.length
    · subst heq
      rw [Nat.sub_self]
      exact ⟨fun h => .inr ⟨rfl, Option.some.inj h⟩,
        fun h => h.elim (fun h => (by cases h)) fun h => congrArg some h.2⟩
    · have hbeyond : [t][j - tasks.length]? = none := List.getElem?_eq_none (by simp; omega)
      rw [hbeyond]
      exact ⟨fun h => (by cases h), fun h => h.elim (fun h => (by cases h)) fun h => absurd h.1 heq⟩

theorem polls_set {tasks : List Task} {k : Nat} {p : Poll} {stage : Stage}
    (hk : Polls tasks k p stage) (t : Task) {j : Nat} {q : Poll} {stage' : Stage} :
    Polls (tasks.set k t) j q stage' ↔
      (j = k ∧ t = .poll q stage') ∨ (j ≠ k ∧ Polls tasks j q stage') := by
  have hlt : k < tasks.length := (List.getElem?_eq_some_iff.mp hk).1
  unfold Polls
  rw [List.getElem?_set]
  by_cases hj : k = j
  · subst hj
    rw [if_pos rfl, if_pos hlt]
    exact ⟨fun h => .inl ⟨rfl, Option.some.inj h⟩,
      fun h => h.elim (fun h => congrArg some h.2) fun h => absurd rfl h.1⟩
  · rw [if_neg hj]
    exact ⟨fun h => .inr ⟨fun heq => hj heq.symm, h⟩,
      fun h => h.elim (fun h => absurd h.1.symm hj) fun h => h.2⟩

section
variable (c : Core.Credential.Claims)

/-- A login, as the log, the registry and the tasks have it. -/
structure Following (b : Books) (id : String) (phase : Phase) : Prop where
  told : Told c id b.log phase
  shown : ∀ login, b.logins.get? id = some login → phase.Shows login
  at_ : ∀ k p stage, Polls b.tasks k p stage → p.id = id → Phase.At p stage phase
  tended : phase.Open → ∃ k p stage, Polls b.tasks k p stage ∧ p.id = id

/-- Every login is followed, and polled for by one task at most. -/
structure Followed (b : Books) : Prop where
  following : ∀ id, ∃ phase, Following c b id phase
  single : ∀ k k' p p' stage stage', Polls b.tasks k p stage → Polls b.tasks k' p' stage' →
    p.id = p'.id → k = k'

end

section
variable {c : Core.Credential.Claims} {b : Books}

theorem open_at {p : Poll} {stage : Stage} {phase : Phase} (h : Phase.At p stage phase) :
    phase.Open := by
  have hcases : phase.Untouched ∨ (∃ install, phase = .renamed install) ∨
      ∃ install, phase = .published install := by
    cases stage with
    | writing install => exact .inl (by rw [show phase = _ from h]; trivial)
    | written install => exact .inl (by rw [show phase = _ from h]; trivial)
    | publishing install => exact .inr (.inl ⟨_, h⟩)
    | settling outcome =>
      cases outcome with
      | waiting => exact absurd h id
      | signed email => exact .inr (.inr ⟨_, h.choose_spec.1⟩)
      | failed reason => exact .inl h
    | _ => exact .inl (by rw [show phase = _ from h]; trivial)
  rcases hcases with huntouched | ⟨install, rfl⟩ | ⟨install, rfl⟩
  · cases phase with
    | waiting _ _ => exact ⟨Phase.noConfusion, rfl⟩
    | prepared _ => exact ⟨Phase.noConfusion, rfl⟩
    | _ => exact absurd huntouched id
  · exact ⟨Phase.noConfusion, rfl⟩
  · exact ⟨Phase.noConfusion, rfl⟩

/-- Other logins are followed when only this one's task goes on, and only it is
written about. -/
theorem Following.other {id : String} {phase : Phase} (h : Following c b id phase) {k : Nat}
    {p : Poll} {stage : Stage} (hk : Polls b.tasks k p stage) (hne : p.id ≠ id) {t : Task}
    (ht : ∀ q stage', t = .poll q stage' → q.id = p.id) {log : List Event}
    (hlog : Told c id log phase) {logins : Registry} (hlogins : logins.get? id = b.logins.get? id) :
    Following c ⟨logins, b.tasks.set k t, log⟩ id phase := by
  refine ⟨hlog, fun login hlogin => h.shown login (hlogins ▸ hlogin), ?_, fun hopen => ?_⟩
  · intro j q stage' hj hid
    rcases (polls_set hk t).mp hj with ⟨-, heq⟩ | ⟨-, hj⟩
    · exact absurd ((ht q stage' heq).symm.trans hid) hne
    · exact h.at_ j q stage' hj hid
  · obtain ⟨j, q, stage', hj, hid⟩ := h.tended hopen
    refine ⟨j, q, stage', (polls_set hk t).mpr (.inr ⟨fun heq => ?_, hj⟩), hid⟩
    -- the task that goes on is not this login's
    subst heq
    have hsame := Option.some.inj (Eq.trans (Eq.symm (show b.tasks[j]? = _ from hj)) hk)
    cases hsame
    exact hne hid

theorem Followed.set_single (h : Followed c b) {k : Nat} {p : Poll} {stage : Stage}
    (hk : Polls b.tasks k p stage) {t : Task} (ht : ∀ q stage', t = .poll q stage' → q.id = p.id) :
    ∀ i j q q' stage₁ stage₂, Polls (b.tasks.set k t) i q stage₁ →
      Polls (b.tasks.set k t) j q' stage₂ → q.id = q'.id → i = j := by
  intro i j q q' stage₁ stage₂ hi hj hid
  rcases (polls_set hk t).mp hi with ⟨hik, hq⟩ | ⟨-, hold⟩
  · rcases (polls_set hk t).mp hj with ⟨hjk, -⟩ | ⟨-, hold'⟩
    · exact hik.trans hjk.symm
    · exact hik.trans (h.single k j p q' stage stage₂ hk hold' ((ht q stage₁ hq).symm.trans hid))
  · rcases (polls_set hk t).mp hj with ⟨hjk, hq'⟩ | ⟨-, hold'⟩
    · exact (h.single i k q p stage₁ stage hold hk (hid.trans (ht q' stage₂ hq'))).trans hjk.symm
    · exact h.single i j q q' stage₁ stage₂ hold hold' hid

/-- The task of a login goes on, and may write about it. -/
theorem Followed.goes_on (h : Followed c b) {k : Nat} {p : Poll} {stage stage' : Stage}
    (hk : Polls b.tasks k p stage) {log : List Event}
    (hothers : ∀ id phase, id ≠ p.id → Told c id b.log phase → Told c id log phase)
    (hown : ∀ phase, Told c p.id b.log phase → Phase.At p stage phase → ∃ phase',
      Told c p.id log phase' ∧ Phase.At p stage' phase') :
    Followed c ⟨b.logins, b.tasks.set k (.poll p stage'), log⟩ := by
  have ht : ∀ q st, Task.poll p stage' = .poll q st → q.id = p.id := by
    intro q st heq
    cases heq
    rfl
  refine ⟨fun id => ?_, h.set_single hk ht⟩
  obtain ⟨phase, hfollowing⟩ := h.following id
  by_cases hid : p.id = id
  · subst hid
    have hat := hfollowing.at_ k p stage hk rfl
    obtain ⟨phase', htold, hat'⟩ := hown phase hfollowing.told hat
    have hopen := open_at hat
    have hopen' := open_at hat'
    refine ⟨phase', htold, fun login hlogin => ?_, fun j q st hj hid => ?_, fun _ => ?_⟩
    · -- an open login reads as one that is waiting, whatever its phase
      obtain ⟨-, houtcome, hfinished⟩ := hfollowing.shown login hlogin
      refine ⟨hopen'.1, houtcome.trans ?_, hfinished.trans (hopen.2.trans hopen'.2.symm)⟩
      exact hopen.outcome_eq.trans hopen'.outcome_eq.symm
    · rcases (polls_set hk _).mp hj with ⟨-, heq⟩ | ⟨hne, hj⟩
      · cases heq
        exact hat'
      · exact absurd (h.single j k q p st stage hj hk hid) hne
    · exact ⟨k, p, stage', (polls_set hk _).mpr (.inl ⟨rfl, rfl⟩), rfl⟩
  · exact ⟨phase, hfollowing.other hk hid ht
      (hothers id phase (fun heq => hid heq.symm) hfollowing.told) rfl⟩

/-! ### Each kind of step -/

theorem told_reaped {id : String} {phase : Phase} {log : List Event}
    {entries : List (String × DeviceLogin)} {now : Nat} (h : Told c id log phase)
    (hentries : ∀ e ∈ entries, e.2.stale now = true ∧ (e.1 = id → phase.Shows e.2)) :
    Told c id (entries.map (fun e => Event.reaped e.1 e.2 now) ++ log) phase := by
  induction entries with
  | nil => exact h
  | cons e entries ih =>
    have hrest := ih fun e' he' => hentries e' (List.mem_cons_of_mem _ he')
    obtain ⟨hstale, hshows⟩ := hentries e List.mem_cons_self
    by_cases hid : e.1 = id
    · show Told c id (.reaped e.1 e.2 now :: _) phase
      rw [hid]
      exact .reaped (hshows hid) hstale hrest
    · exact .other hid hrest

theorem Followed.called (h : Followed c b) {t : Task} (ht : ∀ p stage, t ≠ .poll p stage) :
    Followed c { b with tasks := b.tasks ++ [t] } := by
  have hpolls : ∀ {j p stage}, Polls (b.tasks ++ [t]) j p stage ↔ Polls b.tasks j p stage := by
    intro j p stage
    rw [polls_append]
    exact ⟨fun h => h.resolve_right fun h => ht p stage h.2, Or.inl⟩
  refine ⟨fun id => ?_, fun i j p q s₁ s₂ hi hj =>
    h.single i j p q s₁ s₂ (hpolls.mp hi) (hpolls.mp hj)⟩
  obtain ⟨phase, hfollowing⟩ := h.following id
  refine ⟨phase, hfollowing.told, hfollowing.shown,
    fun j p stage hj => hfollowing.at_ j p stage (hpolls.mp hj), fun hopen => ?_⟩
  obtain ⟨j, p, stage, hj, hid⟩ := hfollowing.tended hopen
  exact ⟨j, p, stage, hpolls.mpr hj, hid⟩

/-- A start goes on, while records may be dropped. -/
theorem Followed.start (h : Followed c b) {k : Nat} {provider key : String} {now : Nat}
    {starting starting' : Starting} (hk : b.tasks[k]? = some (.start provider key now starting))
    {logins : Registry} {log : List Event}
    (hlogins : ∀ id login, logins.get? id = some login → b.logins.get? id = some login)
    (hlog : ∀ id phase, Following c b id phase → Told c id log phase) :
    Followed c ⟨logins, b.tasks.set k (.start provider key now starting'), log⟩ := by
  refine ⟨fun id => ?_, fun i j p q s₁ s₂ hi hj =>
    h.single i j p q s₁ s₂ ((polls_set_start hk).mp hi) ((polls_set_start hk).mp hj)⟩
  obtain ⟨phase, hfollowing⟩ := h.following id
  refine ⟨phase, hlog id phase hfollowing,
    fun login hlogin => hfollowing.shown login (hlogins id login hlogin),
    fun j p stage hj => hfollowing.at_ j p stage ((polls_set_start hk).mp hj), fun hopen => ?_⟩
  obtain ⟨j, p, stage, hj, hid⟩ := hfollowing.tended hopen
  exact ⟨j, p, stage, (polls_set_start hk).mpr hj, hid⟩

theorem get?_reap (r : Registry) (now : Nat) (id : String) :
    (r.reap now).get? id = (r.get? id).filter fun login => !login.stale now :=
  OrdMap.get?_retain _ _ _

theorem get?_of_reap {r : Registry} {now : Nat} {id : String} {login : DeviceLogin}
    (h : (r.reap now).get? id = some login) : r.get? id = some login := by
  rw [get?_reap] at h
  exact (Option.filter_eq_some_iff.mp h).1

theorem Followed.reaped (h : Followed c b) {k : Nat} {provider key : String} {now : Nat}
    (hk : b.tasks[k]? = some (.start provider key now .called)) :
    Followed c ⟨b.logins.reap now, b.tasks.set k (.start provider key now .reaped),
      b.dropped now ++ b.log⟩ := by
  refine h.start hk (fun _ _ => get?_of_reap) fun id phase hfollowing => ?_
  refine told_reaped hfollowing.told fun e he => ?_
  obtain ⟨hmem, hstale⟩ := List.mem_filter.mp he
  refine ⟨hstale, fun hid => hfollowing.shown e.2 ?_⟩
  rw [← hid]
  exact OrdMap.mem_entries.mp hmem

theorem Followed.issued (h : Followed c b) {k : Nat} {provider key : String} {now : Nat}
    {starting starting' : Starting} (hk : b.tasks[k]? = some (.start provider key now starting))
    (issue : Issue) (hfresh : issue.id ∉ b.issuedIds) (hlogin : issue.login.outcome = .waiting)
    (hunfinished : issue.login.finishedAtMs = none) {p : Poll} (hid : p.id = issue.id)
    (hprovider : p.provider = issue.login.provider) (hkey : p.key = issue.login.key) :
    Followed c ⟨b.logins.insert issue.id issue.login,
      b.tasks.set k (.start provider key now starting') ++ [.poll p .spawned],
      .issued issue :: b.log⟩ := by
  -- nothing is known of the new login, and no task polls for it
  obtain ⟨phase, hfollowing⟩ := h.following issue.id
  have hunknown : phase = .unknown := by
    by_contra hne
    exact hfresh ((known_of_issued hfollowing.told).mpr hne)
  subst hunknown
  have hnone : ∀ j q stage, Polls b.tasks j q stage → q.id ≠ issue.id := by
    intro j q stage hj hq
    exact (open_at (hfollowing.at_ j q stage hj hq)).1 rfl
  have hpolls : ∀ {j q stage},
      Polls (b.tasks.set k (.start provider key now starting') ++ [.poll p .spawned]) j q stage ↔
        Polls b.tasks j q stage ∨ (j = b.tasks.length ∧ Task.poll p .spawned = .poll q stage) := by
    intro j q stage
    rw [polls_append, polls_set_start hk, List.length_set]
  refine ⟨fun id => ?_, fun i j q q' s₁ s₂ hi hj hsame => ?_⟩
  · by_cases heq : id = issue.id
    · subst heq
      refine ⟨.waiting issue.login.provider issue.login.key, .issued rfl hfollowing.told,
        fun login hget => ?_, fun j q stage hj hq => ?_, fun _ => ?_⟩
      · rw [OrdMap.get?_insert_self] at hget
        cases hget
        exact ⟨Phase.noConfusion, hlogin, by rw [hunfinished]; rfl⟩
      · rcases hpolls.mp hj with hj | ⟨-, hnew⟩
        · exact absurd hq (hnone j q stage hj)
        · cases hnew
          show Phase.waiting _ _ = Phase.waiting _ _
          rw [hprovider, hkey]
      · exact ⟨b.tasks.length, p, .spawned, hpolls.mpr (.inr ⟨rfl, rfl⟩), hid⟩
    · obtain ⟨phase, hother⟩ := h.following id
      refine ⟨phase, .other (fun he => heq he.symm) hother.told, fun login hget => ?_,
        fun j q stage hj hq => ?_, fun hopen => ?_⟩
      · rw [OrdMap.get?_insert, if_neg heq] at hget
        exact hother.shown login hget
      · rcases hpolls.mp hj with hj | ⟨-, hnew⟩
        · exact hother.at_ j q stage hj hq
        · cases hnew
          exact absurd (hq.symm.trans hid) heq
      · obtain ⟨j, q, stage, hj, hq⟩ := hother.tended hopen
        exact ⟨j, q, stage, hpolls.mpr (.inl hj), hq⟩
  · -- the new task is the only one of the new login
    rcases hpolls.mp hi with hi | ⟨hi, hnew⟩
    · rcases hpolls.mp hj with hj | ⟨-, hnew⟩
      · exact h.single i j q q' s₁ s₂ hi hj hsame
      · cases hnew
        exact absurd (hsame.trans hid) (hnone i q s₁ hi)
    · rcases hpolls.mp hj with hj | ⟨hj, -⟩
      · cases hnew
        exact absurd (hsame.symm.trans hid) (hnone j q' s₂ hj)
      · exact hi.trans hj.symm

theorem get?_settle (r : Registry) (id id' : String) (outcome : Outcome) (now : Nat) :
    (r.settle id outcome now).get? id' = if id' = id then
      (r.get? id).map fun login => { login with outcome := outcome, finishedAtMs := some now }
    else r.get? id' := by
  unfold Registry.settle
  cases hget : r.get? id with
  | none =>
    by_cases hid : id' = id
    · rw [if_pos hid, hid, hget]
      rfl
    · rw [if_neg hid]
  | some login => exact OrdMap.get?_insert _ _ _ _

theorem Followed.settled (h : Followed c b) {k : Nat} {p : Poll} {outcome : Outcome} {now : Nat}
    (hk : Polls b.tasks k p (.settling outcome)) :
    Followed c ⟨b.logins.settle p.id outcome now, b.tasks.set k .ended,
      .settled p.id outcome :: b.log⟩ := by
  have ht : ∀ q stage, Task.ended = .poll q stage → q.id = p.id := fun _ _ heq => by cases heq
  refine ⟨fun id => ?_, h.set_single hk ht⟩
  obtain ⟨phase, hfollowing⟩ := h.following id
  by_cases hid : p.id = id
  · subst hid
    have hat := hfollowing.at_ k p _ hk rfl
    have hopen := open_at hat
    refine ⟨.settled outcome, ?_, fun login hget => ?_, fun j q stage hj hq => ?_,
      fun hsettled => by cases hsettled.2⟩
    · cases outcome with
      | waiting => exact absurd hat id
      | signed email =>
        obtain ⟨install, rfl, rfl⟩ := hat
        exact .signed hfollowing.told
      | failed reason => exact .failed hat hfollowing.told
    · rw [get?_settle, if_pos rfl] at hget
      obtain ⟨old, -, rfl⟩ := Option.map_eq_some_iff.mp hget
      exact ⟨Phase.noConfusion, rfl, rfl⟩
    · -- its task has ended
      rcases (polls_set hk _).mp hj with ⟨-, heq⟩ | ⟨hne, hj⟩
      · cases heq
      · exact absurd (h.single j k q p stage _ hj hk hq) hne
  · refine ⟨phase, hfollowing.other hk hid ht
      (.other (e := .settled p.id outcome) hid hfollowing.told) ?_⟩
    rw [get?_settle, if_neg fun heq => hid heq.symm]

/-- What every step keeps, one kind after another. -/
theorem Followed.effect {b' : Books} (h : Followed c b) (he : Effect c b b') : Followed c b' := by
  cases he with
  | none => exact h
  | called => exact h.called fun _ _ heq => by cases heq
  | reaped hk => exact h.reaped hk
  | began hk _ => exact h.start hk (fun _ _ => id) fun _ _ hfollowing => hfollowing.told
  | issued hk hfresh => exact h.issued hk ⟨_, _, _, _⟩ hfresh rfl rfl rfl rfl rfl
  | moved hk hmoves =>
    exact h.goes_on hk (fun _ _ _ => id) fun phase htold hat => ⟨phase, htold, hmoves phase hat⟩
  | noted hk hid _ hnotes =>
    refine h.goes_on hk
      (fun id phase hne htold => .other (fun heq => hne (heq.symm.trans hid)) htold)
      fun phase htold hat => ?_
    obtain ⟨phase', htold', hat', -⟩ := hnotes _ phase htold hat
    exact ⟨phase', htold', hat'⟩
  | settled hk => exact h.settled hk

/-! ### The registry and the log -/

/-- Two records of one login: what it is stays, and it is not waiting again. -/
structure SameLogin (a b : DeviceLogin) : Prop where
  provider : b.provider = a.provider
  key : b.key = a.key
  userCode : b.userCode = a.userCode
  expires : b.expiresAtMs = a.expiresAtMs
  waiting : b.outcome = .waiting → a.outcome = .waiting

theorem SameLogin.refl (a : DeviceLogin) : SameLogin a a := ⟨rfl, rfl, rfl, rfl, id⟩

theorem SameLogin.trans {a b d : DeviceLogin} (h : SameLogin a b) (h' : SameLogin b d) :
    SameLogin a d :=
  ⟨h'.provider.trans h.provider, h'.key.trans h.key, h'.userCode.trans h.userCode,
    h'.expires.trans h.expires, fun hw => h.waiting (h'.waiting hw)⟩

/-- The log grows, a record is an old one or newly issued, and a record that is
gone was reaped. -/
structure Later (b b' : Books) : Prop where
  log : ∀ e ∈ b.log, e ∈ b'.log
  record : ∀ id login', b'.logins.get? id = some login' →
    (∃ login, b.logins.get? id = some login ∧ SameLogin login login') ∨
      (id ∉ b.issuedIds ∧ ∃ issue, .issued issue ∈ b'.log ∧ issue.id = id ∧
        SameLogin issue.login login')
  gone : ∀ id, (b.logins.get? id).isSome → (b'.logins.get? id).isSome ∨
    ∃ login now, .reaped id login now ∈ b'.log
  issued : ∀ issue, .issued issue ∈ b'.log → .issued issue ∈ b.log ∨
    (b'.logins.get? issue.id).isSome

/-- Nothing is issued or dropped. -/
theorem Later.of_same {b b' : Books} (log : List Event) (hlogins : b'.logins = b.logins)
    (hlog : b'.log = log ++ b.log) (hnew : ∀ e ∈ log, e.issuedId = none) : Later b b' where
  log := fun e he => by rw [hlog]; exact List.mem_append_right _ he
  record := fun id login' h => .inl ⟨login', hlogins ▸ h, .refl _⟩
  gone := fun id h => .inl (by rw [hlogins]; exact h)
  issued := fun issue h => by
    rw [hlog] at h
    rcases List.mem_append.mp h with h | h
    · cases hnew _ h
    · exact .inl h

theorem later_of_effect {b' : Books} (hf : Followed c b) (he : Effect c b b') : Later b b' := by
  cases he with
  | none => exact .of_same [] rfl rfl fun _ h => by cases h
  | called => exact .of_same [] rfl rfl fun _ h => by cases h
  | began _ _ => exact .of_same [] rfl rfl fun _ h => by cases h
  | moved _ _ => exact .of_same [] rfl rfl fun _ h => by cases h
  | noted _ _ hnew _ =>
    refine .of_same [_] rfl rfl fun e h => ?_
    rw [List.mem_singleton.mp h]
    exact hnew
  | reaped _ =>
    refine ⟨fun e h => List.mem_append_right _ h,
      fun id login' h => .inl ⟨login', get?_of_reap h, .refl _⟩, fun id h => ?_, fun issue h => ?_⟩
    · obtain ⟨login, hlogin⟩ := Option.isSome_iff_exists.mp h
      rename_i now _
      cases hstale : login.stale now with
      | true =>
        refine .inr ⟨login, now, List.mem_append_left _ (List.mem_map.mpr ⟨(id, login), ?_, rfl⟩)⟩
        exact List.mem_filter.mpr ⟨OrdMap.mem_entries.mpr hlogin, hstale⟩
      | false =>
        refine .inl ?_
        rw [get?_reap, hlogin, Option.filter_some, hstale]
        rfl
    · rcases List.mem_append.mp h with h | h
      · obtain ⟨e, -, heq⟩ := List.mem_map.mp h
        cases heq
      · exact .inl h
  | issued _ hfresh =>
    refine ⟨fun e h => List.mem_cons_of_mem _ h, fun id login' h => ?_, fun id h => ?_,
      fun issue h => ?_⟩
    · rw [OrdMap.get?_insert] at h
      split at h
      · next hid =>
        cases h
        refine .inr ⟨hid ▸ hfresh, _, List.mem_cons_self, hid.symm, .refl _⟩
      · exact .inl ⟨login', h, .refl _⟩
    · rw [OrdMap.get?_insert]
      split
      · exact .inl rfl
      · exact .inl h
    · rcases List.mem_cons.mp h with heq | h
      · cases heq
        refine .inr ?_
        rw [OrdMap.get?_insert_self]
        rfl
      · exact .inl h
  | @settled k p outcome now hk =>
    -- a task never settles its login back to waiting
    have hnot : outcome ≠ .waiting := by
      intro hwaiting
      obtain ⟨phase, hfollowing⟩ := hf.following p.id
      have hat := hfollowing.at_ k p _ hk rfl
      rw [hwaiting] at hat
      exact hat
    refine ⟨fun e h => List.mem_cons_of_mem _ h, fun id login' h => ?_, fun id h => ?_,
      fun issue h => ?_⟩
    · rw [get?_settle] at h
      split at h
      · next hid =>
        obtain ⟨login, hlogin, rfl⟩ := Option.map_eq_some_iff.mp h
        exact .inl ⟨login, hid ▸ hlogin, rfl, rfl, rfl, rfl, fun hwaiting => absurd hwaiting hnot⟩
      · exact .inl ⟨login', h, .refl _⟩
    · rw [get?_settle]
      split
      · next hid =>
        rw [Option.isSome_map, ← hid]
        exact .inl h
      · exact .inl h
    · rcases List.mem_cons.mp h with heq | h
      · cases heq
      · exact .inl h

/-- The logins that were issued are in the registry as they were issued, or were
reaped, and a start was given one of its own seat. -/
structure Recorded (b : Books) : Prop where
  traced : ∀ id login, b.logins.get? id = some login →
    ∃ issue, .issued issue ∈ b.log ∧ issue.id = id ∧ SameLogin issue.login login
  kept : ∀ issue, .issued issue ∈ b.log → (b.logins.get? issue.id).isSome ∨
    ∃ login now, .reaped issue.id login now ∈ b.log
  given : ∀ (k : Nat) provider key now id login,
    b.tasks[k]? = some (Task.start provider key now (.answered (.ok (id, login)))) →
      login.provider = provider ∧ login.key = key ∧ login.outcome = .waiting ∧
        ∃ issue, .issued issue ∈ b.log ∧ issue.id = id ∧ SameLogin issue.login login

/-- The records of a seat whose codes had been issued by then had expired. -/
def Expired (b : Books) (seen : List String) (provider key : String) (now : Nat) : Prop :=
  ∀ id ∈ seen, ∀ login, b.logins.get? id = some login → login.provider = provider →
    login.key = key → login.outcome = .waiting → login.expiresAtMs ≤ now

/-- What a start has seen, while it mints. -/
def Starting.seen : Starting → Option (List String)
  | .minting seen => some seen
  | .minted seen _ => some seen
  | _ => none

/-- A code was minted beside the codes there were only if they had expired. -/
structure Apart (b : Books) : Prop where
  asking : ∀ (k : Nat) provider key now (starting : Starting) seen,
    b.tasks[k]? = some (.start provider key now starting) → starting.seen = some seen →
      (∀ id ∈ seen, id ∈ b.issuedIds) ∧ Expired b seen provider key now
  issued : ∀ issue, .issued issue ∈ b.log → (∀ id ∈ issue.seen, id ∈ b.issuedIds) ∧
    Expired b issue.seen issue.login.provider issue.login.key issue.asked

theorem Later.issuedIds {b b' : Books} (h : Later b b') :
    ∀ id ∈ b.issuedIds, id ∈ b'.issuedIds := by
  intro id hid
  obtain ⟨e, he, heq⟩ := List.mem_filterMap.mp hid
  exact List.mem_filterMap.mpr ⟨e, h.log e he, heq⟩

theorem Expired.later {b b' : Books} (hlater : Later b b') {seen : List String}
    {provider key : String} {now : Nat} (hseen : ∀ id ∈ seen, id ∈ b.issuedIds)
    (h : Expired b seen provider key now) : Expired b' seen provider key now := by
  intro id hid login' hlogin' hprovider hkey hwaiting
  rcases hlater.record id login' hlogin' with ⟨login, hlogin, hsame⟩ | ⟨hnew, -⟩
  · rw [hsame.expires]
    exact h id hid login hlogin (hsame.provider ▸ hprovider) (hsame.key ▸ hkey)
      (hsame.waiting hwaiting)
  · exact absurd (hseen id hid) hnew

/-- What a start is after a step: what it was, or what it went on to. -/
theorem start_of_effect {b' : Books} (he : Effect c b b') {k : Nat} {provider key : String}
    {now : Nat} {starting : Starting}
    (hk : b'.tasks[k]? = some (.start provider key now starting)) :
    b.tasks[k]? = some (.start provider key now starting) ∨
      starting = .called ∨ starting = .reaped ∨
      (∃ old, b.tasks[k]? = some (.start provider key now old) ∧
        Begins b provider key now old starting ∧ b'.log = b.log ∧ b'.logins = b.logins) ∨
      ∃ id seen minted, starting = .answered (.ok (id, newLogin provider key now minted)) ∧
        .issued ⟨id, newLogin provider key now minted, now, seen⟩ ∈ b'.log := by
  have hset : ∀ {j : Nat} {t : Task},
      (b.tasks.set j t)[k]? = some (.start provider key now starting) →
      t = .start provider key now starting ∧ j = k ∨
        b.tasks[k]? = some (.start provider key now starting) := by
    intro j t h
    rw [List.getElem?_set] at h
    split at h
    · next hj =>
      split at h
      · exact .inl ⟨Option.some.inj h, hj⟩
      · cases h
    · exact .inr h
  have happend : ∀ {tasks : List Task} {t : Task},
      (tasks ++ [t])[k]? = some (.start provider key now starting) →
        tasks[k]? = some (.start provider key now starting) ∨
          t = .start provider key now starting := by
    intro tasks t h
    by_cases hlt : k < tasks.length
    · rw [List.getElem?_append_left hlt] at h
      exact .inl h
    · rw [List.getElem?_append_right (by omega)] at h
      exact .inr (List.mem_singleton.mp (List.mem_of_getElem? h)).symm
  cases he with
  | none => exact .inl hk
  | called =>
    rcases happend hk with hk | hnew
    · exact .inl hk
    · cases hnew
      exact .inr (.inl rfl)
  | reaped _ =>
    rcases hset hk with ⟨hnew, -⟩ | hk
    · cases hnew
      exact .inr (.inr (.inl rfl))
    · exact .inl hk
  | began hold hbegins =>
    rcases hset hk with ⟨hnew, hj⟩ | hk
    · cases hnew
      subst hj
      exact .inr (.inr (.inr (.inl ⟨_, hold, hbegins, rfl, rfl⟩)))
    · exact .inl hk
  | issued hold _ =>
    rcases happend hk with hk | hnew
    · rcases hset hk with ⟨hnew, -⟩ | hk
      · cases hnew
        exact .inr (.inr (.inr (.inr ⟨_, _, _, rfl, List.mem_cons_self⟩)))
      · exact .inl hk
    · cases hnew
  | moved _ _ =>
    rcases hset hk with ⟨hnew, -⟩ | hk
    · cases hnew
    · exact .inl hk
  | noted _ _ _ _ =>
    rcases hset hk with ⟨hnew, -⟩ | hk
    · cases hnew
    · exact .inl hk
  | settled _ =>
    rcases hset hk with ⟨hnew, -⟩ | hk
    · cases hnew
    · exact .inl hk

theorem Recorded.effect {b' : Books} (h : Recorded b) (hlater : Later b b') (he : Effect c b b') :
    Recorded b' := by
  refine ⟨fun id login' hlogin' => ?_, fun issue hissue => ?_,
    fun k provider key now id login hk => ?_⟩
  · rcases hlater.record id login' hlogin' with ⟨login, hlogin, hsame⟩ | ⟨-, hissued⟩
    · obtain ⟨issue, hissue, hid, hfirst⟩ := h.traced id login hlogin
      exact ⟨issue, hlater.log _ hissue, hid, hfirst.trans hsame⟩
    · exact hissued
  · rcases hlater.issued issue hissue with hold | hnew
    · rcases h.kept issue hold with hsome | ⟨login, now, hreaped⟩
      · exact hlater.gone issue.id hsome
      · exact .inr ⟨login, now, hlater.log _ hreaped⟩
    · exact .inl hnew
  · rcases start_of_effect he hk with hold | hcalled | hreaped | ⟨old, -, hbegins, hlog, -⟩ |
      ⟨newId, seen, minted, hnew, hissue⟩
    · obtain ⟨hprovider, hkey, hwaiting, issue, hissue, hid, hsame⟩ :=
        h.given k provider key now id login hold
      exact ⟨hprovider, hkey, hwaiting, issue, hlater.log _ hissue, hid, hsame⟩
    · cases hcalled
    · cases hreaped
    · cases hbegins with
      | found hlogin hfound =>
        -- the one that was outstanding is handed back
        unfold DeviceLogin.outstandingFor at hfound
        rw [Bool.and_eq_true, Bool.and_eq_true, Bool.and_eq_true] at hfound
        obtain ⟨⟨⟨hprovider, hkey⟩, hwaiting⟩, -⟩ := hfound
        obtain ⟨issue, hissue, hid, hsame⟩ := h.traced id login hlogin
        exact ⟨of_decide_eq_true hprovider, of_decide_eq_true hkey, of_decide_eq_true hwaiting,
          issue, hlog ▸ hissue, hid, hsame⟩
    · cases hnew
      exact ⟨rfl, rfl, rfl, _, hissue, rfl, .refl _⟩

theorem Apart.effect {b' : Books} (h : Apart b) (hlater : Later b b') (he : Effect c b b') :
    Apart b' := by
  have hold : ∀ {seen provider key now}, (∀ id ∈ seen, id ∈ b.issuedIds) ∧
      Expired b seen provider key now → (∀ id ∈ seen, id ∈ b'.issuedIds) ∧
        Expired b' seen provider key now := fun hseen =>
    ⟨fun id hid => hlater.issuedIds id (hseen.1 id hid), hseen.2.later hlater hseen.1⟩
  refine ⟨fun k provider key now starting seen hk hseen => ?_, fun issue hissue => ?_⟩
  · rcases start_of_effect he hk with hsame | hcalled | hreaped | ⟨old, hbefore, hbegins, -, -⟩ |
      ⟨newId, seen', minted, hnew, -⟩
    · exact hold (h.asking k provider key now starting seen hsame hseen)
    · rw [hcalled] at hseen
      cases hseen
    · rw [hreaped] at hseen
      cases hseen
    · cases hbegins with
      | refused => cases hseen
      | eligible => cases hseen
      | found _ _ => cases hseen
      | none hnone =>
        cases hseen
        -- whatever is still waiting for this seat has expired by the start's clock
        refine hold ⟨fun _ hmem => hmem, fun id _ login hlogin hprovider hkey hwaiting => ?_⟩
        have hnot := hnone id login hlogin
        unfold DeviceLogin.outstandingFor at hnot
        rw [hprovider, hkey, hwaiting] at hnot
        simpa using hnot
      | minted =>
        cases hseen
        exact hold (h.asking k provider key now _ _ hbefore rfl)
    · rw [hnew] at hseen
      cases hseen
  · cases he with
    | none => exact hold (h.issued issue hissue)
    | called => exact hold (h.issued issue hissue)
    | began _ _ => exact hold (h.issued issue hissue)
    | moved _ _ => exact hold (h.issued issue hissue)
    | reaped _ =>
      rcases List.mem_append.mp hissue with hissue | hissue
      · obtain ⟨e, -, heq⟩ := List.mem_map.mp hissue
        cases heq
      · exact hold (h.issued issue hissue)
    | issued hk _ =>
      rcases List.mem_cons.mp hissue with heq | hissue
      · cases heq
        exact hold (h.asking _ _ _ _ _ _ hk rfl)
      · exact hold (h.issued issue hissue)
    | noted _ _ hnew _ =>
      rcases List.mem_cons.mp hissue with heq | hissue
      · rw [← heq] at hnew
        cases hnew
      · exact hold (h.issued issue hissue)
    | settled _ =>
      rcases List.mem_cons.mp hissue with heq | hissue
      · cases heq
      · exact hold (h.issued issue hissue)

/-! ### The temporary file -/

/-- Nothing is found in a temporary file that was not found there before. -/
theorem Written.keeps {s s' : State} (h : Written s)
    (htasks : ∀ k p install, Polls s'.tasks k p (.written install) →
      Polls s.tasks k p (.written install))
    (hfiles : ∀ path id document, s'.writer path = some id → s'.temporary path = some document →
      s.writer path = some id ∧ s.temporary path = some document) : Written s' := by
  intro k p install hk hwriter document hdocument
  obtain ⟨hbefore, hthere⟩ := hfiles install.path p.id document hwriter hdocument
  exact h k p install (htasks k p install hk) hbefore document hthere

theorem written_starts {T : Texts} {s s' : State} (h : Written s) {k : Nat} {provider key : String}
    {now : Nat} {starting : Starting} {l : Label}
    (hk : s.tasks[k]? = some (.start provider key now starting))
    (hstep : starts T s k provider key now starting l = some s') : Written s' := by
  have hkeeps : ∀ {t : State} {starting' : Starting},
      t.tasks = s.tasks.set k (.start provider key now starting') → t.writer = s.writer →
        t.temporary = s.temporary → Written t := by
    intro t starting' htasks hwriter htemporary
    refine h.keeps (fun j p install hj => ?_) fun path id document => ?_
    · rw [htasks] at hj
      exact (polls_set_start hk).mp hj
    · rw [hwriter, htemporary]
      exact And.intro
  unfold starts at hstep
  split at hstep
  · cases hstep
    exact hkeeps rfl rfl rfl
  · split at hstep
    · cases hstep
      exact hkeeps rfl rfl rfl
    · cases hstep
      exact hkeeps rfl rfl rfl
  · split at hstep
    · split at hstep
      · cases hstep
        exact hkeeps rfl rfl rfl
      · cases hstep
        exact hkeeps rfl rfl rfl
    · cases hstep
  · split at hstep
    · cases hstep
      exact hkeeps rfl rfl rfl
    · cases hstep
      exact hkeeps rfl rfl rfl
  · split at hstep
    · cases hstep
    · cases hstep
      refine h.keeps (fun j p install hj => ?_) fun _ _ _ => And.intro
      rcases polls_append.mp hj with hj | ⟨-, hnew⟩
      · exact (polls_set_start hk).mp hj
      · cases hnew
  · cases hstep

theorem written_polls {T : Texts} {s s' : State} (hf : Followed c s.toBooks) (h : Written s)
    {k : Nat} {p : Poll} {stage : Stage} {l : Label} (hk : s.tasks[k]? = some (.poll p stage))
    (hstep : polls c T s k p stage l = some s') : Written s' := by
  have htasks : ∀ {t : Task}, (∀ q install, t ≠ .poll q (.written install)) → ∀ j q install,
      Polls (s.tasks.set k t) j q (.written install) → Polls s.tasks j q (.written install) := by
    intro t ht j q install hj
    rcases (polls_set hk t).mp hj with ⟨-, heq⟩ | ⟨-, hj⟩
    · exact absurd heq (ht q install)
    · exact hj
  have hkeeps : ∀ {stage' : Stage}, (∀ install, stage' ≠ .written install) →
      Written (s.setTask k (.poll p stage')) := fun hnot =>
    h.keeps (htasks fun q install heq => hnot install (by cases heq; rfl)) fun _ _ _ => And.intro
  unfold polls at hstep
  split at hstep
  · cases hstep
    exact hkeeps fun _ heq => by cases heq
  · split at hstep
    · cases hstep
      exact hkeeps fun _ heq => by cases heq
    · cases hstep
      exact hkeeps fun _ heq => by cases heq
  · split at hstep
    · cases hstep
      exact hkeeps fun _ heq => by cases heq
    · cases hstep
      exact hkeeps fun _ heq => by cases heq
    · split at hstep
      · cases hstep
        exact hkeeps fun _ heq => by cases heq
      · cases hstep
        exact hkeeps fun _ heq => by cases heq
  · split at hstep
    · cases hstep
      exact hkeeps fun _ heq => by cases heq
    · cases hstep
      exact hkeeps fun _ heq => by cases heq
  · split at hstep
    · cases hstep
      exact hkeeps fun _ heq => by cases heq
    · cases hstep
      exact h.keeps (htasks fun _ _ heq => by cases heq) fun _ _ _ => And.intro
  · split at hstep
    · cases hstep
      exact hkeeps fun _ heq => by cases heq
    · next install _ _ =>
      cases hstep
      intro j q other hj hwriter document hdocument
      dsimp only [State.setTask] at hwriter hdocument
      rcases (polls_set hk _).mp hj with ⟨-, heq⟩ | ⟨hne, hold⟩
      · cases heq
        rw [Function.update_self] at hdocument
        exact (Option.some.inj hdocument).symm
      · -- another task's file, or it is not its writer any more
        by_cases hpath : other.path = install.path
        · rw [hpath, Function.update_self] at hwriter
          exact absurd (hf.single k j p q _ _ hk hold (Option.some.inj hwriter)).symm hne
        · rw [Function.update_of_ne hpath] at hwriter hdocument
          exact h j q other hold hwriter document hdocument
  · split at hstep
    · cases hstep
      exact hkeeps fun _ heq => by cases heq
    · cases hstep
    · next install _ _ _ _ _ =>
      cases hstep
      refine h.keeps (htasks fun _ _ heq => by cases heq)
        fun path id document hwriter hdocument => ?_
      dsimp only [State.setTask, State.record] at hwriter hdocument
      by_cases hpath : path = install.path
      · rw [hpath, Function.update_self] at hdocument
        cases hdocument
      · rw [Function.update_of_ne hpath] at hdocument
        exact ⟨hwriter, hdocument⟩
  · cases hstep
    exact h.keeps (htasks fun _ _ heq => by cases heq) fun _ _ _ => And.intro
  · cases hstep
    exact h.keeps (htasks fun _ _ heq => by cases heq) fun _ _ _ => And.intro
  · cases hstep

theorem written_next {T : Texts} {s s' : State} (hf : Followed c s.toBooks) (h : Written s)
    {l : Label} (hnext : next c T s l = some s') : Written s' := by
  unfold next at hnext
  split at hnext
  · split at hnext
    · next hk => exact written_starts h hk hnext
    · next hk => exact written_polls hf h hk hnext
    · cases hnext
  · split at hnext
    · cases hnext
      refine h.keeps (fun j p install hj => ?_) fun _ _ _ => And.intro
      rcases polls_append.mp hj with hj | ⟨-, hnew⟩
      · exact hj
      · cases hnew
    · cases hnext
      exact h.keeps (fun _ _ _ => id) fun _ _ _ => And.intro
    · next path document _ =>
      cases hnext
      refine h.keeps (fun _ _ _ => id) fun path' id document' hwriter hdocument => ?_
      dsimp only at hwriter hdocument
      by_cases hpath : path' = path
      · rw [hpath, Function.update_self] at hwriter
        cases hwriter
      · rw [Function.update_of_ne hpath] at hwriter hdocument
        exact ⟨hwriter, hdocument⟩
    · cases hnext

/-! ## Every run -/

section
variable (c)

/-- What every step keeps. -/
structure Sound (s : State) : Prop where
  followed : Followed c s.toBooks
  recorded : Recorded s.toBooks
  apart : Apart s.toBooks
  written : Written s

end

theorem sound_fresh {s : State} (h : Fresh s) : Sound c s := by
  obtain ⟨hbooks, -⟩ := h
  have htasks : s.tasks = [] := congrArg Books.tasks hbooks
  refine ⟨?_, ?_, ?_, fun k p install hk => ?_⟩
  · rw [hbooks]
    refine ⟨fun id => ⟨.unknown, .start, fun login h => ?_, fun k p stage h => ?_,
      fun h => absurd rfl h.1⟩, fun k k' p p' stage stage' h => ?_⟩
    · cases (OrdMap.get?_empty id).symm.trans h
    · cases h
    · cases h
  · rw [hbooks]
    refine ⟨fun id login h => ?_, fun issue h => ?_, fun k provider key now id login h => ?_⟩
    · cases (OrdMap.get?_empty id).symm.trans h
    · cases h
    · cases h
  · rw [hbooks]
    exact ⟨fun k provider key now starting seen h => (by cases h), fun issue h => (by cases h)⟩
  · rw [htasks] at hk
    cases hk

theorem Sound.next {T : Texts} {s s' : State} (h : Sound c s) {l : Label}
    (hnext : next c T s l = some s') : Sound c s' := by
  have he := effect_next h.written hnext
  have hlater := later_of_effect h.followed he
  exact ⟨h.followed.effect he, h.recorded.effect hlater he, h.apart.effect hlater he,
    written_next h.followed h.written hnext⟩

theorem sound_of_reach {T : Texts} {s : State} (h : Reach (signingIn c T) free s) : Sound c s :=
  h.invariant (fun _ => sound_fresh) fun _ _ _ hs _ hnext => hs.next hnext

/-- A login that is settled is not waiting. -/
theorem settled_of_told {id : String} {log : List Event} {phase : Phase} (h : Told c id log phase) :
    phase ≠ .settled .waiting := by
  induction h with
  | other _ _ ih => exact ih
  | reaped _ _ _ ih => exact ih
  | failed _ _ _ =>
    intro heq
    cases heq
  | signed _ _ =>
    intro heq
    cases heq
  | _ => exact Phase.noConfusion

section
variable (c)

/-- Logins can be accounted for. Of each, the log tells one story, and the registry
its outcome (`told`). One that is waiting is polled for (`tended`), a record is
only dropped by being reaped (`kept`), the console reads and a start is given
none but those of the seat asked for (`read`, `given`), and a code was minted
beside another one of its seat only if that one had expired or was not there when
the start looked (`apart`). -/
structure Accountable (s : State) : Prop where
  told : ∀ id, ∃ phase, Told c id s.log phase ∧
    ∀ login, s.logins.get? id = some login → phase.Shows login
  tended : ∀ id login, s.logins.get? id = some login → login.outcome = .waiting →
    ∃ (k : Nat) (p : Poll) (stage : Stage),
      s.tasks[k]? = some (Task.poll p stage) ∧ p.id = id
  kept : ∀ issue, .issued issue ∈ s.log → (s.logins.get? issue.id).isSome ∨
    ∃ login now, .reaped issue.id login now ∈ s.log
  read : ∀ name key session login, deviceLoginStatus s name key session = .ok login →
    ∃ issue, .issued issue ∈ s.log ∧ issue.id = session ∧ issue.login.provider = name ∧
      issue.login.key = key ∧ SameLogin issue.login login
  given : ∀ (k : Nat) provider key now id login,
    s.tasks[k]? = some (Task.start provider key now (.answered (.ok (id, login)))) →
      login.provider = provider ∧ login.key = key ∧ login.outcome = .waiting ∧
        ∃ issue, .issued issue ∈ s.log ∧ issue.id = id ∧ SameLogin issue.login login
  apart : ∀ issue, .issued issue ∈ s.log → ∀ id ∈ issue.seen, ∀ login,
    s.logins.get? id = some login → login.provider = issue.login.provider →
      login.key = issue.login.key → login.outcome = .waiting → login.expiresAtMs ≤ issue.asked

end

/-- In every state that starts, polls, reloads and other writers lead to, logins can
be accounted for. -/
theorem logins_accountable {T : Texts} {s : State} (h : Reach (signingIn c T) free s) :
    Accountable c s := by
  have hs := sound_of_reach h
  refine ⟨fun id => ?_, fun id login hlogin hwaiting => ?_, hs.recorded.kept,
    fun name key session login hread => ?_, hs.recorded.given,
    fun issue hissue => (hs.apart.issued issue hissue).2⟩
  · obtain ⟨phase, hfollowing⟩ := hs.followed.following id
    exact ⟨phase, hfollowing.told, hfollowing.shown⟩
  · obtain ⟨phase, hfollowing⟩ := hs.followed.following id
    obtain ⟨hknown, houtcome, -⟩ := hfollowing.shown login hlogin
    -- it is open: one that is settled shows another outcome
    refine hfollowing.tended ⟨hknown, ?_⟩
    cases phase with
    | settled outcome =>
      have hsettled : outcome = .waiting := houtcome.symm.trans hwaiting
      exact absurd (congrArg Phase.settled hsettled) (settled_of_told hfollowing.told)
    | _ => rfl
  · unfold deviceLoginStatus at hread
    split at hread
    · cases hread
    · next found hfound =>
      split at hread
      · cases hread
      · next hseat =>
        cases hread
        obtain ⟨hprovider, hkey⟩ := not_or.mp hseat
        obtain ⟨issue, hissue, hid, hsame⟩ := hs.recorded.traced session login hfound
        exact ⟨issue, hissue, hid, hsame.provider.symm.trans (not_not.mp hprovider),
          hsame.key.symm.trans (not_not.mp hkey), hsame⟩

/-! ## A login that is signed in -/

def oneProvider : Table :=
  [⟨"codex", .codexSubscription, [⟨"seat-a", some 0, some "auth.json"⟩]⟩]

def firstSeat : SeatState :=
  ⟨"a0", none, some "acct", some "a@b", none,
    ⟨"", some (.ofMembers [("account_id", .string "acct")])⟩⟩

/-- The configuration is in force, nothing is under way. -/
def atFirst : State where
  logins := .empty
  tasks := []
  log := []
  table := oneProvider
  seats _ := firstSeat
  files _ := none
  temporary _ := none
  writer _ := none

/-- Every id token is of one account. -/
def oneAccount : Core.Credential.Claims where
  expiryMs _ := none
  accountId _ := some "acct"
  email _ := some "A@b"
  stamp _ := "now"
  print _ := "document"

def someTexts : Texts where
  status _ := "500"
  json _ := "EOF"

def answered (status : Nat) (body : String) : Except GatewayError Read := .ok ⟨status, utf8 body⟩

/-- The code is entered after one poll. -/
def signedIn : List Label :=
  [.start "codex" "seat-a" 1000, .reap 0, .check 0, .look 0 none,
    .mint 0 (answered 200 "\x7b\"device_auth_id\":\"d\",\"user_code\":\"ABCD\"\x7d"),
    .insert 0 "dl_1", .arm 1 1000, .wait 1 1000, .poll 1 (answered 403 ""), .wait 1 6000,
    .poll 1 (answered 200 "\x7b\"authorization_code\":\"x\",\"code_verifier\":\"y\"\x7d"),
    .exchange 1 (answered 200 "\x7b\"access_token\":\"a1\",\"id_token\":\"i1\"\x7d"),
    .prepare 1 6000, .write 1 none, .rename 1 none, .publish 1, .settle 1 6000]

theorem logins_accountable_signedIn : ∃ s : State,
    ((s.logins.get? "dl_1").map fun login => (login.outcome, login.finishedAtMs)) =
      some (.signed (some "A@b"), some 6000) ∧
    (s.files "auth.json").map (·.text) = some "document" ∧ (s.seats 0).accessToken = "a1" ∧
    s.log.length = 5 ∧ Accountable oneAccount s := by
  have hstart : (signingIn oneAccount someTexts).init atFirst := ⟨rfl, fun _ => rfl⟩
  have hreach := Reach.of_trace free (next oneAccount someTexts) hstart signedIn
    (admitted_free _ _ _) (by decide +kernel)
  exact ⟨_, by decide +kernel, by decide +kernel, by decide +kernel, by decide +kernel,
    logins_accountable hreach⟩

end

end Server.Login

end RapidRouter
