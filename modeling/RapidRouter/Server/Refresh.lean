import RapidRouter.Core.Credential
import RapidRouter.Lib.Lts

/-!
# Rotating refresh tokens

A refresh token is good for one rotation. The seat that holds it lives in
memory, once for each table that was built with it, and in the file it was
read from. `refresh_now` of `router-server/src/refresh.rs` takes the gate of
the file, looks at the seat again, posts its token, merges the answer into
the seat's document, writes the file and then publishes the seat. It is
called on a schedule, when a key is leased, and by `attempt`
(`router-server/src/proxy.rs`) when the provider answers 401; a request whose
seat was renewed is tried again. `install` (`device_login.rs`) merges, writes
and publishes the tokens of a login without taking the gate, and a reload
builds new seats from the documents its configuration was read with.

All of these are tasks here, and each step between two of their awaits or
writes is a step of the run. A ghost records which refresh token was issued
last for the credential in a file, how often one was installed there, and
what there is to judge a run by (`Event`).

`rotation_law` says of every run what keeps it in order. `refresh_now`, which
is to renew a seat unconditionally, looks again whether the seat is about to
expire: on a 401 it posts exactly when the token would have been renewed
anyway. A second seat with the same file, a login during a rotation and a
configuration read before one keep a token that is consumed
(`out_of_order`).
-/

namespace RapidRouter.Server.Refresh

open Lts
open Json (Value)
open RapidRouter.Core (ProviderKind)
open Core.Credential

/-! ## Keys, requests and tasks -/

def refreshSkewMs : Nat := 2 * 60 * 1000

structure KeyRuntime where
  provider : String
  name : String
  kind : ProviderKind
  sourcePath : Option String
  /-- Where the state of its seat is; a static credential has none. -/
  seat : Option Nat
  deriving DecidableEq

abbrev Table := List KeyRuntime

/-- A key as the configuration declares it, with the text it was read with. -/
structure ApiKey where
  provider : String
  name : String
  kind : ProviderKind
  sourcePath : Option String
  secret : Document

structure Request where
  table : Table
  /-- The key renewed when the request was refused, and its new token. -/
  renewed : Option (KeyRuntime × String)

/-- Who waits for a refresh. -/
inductive Cause where
  | scheduled
  | lease (r : Request)
  | refused (r : Request) (token : Option String) (last : Bool)

inductive Origin where
  | refresh (c : Cause)
  | login

inductive Task where
  /-- An attempt is about to pick a key. -/
  | choosing (r : Request)
  | building (r : Request) (key : KeyRuntime)
  | sent (r : Request) (key : KeyRuntime) (token : Option String)
  /-- Before the gate of the file. -/
  | waiting (c : Cause) (key : KeyRuntime) (path : String) (seat now : Nat)
  | posted (c : Cause) (key : KeyRuntime) (path : String) (seat now : Nat) (state : SeatState)
    (installs : Nat)
  /-- A login got its tokens. -/
  | signedIn (provider name : String) (tokens : Value)
  | writing (o : Origin) (key : KeyRuntime) (path : String) (seat : Nat) (document : Document)
    (renewed : SeatState) (installs : Nat)
  | publishing (o : Origin) (key : KeyRuntime) (path : String) (seat : Nat) (renewed : SeatState)
    (installs : Nat)
  | ended

/-- What a run is judged by. -/
inductive Event where
  /-- A refresh token is posted; the one issued last for its credential. -/
  | posted (path token : String) (latest : Option String)
  /-- A rotation writes or publishes; the installs when it began and now. -/
  | stored (path : String) (before after : Nat)
  /-- An unexpired token was refused that is still the seat's. -/
  | refused (attempted : Bool)
  /-- A request is sent again after its seat was renewed. -/
  | retried (renewed : String) (sent : Option String)
  deriving DecidableEq

def Event.ok : Event → Bool
  | .posted _ token latest => latest = some token
  | .stored _ before after => before = after
  | .refused attempted => attempted
  | .retried renewed sent => sent = some renewed

structure State where
  seats : List SeatState
  files : String → Option Document
  table : Table
  /-- The tables before it. -/
  older : List Table
  tasks : List Task
  /-- A ghost: the refresh token issued last for the credential in a file. -/
  latest : String → Option String
  /-- A ghost: how often a login installed one. -/
  installs : String → Nat
  log : List Event

/-- What comes of a post. -/
inductive Answer where
  | arrived (response : Value)
  /-- An error, which may hide that a token was issued. -/
  | failed (issued : Option String)

/-- The refresh token the endpoint issued. -/
def Answer.issued : Answer → Option String
  | .arrived response => nonEmpty response "refresh_token"
  | .failed issued => issued

inductive Label where
  | reload (keys : List ApiKey)
  /-- The maintenance loop comes to a key of the table it collected. -/
  | schedule (key : KeyRuntime) (now : Nat)
  | request
  | choose (k : Nat) (key : KeyRuntime) (now : Nat)
  | build (k : Nat)
  /-- The provider answers: 401 or not, and whether another attempt follows. -/
  | reply (k : Nat) (unauthorized again last : Bool) (now : Nat)
  | enter (k : Nat)
  | answer (k : Nat) (a : Answer)
  | write (k : Nat) (written : Bool)
  | publish (k : Nat)
  /-- A device login is confirmed and its code exchanged. -/
  | exchange (provider name : String) (tokens : Value)
  | install (k : Nat) (now : Nat)

/-! ## The steps -/

def Task.holds (path : String) : Task → Bool
  | .posted _ _ p _ _ _ _ => p = path
  | .writing (.refresh _) _ p _ _ _ _ => p = path
  | .publishing (.refresh _) _ p _ _ _ => p = path
  | _ => false

/-- The gate of a file is free. -/
def State.gateFree (s : State) (path : String) : Bool := s.tasks.all fun t => !t.holds path

def State.setTask (s : State) (k : Nat) (t : Task) : State := { s with tasks := s.tasks.set k t }

def State.addTask (s : State) (t : Task) : State := { s with tasks := s.tasks ++ [t] }

def State.record (s : State) (e : Event) : State := { s with log := e :: s.log }

/-- The seat of a key, as it is now. -/
def State.current (s : State) (key : KeyRuntime) : Option SeatState :=
  key.seat.bind fun a => s.seats[a]?

/-- `from_config_with`, as far as the credentials go: every seat is new. -/
def fromConfig (c : Claims) (seats : List SeatState) : List ApiKey → List SeatState × Table
  | [] => (seats, [])
  | k :: rest =>
    match buildCredential c k.kind k.secret with
    | some state =>
      let built := fromConfig c (seats ++ [state]) rest
      (built.1, ⟨k.provider, k.name, k.kind, k.sourcePath, some seats.length⟩ :: built.2)
    | none =>
      let built := fromConfig c seats rest
      (built.1, ⟨k.provider, k.name, k.kind, k.sourcePath, none⟩ :: built.2)

/-- What follows when `refresh_now` returns, with the token it renewed. -/
def returned (key : KeyRuntime) : Cause → Option String → Task
  | .scheduled, _ => .ended
  | .lease r, _ => .building r key
  | .refused r _ last, renewed =>
    if last then .ended else .choosing ⟨r.table, renewed.map fun token => (key, token)⟩

/-- The calling task of `refresh_now`: a seat without a file, or of another
vendor, is not renewed. -/
def refreshNow (c : Cause) (key : KeyRuntime) (now : Nat) : Task :=
  match key.seat, key.sourcePath with
  | some seat, some path =>
    if key.kind = .codexSubscription then .waiting c key path seat now else returned key c none
  | _, _ => returned key c none

/-- The token was refused, is not expired and still the seat's. -/
def Cause.stands (c : Cause) (state : SeatState) (now : Nat) : Bool :=
  match c with
  | .refused _ token _ => token = some state.accessToken && !state.isExpired now
  | _ => false

/-- A refusal of such a token, and whether a rotation is attempted. -/
def State.judge (s : State) (c : Cause) (state : SeatState) (now : Nat) (attempted : Bool) :
    State :=
  if c.stands state now then s.record (.refused attempted) else s

/-- Under the gate the seat is looked at again. -/
def wanted (state : SeatState) (now : Nat) : Bool :=
  state.wantsRefresh now refreshSkewMs || state.isExpired now

section
variable (c : Claims)

/-- A response becomes a document and the credential it reads as. -/
def renew (document : Document) (response : Value) (now : Nat) : Option (Document × SeatState) :=
  match mergeRefresh c document response now with
  | .error _ => none
  | .ok merged =>
    match parseCodexAuthJson c merged with
    | .error _ => none
    | .ok renewed => some (merged, renewed)

/-- `install` refuses tokens of another address. -/
def sameAccount (had got : Option String) : Bool :=
  match had, got with
  | some had, some got => Core.Text.eqIgnoreAsciiCase had got
  | _, _ => true

def entered (s : State) (k : Nat) (cause : Cause) (key : KeyRuntime) (path : String)
    (seat now : Nat) (state : SeatState) : State :=
  if wanted state now then
    match state.refreshToken with
    | some token =>
      ((s.judge cause state now true).record (.posted path token (s.latest path))).setTask k
        (.posted cause key path seat now state (s.installs path))
    | none => (s.judge cause state now false).setTask k (returned key cause none)
  else (s.judge cause state now false).setTask k (returned key cause none)

def answered (s : State) (k : Nat) (cause : Cause) (key : KeyRuntime) (path : String)
    (seat now : Nat) (state : SeatState) (installs : Nat) (a : Answer) : State :=
  let s :=
    match a.issued with
    | some token => { s with latest := Function.update s.latest path (some token) }
    | none => s
  match a with
  | .failed _ => s.setTask k (returned key cause none)
  | .arrived response =>
    match renew c state.document response now with
    | none => s.setTask k (returned key cause none)
    | some (merged, renewed) =>
      s.setTask k (.writing (.refresh cause) key path seat merged renewed installs)

/-- `write_atomic`, of a rotation or of a login. -/
def wrote (s : State) (k : Nat) (o : Origin) (key : KeyRuntime) (path : String) (seat : Nat)
    (document : Document) (renewed : SeatState) (installs : Nat) (written : Bool) : State :=
  match o, written with
  | .refresh cause, false => s.setTask k (returned key cause none)
  | .login, false => s.setTask k .ended
  | .refresh cause, true =>
    ({ s with files := Function.update s.files path (some document) }.record
      (.stored path installs (s.installs path))).setTask k
        (.publishing (.refresh cause) key path seat renewed installs)
  | .login, true =>
    { s with
      files := Function.update s.files path (some document)
      latest := Function.update s.latest path renewed.refreshToken
      installs := Function.update s.installs path (s.installs path + 1) }.setTask k
        (.publishing .login key path seat renewed installs)

def published (s : State) (k : Nat) (o : Origin) (key : KeyRuntime) (path : String) (seat : Nat)
    (renewed : SeatState) (installs : Nat) : State :=
  let s' := { s with seats := s.seats.set seat renewed }
  match o with
  | .refresh cause =>
    (s'.record (.stored path installs (s.installs path))).setTask k
      (returned key cause (some renewed.accessToken))
  | .login => s'.setTask k .ended

/-- `install`, up to the write. -/
def installs (s : State) (provider name : String) (tokens : Value) (now : Nat) : Task :=
  match s.table.find? fun key => key.provider = provider && key.name = name with
  | none => .ended
  | some key =>
    match key.seat, key.sourcePath, s.current key with
    | some seat, some path, some state =>
      match renew c state.document tokens now with
      | none => .ended
      | some (merged, renewed) =>
        if sameAccount state.email renewed.email then
          .writing .login key path seat merged renewed 0
        else .ended
    | _, _, _ => .ended

def built (s : State) (k : Nat) (r : Request) (key : KeyRuntime) : State :=
  let token := (s.current key).map (·.accessToken)
  let s :=
    match r.renewed with
    | some (_, renewed) => s.record (.retried renewed token)
    | none => s
  s.setTask k (.sent r key token)

/-- A 401 of a subscription renews the seat, if it can be. -/
def replied (s : State) (k : Nat) (r : Request) (key : KeyRuntime) (token : Option String)
    (unauthorized again last : Bool) (now : Nat) : State :=
  if unauthorized && key.kind.isSubscription then
    let cause := Cause.refused r token last
    let task := refreshNow cause key now
    match task, s.current key with
    | .waiting .., _ | _, none => s.setTask k task
    | _, some state => (s.judge cause state now false).setTask k task
  else s.setTask k (if again then .choosing ⟨r.table, none⟩ else .ended)

def next (s : State) : Label → Option State
  | .reload keys =>
    let built := fromConfig c s.seats keys
    some { s with seats := built.1, table := built.2, older := s.table :: s.older }
  | .schedule key now =>
    if (s.table :: s.older).any (key ∈ ·) then
      match s.current key, key.sourcePath with
      | some state, some _ =>
        if wanted state now then some (s.addTask (refreshNow .scheduled key now)) else some s
      | _, _ => some s
    else none
  | .request => some (s.addTask (.choosing ⟨s.table, none⟩))
  | .choose k key now =>
    match s.tasks[k]? with
    | some (.choosing r) =>
      if key ∈ r.table then
        match s.current key with
        | some state =>
          if state.wantsRefresh now refreshSkewMs then
            some (s.setTask k (refreshNow (.lease r) key now))
          else some (s.setTask k (.building r key))
        | none => some (s.setTask k (.building r key))
      else none
    | _ => none
  | .build k =>
    match s.tasks[k]? with
    | some (.building r key) => some (built s k r key)
    | _ => none
  | .reply k unauthorized again last now =>
    match s.tasks[k]? with
    | some (.sent r key token) => some (replied s k r key token unauthorized again last now)
    | _ => none
  | .enter k =>
    match s.tasks[k]? with
    | some (.waiting cause key path seat now) =>
      if s.gateFree path then
        (s.seats[seat]?).map (entered s k cause key path seat now)
      else none
    | _ => none
  | .answer k a =>
    match s.tasks[k]? with
    | some (.posted cause key path seat now state installs) =>
      some (answered c s k cause key path seat now state installs a)
    | _ => none
  | .write k written =>
    match s.tasks[k]? with
    | some (.writing o key path seat document renewed installs) =>
      some (wrote s k o key path seat document renewed installs written)
    | _ => none
  | .publish k =>
    match s.tasks[k]? with
    | some (.publishing o key path seat renewed installs) =>
      some (published s k o key path seat renewed installs)
    | _ => none
  | .exchange provider name tokens => some (s.addTask (.signedIn provider name tokens))
  | .install k now =>
    match s.tasks[k]? with
    | some (.signedIn provider name tokens) =>
      some (s.setTask k (installs c s provider name tokens now))
    | _ => none

/-- Before the first configuration: the files as they are. -/
def start (files : String → Option Document) : State where
  seats := []
  files := files
  table := []
  older := []
  tasks := []
  latest := fun path => (files path).bind Document.refreshToken
  installs := fun _ => 0
  log := []

def refreshing : System State Label := ofNext (fun s => ∃ files, s = start files) (next c)

/-! ## Order -/

/-- The file a task works on: a rotation from its post on, a login from the
moment it has looked at the seat. -/
def Task.path : Task → Option String
  | .posted _ _ path _ _ _ _ => some path
  | .writing _ _ path _ _ _ _ => some path
  | .publishing _ _ path _ _ _ => some path
  | _ => none

def State.quiet (s : State) (path : String) : Bool := s.tasks.all fun t => t.path ≠ some path

def Cause.request : Cause → Option Request
  | .lease r => some r
  | _ => none

/-- A request that is about to be sent, and its key once it is picked. -/
def Task.carries : Task → Option (Request × Option KeyRuntime)
  | .choosing r => some (r, none)
  | .building r key => some (r, some key)
  | .waiting c key _ _ _ => c.request.map (·, some key)
  | .posted c key _ _ _ _ _ => c.request.map (·, some key)
  | .writing (.refresh c) key _ _ _ _ _ => c.request.map (·, some key)
  | .publishing (.refresh c) key _ _ _ _ => c.request.map (·, some key)
  | _ => none

/-- The seat whose new token a request is about to be sent with again. -/
def Task.retries (seat : Nat) (t : Task) : Bool :=
  t.carries.any fun r => r.1.renewed.any fun p => p.1.seat = some seat

/-- What keeps a run in order. No two seats have one file, and a
configuration is read and put in force while no rotation or login works on a
file, with the refresh token that is in it. A rotation begins with a seat of
the table in force, while no login works on its file, and a login while no
rotation does. What the endpoint issues arrives, can be used and is written.
An unexpired token that is refused is about to expire, of a seat that can
renew itself. A request is tried again with the seat that was renewed, and
nothing else is published to it before. -/
def orderly (s : State) : Label → Bool
  | .reload keys =>
    s.tasks.all (·.path.isNone) &&
      decide ((keys.filter (·.kind.isSubscription)).filterMap (·.sourcePath)).Nodup &&
      keys.all fun k => k.kind ≠ .codexSubscription || k.sourcePath.all fun path =>
        (s.files path).bind Document.refreshToken = k.secret.refreshToken
  | .choose k key _ =>
    match s.tasks[k]? with
    | some (.choosing r) => r.renewed.all fun p => p.1 = key
    | _ => true
  | .reply k unauthorized _ last now =>
    match s.tasks[k]? with
    | some (.sent r key token) =>
      (s.current key).all fun state =>
        !(unauthorized && key.kind.isSubscription &&
          (Cause.refused r token last).stands state now) ||
        (key.kind = .codexSubscription && key.sourcePath.isSome)
    | _ => true
  | .enter k =>
    match s.tasks[k]? with
    | some (.waiting cause key path seat now) =>
      s.seats[seat]?.all fun state =>
        (!(wanted state now && state.refreshToken.isSome) ||
          (decide (key ∈ s.table) && s.quiet path)) &&
        (!cause.stands state now || state.wantsRefresh now refreshSkewMs)
    | _ => true
  | .answer k a =>
    match s.tasks[k]? with
    | some (.posted _ _ _ _ now state _) =>
      a.issued.isNone ||
        match a with
        | .arrived response => (renew c state.document response now).isSome
        | .failed _ => false
    | _ => true
  | .write k written =>
    match s.tasks[k]? with
    | some (.writing (.refresh _) _ _ seat _ renewed _) =>
      written || s.seats[seat]?.bind (·.refreshToken) = renewed.refreshToken
    | _ => true
  | .publish k =>
    match s.tasks[k]? with
    | some (.publishing _ _ _ seat _ _) => s.tasks.all fun t => !t.retries seat
    | _ => true
  | .install k _ =>
    match s.tasks[k]? with
    | some (.signedIn provider name _) =>
      (s.table.find? fun key => key.provider = provider && key.name = name).all fun key =>
        key.sourcePath.all s.quiet
    | _ => true
  | _ => true

def Orderly (s : State) (l : Label) : Prop := orderly c s l = true

/-! ## What every step keeps -/

def State.fileToken (s : State) (path : String) : Option String :=
  (s.files path).bind Document.refreshToken

/-- A task works on the file of a key in force. -/
structure Owns (table : Table) (key : KeyRuntime) (path : String) (seat : Nat) : Prop where
  mem : key ∈ table
  seat : key.seat = some seat
  path : key.sourcePath = some path

/-- A credential reads as its document does. -/
def Reads (document : Document) (state : SeatState) : Prop :=
  state.document = document ∧ document.refreshToken = state.refreshToken

/-- A seat has the refresh token issued last, or none at all. -/
def InStep (s : State) (path : String) (seat : Nat) : Prop :=
  ∀ state, s.seats[seat]? = some state →
    state.refreshToken = none ∨ state.refreshToken = s.latest path

def TaskOk (s : State) : Task → Prop
  | .waiting _ key path seat _ =>
    key.seat = some seat ∧ key.sourcePath = some path ∧ key.kind = .codexSubscription
  | .posted _ key path seat _ state installs =>
    Owns s.table key path seat ∧ s.seats[seat]? = some state ∧
      state.refreshToken = s.latest path ∧ s.fileToken path = s.latest path ∧
      Reads state.document state ∧ installs = s.installs path
  | .writing (.refresh _) key path seat document renewed installs =>
    Owns s.table key path seat ∧ Reads document renewed ∧ renewed.refreshToken = s.latest path ∧
      s.fileToken path = s.seats[seat]?.bind (·.refreshToken) ∧ installs = s.installs path
  | .writing .login key path seat document renewed _ =>
    Owns s.table key path seat ∧ Reads document renewed ∧ s.fileToken path = s.latest path ∧
      (key.kind = .codexSubscription → InStep s path seat)
  | .publishing o key path seat renewed installs =>
    Owns s.table key path seat ∧ Reads renewed.document renewed ∧
      renewed.refreshToken = s.latest path ∧ s.fileToken path = s.latest path ∧
      (∀ cause, o = .refresh cause → installs = s.installs path)
  | _ => True

/-- A request that is tried again finds the new token in the seat. -/
def RetryOk (s : State) (t : Task) : Prop :=
  ∀ r picked, t.carries = some (r, picked) → ∀ key token, r.renewed = some (key, token) →
    (∀ key', picked = some key' → key' = key) ∧
      ∃ state, s.current key = some state ∧ state.accessToken = token

structure Inv (s : State) : Prop where
  fits : ∀ key ∈ s.table, ∀ a, key.seat = some a → a < s.seats.length
  own : ∀ key ∈ s.table, ∀ key' ∈ s.table, ∀ a, key.seat = some a → key'.seat = some a → key = key'
  file : ∀ key ∈ s.table, ∀ key' ∈ s.table, ∀ path, key.sourcePath = some path →
    key'.sourcePath = some path → key.seat.isSome = true → key'.seat.isSome = true → key = key'
  reads : ∀ key ∈ s.table, key.kind = .codexSubscription → ∀ a state, key.seat = some a →
    s.seats[a]? = some state → Reads state.document state
  task : ∀ (i : Nat) (t : Task), s.tasks[i]? = some t → TaskOk s t ∧ RetryOk s t
  alone : ∀ (i j : Nat) (t t' : Task) (path : String), s.tasks[i]? = some t →
    s.tasks[j]? = some t' → t.path = some path → t'.path = some path → i = j
  quietFile : ∀ path, s.quiet path = true → s.fileToken path = s.latest path
  quietSeat : ∀ key ∈ s.table, key.kind = .codexSubscription → ∀ a path, key.seat = some a →
    key.sourcePath = some path → s.quiet path = true → InStep s path a
  log : ∀ e ∈ s.log, e.ok = true

theorem quiet_iff {s : State} {path : String} :
    s.quiet path = true ↔
      ∀ (i : Nat) (t : Task), s.tasks[i]? = some t → t.path ≠ some path := by
  unfold State.quiet
  rw [List.all_eq_true]
  constructor
  · intro h i t ht
    exact of_decide_eq_true (h t (List.mem_of_getElem? ht))
  · intro h t ht
    obtain ⟨i, hi⟩ := List.mem_iff_getElem?.mp ht
    exact decide_eq_true (h i t hi)

theorem getElem?_setTask {s : State} {k : Nat} {t t' : Task} (hk : s.tasks[k]? = some t)
    (i : Nat) : (s.setTask k t').tasks[i]? = if i = k then some t' else s.tasks[i]? := by
  have hlt : k < s.tasks.length := (List.getElem?_eq_some_iff.mp hk).1
  show (s.tasks.set k t')[i]? = _
  by_cases hi : i = k
  · rw [if_pos hi, hi, List.getElem?_set_self hlt]
  · rw [if_neg hi, List.getElem?_set_ne (Ne.symm hi)]

/-- The state a task and a table depend on. -/
structure Same (s s' : State) : Prop where
  seats : s'.seats = s.seats
  files : s'.files = s.files
  table : s'.table = s.table
  latest : s'.latest = s.latest
  installs : s'.installs = s.installs

theorem Same.taskOk {s s' : State} (h : Same s s') {t : Task} (ht : TaskOk s t) : TaskOk s' t := by
  obtain ⟨seats, files, table, older, tasks, latest, installs, log⟩ := s
  obtain ⟨seats', files', table', older', tasks', latest', installs', log'⟩ := s'
  obtain ⟨rfl, rfl, rfl, rfl, rfl⟩ := h
  cases t with
  | waiting | posted | publishing => exact ht
  | writing o => cases o <;> exact ht
  | choosing | building | sent | signedIn | ended => trivial

theorem Same.retryOk {s s' : State} (h : Same s s') {t : Task} (ht : RetryOk s t) :
    RetryOk s' t := by
  have hcurrent : s'.current = s.current := by
    funext key
    unfold State.current
    rw [h.seats]
  unfold RetryOk
  rw [hcurrent]
  exact ht

/-- A step that changes no more than tasks that work on no file. -/
theorem Inv.idle {s s' : State} (h : Inv s) (hsame : Same s s')
    (htasks : ∀ (i : Nat) (t : Task), s'.tasks[i]? = some t →
      s.tasks[i]? = some t ∨ t.path = none ∧ TaskOk s t ∧ RetryOk s t)
    (hworks : ∀ (i : Nat) (t : Task), s.tasks[i]? = some t → t.path ≠ none → s'.tasks[i]? = some t)
    (hlog : ∀ e ∈ s'.log, e.ok = true) : Inv s' := by
  have hquiet : ∀ path, s'.quiet path = true → s.quiet path = true := by
    intro path hq
    rw [quiet_iff] at hq ⊢
    intro i t ht hpath
    exact hq i t (hworks i t ht (by rw [hpath]; exact Option.some_ne_none path)) hpath
  have hfile : s'.fileToken = s.fileToken := by
    funext path
    unfold State.fileToken
    rw [hsame.files]
  refine ⟨?_, ?_, ?_, ?_, fun i t ht => ?_, fun i j t t' path hi hj hpath hpath' => ?_,
    fun path hq => ?_, ?_, hlog⟩
  · rw [hsame.table, hsame.seats]
    exact h.fits
  · rw [hsame.table]
    exact h.own
  · rw [hsame.table]
    exact h.file
  · rw [hsame.table, hsame.seats]
    exact h.reads
  · rcases htasks i t ht with hold | ⟨-, hok, hretry⟩
    · exact ⟨hsame.taskOk (h.task i t hold).1, hsame.retryOk (h.task i t hold).2⟩
    · exact ⟨hsame.taskOk hok, hsame.retryOk hretry⟩
  · rcases htasks i t hi with hi | ⟨hnone, -⟩
    · rcases htasks j t' hj with hj | ⟨hnone, -⟩
      · exact h.alone i j t t' path hi hj hpath hpath'
      · rw [hnone] at hpath'
        cases hpath'
    · rw [hnone] at hpath
      cases hpath
  · rw [hfile, hsame.latest]
    exact h.quietFile path (hquiet path hq)
  · intro key hkey hkind a path hseat hpath hq
    rw [hsame.table] at hkey
    unfold InStep
    rw [hsame.seats, hsame.latest]
    exact h.quietSeat key hkey hkind a path hseat hpath (hquiet path hq)

/-- A task is replaced by one that works on no file either. -/
theorem Inv.setTask {s : State} (h : Inv s) {k : Nat} {t t' : Task} (hk : s.tasks[k]? = some t)
    (hpath : t.path = none) (hpath' : t'.path = none) (hok : TaskOk s t') (hretry : RetryOk s t')
    {log : List Event} (hlog : ∀ e ∈ log, e.ok = true) :
    Inv { s.setTask k t' with log := log } := by
  refine h.idle ⟨rfl, rfl, rfl, rfl, rfl⟩ (fun i u hu => ?_) (fun i u hu hworks => ?_) hlog
  · rw [show ({ s.setTask k t' with log := log } : State).tasks = (s.setTask k t').tasks from rfl,
      getElem?_setTask hk] at hu
    by_cases hi : i = k
    · rw [if_pos hi] at hu
      cases hu
      exact Or.inr ⟨hpath', hok, hretry⟩
    · rw [if_neg hi] at hu
      exact Or.inl hu
  · show (s.setTask k t').tasks[i]? = some u
    rw [getElem?_setTask hk]
    by_cases hi : i = k
    · rw [hi, hk] at hu
      cases hu
      exact absurd hpath hworks
    · rw [if_neg hi]
      exact hu

theorem Inv.addTask {s : State} (h : Inv s) {t : Task} (hpath : t.path = none) (hok : TaskOk s t)
    (hretry : RetryOk s t) : Inv (s.addTask t) := by
  refine h.idle ⟨rfl, rfl, rfl, rfl, rfl⟩ (fun i u hu => ?_) (fun i u hu hworks => ?_) h.log
  · have hu' : (s.tasks ++ [t])[i]? = some u := hu
    rw [List.getElem?_append] at hu'
    split at hu'
    · exact Or.inl hu'
    · rw [List.getElem?_singleton] at hu'
      split at hu'
      · cases hu'
        exact Or.inr ⟨hpath, hok, hretry⟩
      · cases hu'
  · show (s.tasks ++ [t])[i]? = some u
    exact List.getElem?_append_left (List.getElem?_eq_some_iff.mp hu).1 ▸ hu

/-- A task depends on its file and on the seat it works for. -/
theorem TaskOk.frame {s s' : State} {u : Task} (hok : TaskOk s u) (htable : s'.table = s.table)
    (hsame : ∀ p key a, u.path = some p → Owns s.table key p a →
      s'.files p = s.files p ∧ s'.latest p = s.latest p ∧ s'.installs p = s.installs p ∧
        s'.seats[a]? = s.seats[a]?) : TaskOk s' u := by
  have hfile : ∀ p, s'.files p = s.files p → s'.fileToken p = s.fileToken p := by
    intro p hp
    unfold State.fileToken
    rw [hp]
  cases u with
  | choosing | building | sent | signedIn | ended => trivial
  | waiting => exact hok
  | posted cause key path seat now state installs =>
    obtain ⟨howns, hstate, htoken, hfiles, hreads, hinstalls⟩ := hok
    obtain ⟨hf, hl, hi, hs⟩ := hsame path key seat rfl howns
    unfold TaskOk
    dsimp only
    rw [hl, hfile path hf, hi, hs, htable]
    exact ⟨howns, hstate, htoken, hfiles, hreads, hinstalls⟩
  | writing o key path seat document renewed installs =>
    cases o with
    | refresh cause =>
      obtain ⟨howns, hreads, htoken, hfiles, hinstalls⟩ := hok
      obtain ⟨hf, hl, hi, hs⟩ := hsame path key seat rfl howns
      unfold TaskOk
      dsimp only
      rw [hl, hfile path hf, hi, hs, htable]
      exact ⟨howns, hreads, htoken, hfiles, hinstalls⟩
    | login =>
      obtain ⟨howns, hreads, hfiles, hstep⟩ := hok
      obtain ⟨hf, hl, -, hs⟩ := hsame path key seat rfl howns
      unfold TaskOk InStep
      dsimp only
      rw [hl, hfile path hf, hs, htable]
      exact ⟨howns, hreads, hfiles, hstep⟩
  | publishing o key path seat renewed installs =>
    obtain ⟨howns, hreads, htoken, hfiles, hinstalls⟩ := hok
    obtain ⟨hf, hl, hi, -⟩ := hsame path key seat rfl howns
    unfold TaskOk
    dsimp only
    rw [hl, hfile path hf, hi, htable]
    exact ⟨howns, hreads, htoken, hfiles, hinstalls⟩

/-- A step of the one task that works on a file, from its first look at the
seat to the last write: it changes that file, that seat and their ghosts. -/
theorem Inv.works {s s' : State} (h : Inv s) {k : Nat} {t t' : Task} {key : KeyRuntime}
    {path : String} {seat : Nat} (hk : s.tasks[k]? = some t)
    (ht : t.path = none ∨ t.path = some path) (howns : Owns s.table key path seat)
    (halone : ∀ (j : Nat) (u : Task), j ≠ k → s.tasks[j]? = some u → u.path ≠ some path)
    (htasks : s'.tasks = s.tasks.set k t') (htable : s'.table = s.table)
    (hlength : s'.seats.length = s.seats.length)
    (hseats : ∀ a, a ≠ seat → s'.seats[a]? = s.seats[a]?)
    (hothers : ∀ p, p ≠ path → s'.files p = s.files p ∧ s'.latest p = s.latest p ∧
      s'.installs p = s.installs p)
    (ht' : t'.path = none ∨ t'.path = some path) (hok : TaskOk s' t')
    (hretry : ∀ (i : Nat) (u : Task), s'.tasks[i]? = some u → RetryOk s' u)
    (hreads : key.kind = .codexSubscription → ∀ state, s'.seats[seat]? = some state →
      Reads state.document state)
    (hdone : t'.path = none → s'.fileToken path = s'.latest path ∧
      (key.kind = .codexSubscription → InStep s' path seat))
    (hlog : ∀ e ∈ s'.log, e.ok = true) : Inv s' := by
  have hget : ∀ i, s'.tasks[i]? = if i = k then some t' else s.tasks[i]? := by
    intro i
    rw [htasks]
    exact getElem?_setTask hk i
  -- another key in force has another seat and another file
  have hseat : ∀ key' ∈ s.table, ∀ a, key'.seat = some a → a = seat → key' = key := by
    intro key' hkey' a ha haseat
    exact h.own key' hkey' key howns.mem seat (haseat ▸ ha) howns.seat
  have hpath : ∀ key' ∈ s.table, ∀ a, key'.seat = some a → key'.sourcePath = some path →
      key' = key := by
    intro key' hkey' a ha hp
    exact h.file key' hkey' key howns.mem path hp howns.path (by rw [ha]; rfl)
      (by rw [howns.seat]; rfl)
  have hquiet : ∀ p, p ≠ path → s'.quiet p = true → s.quiet p = true := by
    intro p hp hq
    rw [quiet_iff] at hq ⊢
    intro i u hu hup
    by_cases hi : i = k
    · rw [hi, hk] at hu
      cases hu
      rcases ht with hnone | hsome
      · rw [hnone] at hup
        cases hup
      · rw [hsome] at hup
        exact hp (Option.some.inj hup).symm
    · exact hq i u (by rw [hget, if_neg hi]; exact hu) hup
  have hidle : s'.quiet path = true → t'.path = none := by
    intro hq
    rcases ht' with hnone | hsome
    · exact hnone
    · exact absurd hsome (quiet_iff.mp hq k t' (by rw [hget, if_pos rfl]))
  have hfileToken : ∀ p, p ≠ path → s'.fileToken p = s.fileToken p := by
    intro p hp
    unfold State.fileToken
    rw [(hothers p hp).1]
  refine ⟨?_, ?_, ?_, ?_, fun i u hu => ⟨?_, hretry i u hu⟩, fun i j u u' p hi hj hp hp' => ?_,
    fun p hq => ?_, ?_, hlog⟩
  · rw [htable, hlength]
    exact h.fits
  · rw [htable]
    exact h.own
  · rw [htable]
    exact h.file
  · intro key' hkey' hkind a state ha hstate
    rw [htable] at hkey'
    by_cases haseat : a = seat
    · have heq := hseat key' hkey' a ha haseat
      rw [heq] at hkind
      exact hreads hkind state (haseat ▸ hstate)
    · rw [hseats a haseat] at hstate
      exact h.reads key' hkey' hkind a state ha hstate
  · rw [hget] at hu
    by_cases hi : i = k
    · rw [if_pos hi] at hu
      cases hu
      exact hok
    · rw [if_neg hi] at hu
      refine (h.task i u hu).1.frame htable fun p key' a hup howns' => ?_
      have hp : p ≠ path := fun heq => halone i u hi hu (heq ▸ hup)
      have ha : a ≠ seat := by
        intro heq
        have hsame := hseat key' howns'.mem a howns'.seat heq
        rw [hsame] at howns'
        exact hp (Option.some.inj (howns'.path.symm.trans howns.path))
      exact ⟨(hothers p hp).1, (hothers p hp).2.1, (hothers p hp).2.2, hseats a ha⟩
  · rw [hget] at hi hj
    by_cases hik : i = k
    · by_cases hjk : j = k
      · rw [hik, hjk]
      · rw [if_pos hik] at hi
        rw [if_neg hjk] at hj
        cases hi
        rcases ht' with hnone | hsome
        · rw [hnone] at hp
          cases hp
        · rw [hsome] at hp
          cases hp
          exact absurd hp' (halone j u' hjk hj)
    · rw [if_neg hik] at hi
      by_cases hjk : j = k
      · rw [if_pos hjk] at hj
        cases hj
        rcases ht' with hnone | hsome
        · rw [hnone] at hp'
          cases hp'
        · rw [hsome] at hp'
          cases hp'
          exact absurd hp (halone i u hik hi)
      · rw [if_neg hjk] at hj
        exact h.alone i j u u' p hi hj hp hp'
  · by_cases hp : p = path
    · rw [hp] at hq ⊢
      exact (hdone (hidle hq)).1
    · rw [hfileToken p hp, (hothers p hp).2.1]
      exact h.quietFile p (hquiet p hp hq)
  · intro key' hkey' hkind a p ha hkp hq
    rw [htable] at hkey'
    by_cases hp : p = path
    · rw [hp] at hq hkp ⊢
      have heq := hpath key' hkey' a ha hkp
      rw [heq] at hkind ha
      have haseat := Option.some.inj (ha.symm.trans howns.seat)
      rw [haseat]
      exact (hdone (hidle hq)).2 hkind
    · have ha' : a ≠ seat := by
        intro heq
        have hsame := hseat key' hkey' a ha heq
        rw [hsame] at hkp
        exact hp (Option.some.inj (hkp.symm.trans howns.path))
      unfold InStep
      rw [hseats a ha', (hothers p hp).2.1]
      exact h.quietSeat key' hkey' hkind a p ha hkp (hquiet p hp hq)

/-- A task that works on a file is alone with it. -/
theorem Inv.others {s : State} (h : Inv s) {k : Nat} {t : Task} {path : String}
    (hk : s.tasks[k]? = some t) (ht : t.path = some path) (j : Nat) (u : Task) (hj : j ≠ k)
    (hu : s.tasks[j]? = some u) : u.path ≠ some path :=
  fun hup => hj (h.alone j k u t path hu hk hup ht)

/-! ## One step -/

theorem path_returned (key : KeyRuntime) (cause : Cause) (renewed : Option String) :
    (returned key cause renewed).path = none := by
  cases cause with
  | scheduled | lease => rfl
  | refused r token last => cases last <;> rfl

theorem taskOk_returned (s : State) (key : KeyRuntime) (cause : Cause) (renewed : Option String) :
    TaskOk s (returned key cause renewed) := by
  cases cause with
  | scheduled | lease => trivial
  | refused r token last => cases last <;> trivial

/-- A request goes on with the key it was about to be sent with, or begins
anew with the one that was renewed. -/
theorem retryOk_returned {s : State} {t : Task} {key : KeyRuntime} {cause : Cause}
    (hcarries : t.carries = cause.request.map (·, some key)) (ht : RetryOk s t)
    {renewed : Option String}
    (hrenewed : ∀ token, renewed = some token →
      ∃ state, s.current key = some state ∧ state.accessToken = token) :
    RetryOk s (returned key cause renewed) := by
  intro r picked hcarry key' token hsome
  cases cause with
  | scheduled => cases hcarry
  | lease r' =>
    cases hcarry
    exact ht r (some key) hcarries key' token hsome
  | refused r' token' last =>
    cases last with
    | true => cases hcarry
    | false =>
      cases hcarry
      obtain ⟨new, hnew, heq⟩ := Option.map_eq_some_iff.mp hsome
      cases heq
      refine ⟨fun key' hkey' => ?_, hrenewed token hnew⟩
      cases hkey'

theorem RetryOk.congr {s : State} {t t' : Task} (h : RetryOk s t) (hcarries : t'.carries = t.carries) :
    RetryOk s t' := by
  intro r picked hcarry
  exact h r picked (hcarries ▸ hcarry)

theorem retryOk_of_none {s : State} {t : Task} (h : t.carries = none) : RetryOk s t := by
  intro r picked hcarry
  rw [h] at hcarry
  cases hcarry

/-- A call of `refresh_now` waits at the gate, or has returned. -/
theorem refreshNow_cases (cause : Cause) (key : KeyRuntime) (now : Nat) :
    (∃ path seat, key.seat = some seat ∧ key.sourcePath = some path ∧
        key.kind = .codexSubscription ∧
        refreshNow cause key now = .waiting cause key path seat now) ∨
      ¬ (key.seat.isSome = true ∧ key.sourcePath.isSome = true ∧ key.kind = .codexSubscription) ∧
        refreshNow cause key now = returned key cause none := by
  unfold refreshNow
  cases hseat : key.seat with
  | none => exact Or.inr ⟨fun hall => absurd hall.1 (by decide), rfl⟩
  | some seat =>
    cases hpath : key.sourcePath with
    | none => exact Or.inr ⟨fun hall => absurd hall.2.1 (by decide), rfl⟩
    | some path =>
      dsimp only
      by_cases hkind : key.kind = .codexSubscription
      · rw [if_pos hkind]
        exact Or.inl ⟨path, seat, rfl, rfl, hkind, rfl⟩
      · rw [if_neg hkind]
        exact Or.inr ⟨fun hall => hkind hall.2.2, rfl⟩

/-- Such a task works on nothing yet. -/
theorem refreshNow_ok {s : State} {t : Task} {cause : Cause} {key : KeyRuntime} {now : Nat}
    (hcarries : t.carries = cause.request.map (·, some key)) (ht : RetryOk s t) :
    (refreshNow cause key now).path = none ∧ TaskOk s (refreshNow cause key now) ∧
      RetryOk s (refreshNow cause key now) := by
  rcases refreshNow_cases cause key now with ⟨path, seat, hseat, hpath, hkind, heq⟩ | ⟨-, heq⟩
  · rw [heq]
    exact ⟨rfl, ⟨hseat, hpath, hkind⟩, ht.congr hcarries.symm⟩
  · rw [heq]
    exact ⟨path_returned .., taskOk_returned .., retryOk_returned hcarries ht fun token h => by cases h⟩

theorem retry_set {s s' : State} (h : Inv s) {k : Nat} {t t' : Task} (hk : s.tasks[k]? = some t)
    (htasks : s'.tasks = s.tasks.set k t') (hseats : s'.seats = s.seats) (ht' : RetryOk s t')
    (i : Nat) (u : Task) (hu : s'.tasks[i]? = some u) : RetryOk s' u := by
  have hcurrent : s'.current = s.current := by
    funext key
    unfold State.current
    rw [hseats]
  have hold : RetryOk s u := by
    rw [htasks] at hu
    have hget := @getElem?_setTask s k _ t' hk i
    rw [show (s.setTask k t').tasks = s.tasks.set k t' from rfl, hu] at hget
    by_cases hi : i = k
    · rw [if_pos hi] at hget
      cases hget
      exact ht'
    · rw [if_neg hi] at hget
      exact (h.task i u hget.symm).2
  unfold RetryOk
  rw [hcurrent]
  exact hold

theorem wanted_of_wantsRefresh {state : SeatState} {now : Nat}
    (h : state.wantsRefresh now refreshSkewMs = true) :
    wanted state now = true ∧ state.refreshToken.isSome = true := by
  refine ⟨?_, ?_⟩
  · unfold wanted
    rw [h, Bool.true_or]
  · unfold SeatState.wantsRefresh at h
    rw [Bool.and_eq_true] at h
    exact h.1

/-- Under the gate: a seat in force that is to be renewed posts the token
issued last. -/
theorem inv_entered {s : State} (h : Inv s) {k : Nat} {cause : Cause} {key : KeyRuntime}
    {path : String} {seat now : Nat} {state : SeatState}
    (hk : s.tasks[k]? = some (.waiting cause key path seat now))
    (hstate : s.seats[seat]? = some state)
    (hforce : wanted state now = true → state.refreshToken.isSome = true →
      key ∈ s.table ∧ s.quiet path = true)
    (hstands : cause.stands state now = true → state.wantsRefresh now refreshSkewMs = true) :
    Inv (entered s k cause key path seat now state) := by
  obtain ⟨⟨hseat, hpath, hkind⟩, hretry⟩ := h.task k _ hk
  have hreturned : (wanted state now = true → state.refreshToken = none) →
      Inv ((s.judge cause state now false).setTask k (returned key cause none)) := by
    intro hnot
    have hfree : ¬ cause.stands state now = true := by
      intro hstand
      obtain ⟨hwanted, hsome⟩ := wanted_of_wantsRefresh (hstands hstand)
      rw [hnot hwanted] at hsome
      cases hsome
    unfold State.judge
    rw [if_neg hfree]
    exact h.setTask hk rfl (path_returned ..) (taskOk_returned ..)
      (retryOk_returned rfl hretry fun token h => by cases h) h.log
  unfold entered
  by_cases hwanted : wanted state now = true
  · rw [if_pos hwanted]
    cases htoken : state.refreshToken with
    | none => exact hreturned fun _ => htoken
    | some token =>
      obtain ⟨hmem, hquiet⟩ := hforce hwanted (by rw [htoken]; rfl)
      have hlatest : state.refreshToken = s.latest path := by
        rcases h.quietSeat key hmem hkind seat path hseat hpath hquiet state hstate with
          hnone | hsame
        · rw [htoken] at hnone
          cases hnone
        · exact hsame
      have hposted : ∀ log : List Event, (∀ e ∈ log, e.ok = true) →
          Inv { s.setTask k (.posted cause key path seat now state (s.installs path)) with
            log := log } := by
        intro log hlog
        refine h.works hk (Or.inl rfl) ⟨hmem, hseat, hpath⟩
          (fun j u _ hu => quiet_iff.mp hquiet j u hu) rfl rfl rfl (fun _ _ => rfl)
          (fun _ _ => ⟨rfl, rfl, rfl⟩) (Or.inr rfl)
          ⟨⟨hmem, hseat, hpath⟩, hstate, hlatest, h.quietFile path hquiet,
            h.reads key hmem hkind seat state hseat hstate, rfl⟩
          (retry_set h hk rfl rfl (hretry.congr rfl)) (fun _ => ?_) (fun hnone => by cases hnone)
          hlog
        exact fun st hst => h.reads key hmem hkind seat st hseat hst
      have hok : (Event.posted path token (s.latest path)).ok = true :=
        decide_eq_true (hlatest ▸ htoken)
      unfold State.judge
      by_cases hstand : cause.stands state now = true
      · rw [if_pos hstand]
        refine hposted _ fun e he => ?_
        rcases List.mem_cons.mp he with rfl | he
        · exact hok
        · rcases List.mem_cons.mp he with rfl | he
          · rfl
          · exact h.log e he
      · rw [if_neg hstand]
        refine hposted _ fun e he => ?_
        rcases List.mem_cons.mp he with rfl | he
        · exact hok
        · exact h.log e he
  · rw [if_neg hwanted]
    exact hreturned fun hyes => absurd hyes hwanted

theorem renew_ok {document merged : Document} {response : Value} {now : Nat} {renewed : SeatState}
    (h : renew c document response now = some (merged, renewed)) :
    Reads merged renewed ∧
      renewed.refreshToken = (nonEmpty response "refresh_token").or document.refreshToken := by
  unfold renew at h
  split at h
  · cases h
  · next doc hmerge =>
    split at h
    · cases h
    · next state hparse =>
      cases h
      obtain ⟨-, hrefresh, hreads, hdocument⟩ := parse_merge c hmerge hparse
      exact ⟨⟨hdocument, hreads.symm⟩, hrefresh⟩

/-- The answer to a post: what is issued goes into the credential that is
about to be written. -/
theorem inv_answered {s : State} (h : Inv s) {k : Nat} {cause : Cause} {key : KeyRuntime}
    {path : String} {seat now installs : Nat} {state : SeatState} {a : Answer}
    (hk : s.tasks[k]? = some (.posted cause key path seat now state installs))
    (harrives : a.issued.isSome = true →
      ∃ v, a = .arrived v ∧ (renew c state.document v now).isSome = true) :
    Inv (answered c s k cause key path seat now state installs a) := by
  obtain ⟨⟨howns, hstate, htoken, hfile, hreads, hinstalls⟩, hretry⟩ := h.task k _ hk
  have halone := h.others hk rfl
  have hreturned : Inv (s.setTask k (returned key cause none)) := by
    have hback : RetryOk s (returned key cause none) :=
      retryOk_returned rfl hretry fun token h => by cases h
    refine h.works hk (Or.inr rfl) howns halone rfl rfl rfl (fun _ _ => rfl)
      (fun _ _ => ⟨rfl, rfl, rfl⟩) (Or.inl (path_returned ..)) (taskOk_returned ..)
      (retry_set h hk rfl rfl hback)
      (fun hkind st hst => h.reads key howns.mem hkind seat st howns.seat hst)
      (fun _ => ⟨hfile, fun _ st hst => ?_⟩) h.log
    have hsame := hstate.symm.trans hst
    cases hsame
    exact Or.inr htoken
  -- the document is merged, and a token is issued or the old one stays
  have hwriting : ∀ (latest : String → Option String) (merged : Document) (renewed : SeatState),
      (∀ p, p ≠ path → latest p = s.latest p) → Reads merged renewed →
      renewed.refreshToken = latest path →
      Inv { s with
        latest := latest
        tasks := s.tasks.set k (.writing (.refresh cause) key path seat merged renewed installs) } := by
    intro latest merged renewed hlatest hread hrefresh
    refine h.works hk (Or.inr rfl) howns halone rfl rfl rfl (fun _ _ => rfl)
      (fun p hp => ⟨rfl, hlatest p hp, rfl⟩) (Or.inr rfl) ⟨howns, hread, hrefresh, ?_, hinstalls⟩
      (retry_set h hk rfl rfl (hretry.congr rfl))
      (fun hkind st hst => h.reads key howns.mem hkind seat st howns.seat hst)
      (fun hnone => by cases hnone) h.log
    show s.fileToken path = s.seats[seat]?.bind (·.refreshToken)
    rw [hstate, hfile, ← htoken]
    rfl
  unfold answered
  cases a with
  | failed issued =>
    cases issued with
    | none => exact hreturned
    | some token =>
      obtain ⟨v, hv, -⟩ := harrives rfl
      cases hv
  | arrived response =>
    dsimp only
    cases hrenew : renew c state.document response now with
    | none =>
      cases hissued : (Answer.arrived response).issued with
      | none => exact hreturned
      | some token =>
        obtain ⟨v, hv, hsome⟩ := harrives (by rw [hissued]; rfl)
        cases hv
        rw [hrenew] at hsome
        cases hsome
    | some answer =>
      obtain ⟨merged, renewed⟩ := answer
      obtain ⟨hread, hrefresh⟩ := renew_ok c hrenew
      have hissued' : (Answer.arrived response).issued = nonEmpty response "refresh_token" := rfl
      dsimp only
      cases hissued : nonEmpty response "refresh_token" with
      | none =>
        rw [hissued', hissued]
        refine hwriting s.latest merged renewed (fun _ _ => rfl) hread ?_
        rw [hrefresh, hissued, ← htoken]
        exact hreads.2
      | some token =>
        rw [hissued', hissued]
        refine hwriting (Function.update s.latest path (some token)) merged renewed
          (fun p hp => Function.update_of_ne hp ..) hread ?_
        rw [hrefresh, hissued, Function.update_self]
        rfl

theorem fileToken_update (s : State) (path : String) (document : Document) :
    ({ s with files := Function.update s.files path (some document) } : State).fileToken path =
      document.refreshToken := by
  unfold State.fileToken
  dsimp only
  rw [Function.update_self]
  rfl

/-- The file is written, or the credential is given up. -/
theorem inv_wrote {s : State} (h : Inv s) {k : Nat} {o : Origin} {key : KeyRuntime}
    {path : String} {seat installs : Nat} {document : Document} {renewed : SeatState}
    {written : Bool}
    (hk : s.tasks[k]? = some (.writing o key path seat document renewed installs))
    (hkeeps : ∀ cause, o = .refresh cause → written = false →
      s.seats[seat]?.bind (·.refreshToken) = renewed.refreshToken) :
    Inv (wrote s k o key path seat document renewed installs written) := by
  obtain ⟨hok, hretry⟩ := h.task k _ hk
  have halone := h.others hk rfl
  cases o with
  | refresh cause =>
    obtain ⟨howns, hread, htoken, hfile, hinstalls⟩ := hok
    have hreads : key.kind = .codexSubscription → ∀ st, s.seats[seat]? = some st →
        Reads st.document st :=
      fun hkind st hst => h.reads key howns.mem hkind seat st howns.seat hst
    cases written with
    | false =>
      have hsame := hkeeps cause rfl rfl
      have hback : RetryOk s (returned key cause none) :=
        retryOk_returned rfl hretry fun token h => by cases h
      refine h.works hk (Or.inr rfl) howns halone rfl rfl rfl (fun _ _ => rfl)
        (fun _ _ => ⟨rfl, rfl, rfl⟩) (Or.inl (path_returned ..)) (taskOk_returned ..)
        (retry_set h hk rfl rfl hback) hreads
        (fun _ => ⟨hfile.trans (hsame.trans htoken), fun _ st hst => Or.inr ?_⟩) h.log
      have hst' : s.seats[seat]? = some st := hst
      rw [hst'] at hsame
      exact hsame.trans htoken
    | true =>
      refine h.works hk (Or.inr rfl) howns halone rfl rfl rfl (fun _ _ => rfl)
        (fun p hp => ⟨Function.update_of_ne hp .., rfl, rfl⟩) (Or.inr rfl)
        ⟨howns, ⟨rfl, hread.1 ▸ hread.2⟩, htoken, ?_, fun _ _ => hinstalls⟩
        (retry_set h hk rfl rfl (hretry.congr rfl)) hreads (fun hnone => by cases hnone)
        fun e he => ?_
      · exact (fileToken_update s path document).trans (hread.2.trans htoken)
      · rcases List.mem_cons.mp he with rfl | he
        · exact decide_eq_true hinstalls
        · exact h.log e he
  | login =>
    obtain ⟨howns, hread, hfile, hstep⟩ := hok
    have hreads : key.kind = .codexSubscription → ∀ st, s.seats[seat]? = some st →
        Reads st.document st :=
      fun hkind st hst => h.reads key howns.mem hkind seat st howns.seat hst
    cases written with
    | false =>
      exact h.works hk (Or.inr rfl) howns halone rfl rfl rfl (fun _ _ => rfl)
        (fun _ _ => ⟨rfl, rfl, rfl⟩) (Or.inl rfl) trivial
        (retry_set h hk rfl rfl (retryOk_of_none rfl)) hreads (fun _ => ⟨hfile, hstep⟩) h.log
    | true =>
      refine h.works hk (Or.inr rfl) howns halone rfl rfl rfl (fun _ _ => rfl)
        (fun p hp => ⟨Function.update_of_ne hp .., Function.update_of_ne hp ..,
          Function.update_of_ne hp ..⟩) (Or.inr rfl)
        ⟨howns, ⟨rfl, hread.1 ▸ hread.2⟩,
          (Function.update_self path renewed.refreshToken s.latest).symm, ?_,
          fun cause hcause => by cases hcause⟩
        (retry_set h hk rfl rfl (retryOk_of_none rfl)) hreads (fun hnone => by cases hnone) h.log
      show (Function.update s.files path (some document) path).bind _ =
        Function.update s.latest path renewed.refreshToken path
      rw [Function.update_self, Function.update_self]
      exact hread.2

/-- The seat is published: who is about to be sent again finds its new token
there. -/
theorem inv_published {s : State} (h : Inv s) {k : Nat} {o : Origin} {key : KeyRuntime}
    {path : String} {seat installs : Nat} {renewed : SeatState}
    (hk : s.tasks[k]? = some (.publishing o key path seat renewed installs))
    (hnone : ∀ t ∈ s.tasks, t.retries seat = false) :
    Inv (published s k o key path seat renewed installs) := by
  obtain ⟨⟨howns, hread, htoken, hfile, hinstalls⟩, hretry⟩ := h.task k _ hk
  have halone := h.others hk rfl
  have hlt := h.fits key howns.mem seat howns.seat
  have hset : (s.seats.set seat renewed)[seat]? = some renewed := List.getElem?_set_self hlt
  have hother : ∀ a, a ≠ seat → (s.seats.set seat renewed)[a]? = s.seats[a]? :=
    fun a ha => List.getElem?_set_ne (Ne.symm ha)
  have hcurrent : ∀ (s' : State), s'.seats = s.seats.set seat renewed →
      s'.current key = some renewed := by
    intro s' hs'
    unfold State.current
    rw [howns.seat, hs']
    exact hset
  -- nobody else waits for a token of this seat
  have hkept : ∀ (s' : State), s'.seats = s.seats.set seat renewed →
      ∀ u ∈ s.tasks, RetryOk s u → RetryOk s' u := by
    intro s' hs' u hu hok r picked hcarry key' token hsome
    obtain ⟨hpicked, state, hstate, haccess⟩ := hok r picked hcarry key' token hsome
    have hseat : key'.seat ≠ some seat := by
      intro heq
      have hretries : u.retries seat = true := by
        unfold Task.retries
        rw [hcarry]
        show (r.renewed.any fun p => decide (p.1.seat = some seat)) = true
        rw [hsome]
        exact decide_eq_true heq
      rw [hnone u hu] at hretries
      cases hretries
    refine ⟨hpicked, state, ?_, haccess⟩
    unfold State.current at hstate ⊢
    rw [hs']
    obtain ⟨a, ha, hst⟩ := Option.bind_eq_some_iff.mp hstate
    rw [ha] at hseat ⊢
    have hne : a ≠ seat := fun heq => hseat (congrArg some heq)
    exact (hother a hne).trans hst
  have hall : ∀ (s' : State) (t' : Task), s'.seats = s.seats.set seat renewed →
      s'.tasks = s.tasks.set k t' → RetryOk s' t' →
      ∀ (i : Nat) (u : Task), s'.tasks[i]? = some u → RetryOk s' u := by
    intro s' t' hs' htasks ht' i u hu
    have hget := @getElem?_setTask s k _ t' hk i
    rw [show (s.setTask k t').tasks = s'.tasks from htasks.symm, hu] at hget
    by_cases hi : i = k
    · rw [if_pos hi] at hget
      cases hget
      exact ht'
    · rw [if_neg hi] at hget
      exact hkept s' hs' u (List.mem_of_getElem? hget.symm) (h.task i u hget.symm).2
  have hreads' : ∀ (s' : State), s'.seats = s.seats.set seat renewed →
      ∀ st, s'.seats[seat]? = some st → Reads st.document st := by
    intro s' hs' st hst
    rw [hs', hset] at hst
    cases hst
    exact hread
  have hstep : ∀ (s' : State), s'.seats = s.seats.set seat renewed → s'.latest = s.latest →
      InStep s' path seat := by
    intro s' hs' hl st hst
    rw [hs', hset] at hst
    cases hst
    rw [hl]
    exact Or.inr htoken
  cases o with
  | login =>
    refine h.works hk (Or.inr rfl) howns halone rfl rfl (List.length_set ..) hother
      (fun _ _ => ⟨rfl, rfl, rfl⟩) (Or.inl rfl) trivial ?_ (fun _ => hreads' _ rfl)
      (fun _ => ⟨hfile, fun _ => hstep _ rfl rfl⟩) h.log
    exact hall _ .ended rfl rfl (retryOk_of_none rfl)
  | refresh cause =>
    refine h.works hk (Or.inr rfl) howns halone rfl rfl (List.length_set ..) hother
      (fun _ _ => ⟨rfl, rfl, rfl⟩) (Or.inl (path_returned ..)) (taskOk_returned ..) ?_
      (fun _ => hreads' _ rfl) (fun _ => ⟨hfile, fun _ => hstep _ rfl rfl⟩) fun e he => ?_
    · refine hall _ _ rfl rfl ?_
      refine @retryOk_returned _ (.publishing (.refresh cause) key path seat renewed installs) key
        cause rfl (hkept _ rfl _ (List.mem_of_getElem? hk) hretry) _ fun token htok => ?_
      cases htok
      exact ⟨renewed, hcurrent _ rfl, rfl⟩
    · rcases List.mem_cons.mp he with rfl | he
      · exact decide_eq_true (hinstalls cause rfl)
      · exact h.log e he

/-- A login looks at the seat of a key in force. -/
theorem inv_installed {s : State} (h : Inv s) {k : Nat} {provider name : String} {tokens : Value}
    (hk : s.tasks[k]? = some (.signedIn provider name tokens))
    (hquiet : ∀ key path,
      (s.table.find? fun key => key.provider = provider && key.name = name) = some key →
        key.sourcePath = some path → s.quiet path = true) (now : Nat) :
    Inv (s.setTask k (installs c s provider name tokens now)) := by
  have hover : Inv (s.setTask k .ended) :=
    @Inv.setTask s h k _ .ended hk rfl rfl trivial (retryOk_of_none rfl) s.log h.log
  unfold installs
  cases hfind : s.table.find? fun key => key.provider = provider && key.name = name with
  | none => exact hover
  | some key =>
    have hmem := List.mem_of_find?_eq_some hfind
    dsimp only
    cases hseat : key.seat with
    | none => exact hover
    | some seat =>
      cases hpath : key.sourcePath with
      | none => exact hover
      | some path =>
        cases hcurrent : s.current key with
        | none => exact hover
        | some state =>
          dsimp only
          cases hrenew : renew c state.document tokens now with
          | none => exact hover
          | some answer =>
            obtain ⟨merged, renewed⟩ := answer
            dsimp only
            by_cases hsame : sameAccount state.email renewed.email = true
            · rw [if_pos hsame]
              have hq := hquiet key path hfind hpath
              exact h.works hk (Or.inl rfl) ⟨hmem, hseat, hpath⟩
                (fun j u _ hu => quiet_iff.mp hq j u hu) rfl rfl rfl (fun _ _ => rfl)
                (fun _ _ => ⟨rfl, rfl, rfl⟩) (Or.inr rfl)
                ⟨⟨hmem, hseat, hpath⟩, (renew_ok c hrenew).1, h.quietFile path hq,
                  fun hkind => h.quietSeat key hmem hkind seat path hseat hpath hq⟩
                (retry_set h hk rfl rfl (retryOk_of_none rfl))
                (fun hkind st hst => h.reads key hmem hkind seat st hseat hst)
                (fun hnone => by cases hnone) h.log
            · rw [if_neg hsame]
              exact hover

/-- A request is sent, and again with the token that was renewed for it. -/
theorem inv_built {s : State} (h : Inv s) {k : Nat} {r : Request} {key : KeyRuntime}
    (hk : s.tasks[k]? = some (.building r key)) : Inv (built s k r key) := by
  obtain ⟨-, hretry⟩ := h.task k _ hk
  unfold built
  cases hrenewed : r.renewed with
  | none =>
    exact @Inv.setTask s h k _ (.sent r key _) hk rfl rfl trivial (retryOk_of_none rfl) s.log h.log
  | some p =>
    obtain ⟨key', token⟩ := p
    obtain ⟨hpicked, state, hstate, haccess⟩ := hretry r (some key) rfl key' token hrenewed
    have hkey := hpicked key rfl
    refine @Inv.setTask s h k _ (.sent r key _) hk rfl rfl trivial (retryOk_of_none rfl) (_ :: s.log)
      fun e he => ?_
    rcases List.mem_cons.mp he with rfl | he
    · refine decide_eq_true ?_
      rw [hkey, hstate]
      exact congrArg some haccess
    · exact h.log e he

theorem inv_replied {s : State} (h : Inv s) {k : Nat} {r : Request} {key : KeyRuntime}
    {token : Option String} {unauthorized again last : Bool} {now : Nat}
    (hk : s.tasks[k]? = some (.sent r key token))
    (hrenews : ∀ state, s.current key = some state →
      (unauthorized && key.kind.isSubscription) = true →
      (Cause.refused r token last).stands state now = true →
        key.kind = .codexSubscription ∧ key.sourcePath.isSome = true) :
    Inv (replied s k r key token unauthorized again last now) := by
  obtain ⟨-, hretry⟩ := h.task k _ hk
  have hnothing : ∀ t : Task, t.path = none → TaskOk s t → RetryOk s t → Inv (s.setTask k t) :=
    fun t hpath hok hr => h.setTask hk rfl hpath hok hr h.log
  unfold replied
  by_cases hrefused : (unauthorized && key.kind.isSubscription) = true
  · rw [if_pos hrefused]
    obtain ⟨hpath, hok, hr⟩ :=
      @refreshNow_ok s _ (.refused r token last) key now rfl hretry
    have hset := hnothing _ hpath hok hr
    dsimp only
    rcases refreshNow_cases (.refused r token last) key now with
      ⟨path, seat, -, -, -, heq⟩ | ⟨hnot, heq⟩
    · rw [heq] at hset ⊢
      exact hset
    · cases hcurrent : s.current key with
      | none =>
        rw [heq] at hset ⊢
        cases hlast : last with
        | true =>
          rw [hlast] at hset
          exact hset
        | false =>
          rw [hlast] at hset
          exact hset
      | some state =>
        have hseat : key.seat.isSome = true := by
          obtain ⟨a, ha, -⟩ := Option.bind_eq_some_iff.mp hcurrent
          rw [ha]
          rfl
        have hfree : ¬ (Cause.refused r token last).stands state now = true := by
          intro hstands
          obtain ⟨hkind, hsource⟩ := hrenews state hcurrent hrefused hstands
          exact hnot ⟨hseat, hsource, hkind⟩
        have hjudge : s.judge (.refused r token last) state now false = s := if_neg hfree
        rw [heq] at hset ⊢
        cases hlast : last with
        | true =>
          rw [hlast] at hset hjudge
          dsimp only [returned]
          rw [if_pos rfl]
          dsimp only
          rw [hjudge]
          exact hset
        | false =>
          rw [hlast] at hset hjudge
          dsimp only [returned]
          rw [if_neg Bool.false_ne_true]
          dsimp only
          rw [hjudge]
          exact hset
  · rw [if_neg hrefused]
    cases again with
    | true =>
      refine hnothing _ rfl trivial ?_
      intro r' picked hcarry key' token' hsome
      cases hcarry
      cases hsome
    | false => exact hnothing _ rfl trivial (retryOk_of_none rfl)

/-! ## A new table -/

theorem isSubscription_of_build {kind : ProviderKind} {secret : Document} {state : SeatState}
    (h : buildCredential c kind secret = some state) : kind.isSubscription = true := by
  cases kind with
  | claudeSubscription | codexSubscription => rfl
  | openAi | anthropic | gemini | azure | bedrock | vertex | openAiCompat => cases h

/-- A seat that is read from a document has its refresh token, or none. -/
theorem build_codex {secret : Document} {state : SeatState}
    (h : buildCredential c .codexSubscription secret = some state) :
    Reads state.document state ∧
      (state.refreshToken = none ∨ state.refreshToken = secret.refreshToken) := by
  unfold buildCredential at h
  dsimp only at h
  cases hparse : parseCodexAuthJson c secret with
  | ok parsed =>
    rw [hparse] at h
    cases h
    obtain ⟨-, hrefresh, hdocument⟩ := parse_ok c hparse
    exact ⟨⟨rfl, hdocument ▸ hrefresh.symm⟩, Or.inr hrefresh⟩
  | error e =>
    rw [hparse] at h
    dsimp only at h
    unfold inlineToken at h
    split at h
    · cases h
    · cases h
      exact ⟨⟨rfl, rfl⟩, Or.inl rfl⟩

/-- The seats there were stay, and those of the new table come after them. -/
theorem fromConfig_seats (keys : List ApiKey) : ∀ seats : List SeatState,
    (∃ more, (fromConfig c seats keys).1 = seats ++ more) ∧
      ∀ key ∈ (fromConfig c seats keys).2, ∀ a, key.seat = some a → seats.length ≤ a ∧
        ∃ k ∈ keys, key.kind = k.kind ∧ key.sourcePath = k.sourcePath ∧
          ∃ state, buildCredential c k.kind k.secret = some state ∧
            (fromConfig c seats keys).1[a]? = some state := by
  induction keys with
  | nil =>
    intro seats
    refine ⟨⟨[], (List.append_nil seats).symm⟩, fun key hkey => ?_⟩
    cases hkey
  | cons k rest ih =>
    intro seats
    cases hbuild : buildCredential c k.kind k.secret with
    | none =>
      have heq : fromConfig c seats (k :: rest) =
          ((fromConfig c seats rest).1,
            ⟨k.provider, k.name, k.kind, k.sourcePath, none⟩ :: (fromConfig c seats rest).2) := by
        show (match buildCredential c k.kind k.secret with
          | some state => _
          | none => _) = _
        rw [hbuild]
      obtain ⟨hmore, hkeys⟩ := ih seats
      rw [heq]
      refine ⟨hmore, fun key hkey a ha => ?_⟩
      rcases List.mem_cons.mp hkey with rfl | hkey
      · cases ha
      · obtain ⟨hle, k', hk', hrest⟩ := hkeys key hkey a ha
        exact ⟨hle, k', List.mem_cons_of_mem _ hk', hrest⟩
    | some state =>
      have heq : fromConfig c seats (k :: rest) =
          ((fromConfig c (seats ++ [state]) rest).1,
            ⟨k.provider, k.name, k.kind, k.sourcePath, some seats.length⟩ ::
              (fromConfig c (seats ++ [state]) rest).2) := by
        show (match buildCredential c k.kind k.secret with
          | some state => _
          | none => _) = _
        rw [hbuild]
      obtain ⟨⟨more, hmore⟩, hkeys⟩ := ih (seats ++ [state])
      rw [heq]
      refine ⟨⟨[state] ++ more, by rw [hmore, List.append_assoc]⟩, fun key hkey a ha => ?_⟩
      rcases List.mem_cons.mp hkey with rfl | hkey
      · cases ha
        refine ⟨le_rfl, k, List.mem_cons_self, rfl, rfl, state, hbuild, ?_⟩
        dsimp only
        rw [hmore, List.append_assoc, List.getElem?_append_right le_rfl, Nat.sub_self]
        rfl
      · obtain ⟨hle, k', hk', hrest⟩ := hkeys key hkey a ha
        rw [List.length_append, List.length_singleton] at hle
        exact ⟨by omega, k', List.mem_cons_of_mem _ hk', hrest⟩

/-- Two keys of a new table have seats and, where the configuration names each
file once, files of their own. -/
theorem fromConfig_own (keys : List ApiKey) : ∀ seats : List SeatState,
    (∀ key ∈ (fromConfig c seats keys).2, ∀ key' ∈ (fromConfig c seats keys).2, ∀ a,
      key.seat = some a → key'.seat = some a → key = key') ∧
    (((keys.filter (·.kind.isSubscription)).filterMap (·.sourcePath)).Nodup →
      ∀ key ∈ (fromConfig c seats keys).2, ∀ key' ∈ (fromConfig c seats keys).2, ∀ path,
        key.sourcePath = some path → key'.sourcePath = some path → key.seat.isSome = true →
          key'.seat.isSome = true → key = key') := by
  induction keys with
  | nil =>
    intro seats
    refine ⟨fun key hkey => ?_, fun _ key hkey => ?_⟩
    · cases hkey
    · cases hkey
  | cons k rest ih =>
    intro seats
    cases hbuild : buildCredential c k.kind k.secret with
    | none =>
      have heq : (fromConfig c seats (k :: rest)).2 =
          ⟨k.provider, k.name, k.kind, k.sourcePath, none⟩ :: (fromConfig c seats rest).2 := by
        show (match buildCredential c k.kind k.secret with
          | some state => _
          | none => _ : List SeatState × Table).2 = _
        rw [hbuild]
      obtain ⟨hown, hfile⟩ := ih seats
      rw [heq]
      refine ⟨fun key hkey key' hkey' a ha ha' => ?_, fun hnodup key hkey key' hkey' path hp hp'
        hsome hsome' => ?_⟩
      · rcases List.mem_cons.mp hkey with rfl | hkey
        · cases ha
        · rcases List.mem_cons.mp hkey' with rfl | hkey'
          · cases ha'
          · exact hown key hkey key' hkey' a ha ha'
      · have hrest : ((rest.filter (·.kind.isSubscription)).filterMap (·.sourcePath)).Nodup :=
          hnodup.sublist (((List.sublist_cons_self k rest).filter _).filterMap _)
        rcases List.mem_cons.mp hkey with rfl | hkey
        · cases hsome
        · rcases List.mem_cons.mp hkey' with rfl | hkey'
          · cases hsome'
          · exact hfile hrest key hkey key' hkey' path hp hp' hsome hsome'
    | some state =>
      have heq : (fromConfig c seats (k :: rest)).2 =
          ⟨k.provider, k.name, k.kind, k.sourcePath, some seats.length⟩ ::
            (fromConfig c (seats ++ [state]) rest).2 := by
        show (match buildCredential c k.kind k.secret with
          | some state => _
          | none => _ : List SeatState × Table).2 = _
        rw [hbuild]
      obtain ⟨hown, hfile⟩ := ih (seats ++ [state])
      have hkeys := (fromConfig_seats c rest (seats ++ [state])).2
      have hlater : ∀ key ∈ (fromConfig c (seats ++ [state]) rest).2, key.seat ≠ some seats.length := by
        intro key hkey hseat
        have hle := (hkeys key hkey _ hseat).1
        rw [List.length_append, List.length_singleton] at hle
        omega
      rw [heq]
      refine ⟨fun key hkey key' hkey' a ha ha' => ?_, fun hnodup => ?_⟩
      · rcases List.mem_cons.mp hkey with rfl | hkey
        · rcases List.mem_cons.mp hkey' with rfl | hkey'
          · rfl
          · cases ha
            exact absurd ha' (hlater key' hkey')
        · rcases List.mem_cons.mp hkey' with rfl | hkey'
          · cases ha'
            exact absurd ha (hlater key hkey)
          · exact hown key hkey key' hkey' a ha ha'
      · rw [List.filter_cons, if_pos (isSubscription_of_build c hbuild)] at hnodup
        have hrest : ((rest.filter (·.kind.isSubscription)).filterMap (·.sourcePath)).Nodup :=
          hnodup.sublist ((List.sublist_cons_self ..).filterMap _)
        -- a file that is named again
        have hfresh : ∀ key ∈ (fromConfig c (seats ++ [state]) rest).2, ∀ path,
            k.sourcePath = some path → key.sourcePath = some path → key.seat.isSome = true →
              False := by
          intro key hkey path hp hp' hsome
          obtain ⟨a, ha⟩ := Option.isSome_iff_exists.mp hsome
          obtain ⟨-, k', hk', -, hpath', st, hst, -⟩ := hkeys key hkey a ha
          rw [List.filterMap_cons_some hp] at hnodup
          refine (List.nodup_cons.mp hnodup).1 (List.mem_filterMap.mpr ⟨k', ?_, hpath' ▸ hp'⟩)
          exact List.mem_filter.mpr ⟨hk', isSubscription_of_build c hst⟩
        intro key hkey key' hkey' path hp hp' hsome hsome'
        rcases List.mem_cons.mp hkey with rfl | hkey
        · rcases List.mem_cons.mp hkey' with rfl | hkey'
          · rfl
          · exact (hfresh key' hkey' path hp hp' hsome').elim
        · rcases List.mem_cons.mp hkey' with rfl | hkey'
          · exact (hfresh key hkey path hp' hp hsome).elim
          · exact hfile hrest key hkey key' hkey' path hp hp' hsome hsome'

/-- A configuration that was read with the refresh tokens in the files is put
in force while nobody works on one. -/
theorem inv_reload {s : State} (h : Inv s) {keys : List ApiKey}
    (hidle : ∀ t ∈ s.tasks, t.path = none)
    (hnodup : ((keys.filter (·.kind.isSubscription)).filterMap (·.sourcePath)).Nodup)
    (hread : ∀ k ∈ keys, k.kind = .codexSubscription → ∀ path, k.sourcePath = some path →
      s.fileToken path = k.secret.refreshToken) :
    Inv { s with
      seats := (fromConfig c s.seats keys).1
      table := (fromConfig c s.seats keys).2
      older := s.table :: s.older } := by
  obtain ⟨⟨more, hmore⟩, hkeys⟩ := fromConfig_seats c keys s.seats
  obtain ⟨hown, hfile⟩ := fromConfig_own c keys s.seats
  have hquiet : ∀ path, s.quiet path = true := by
    intro path
    refine quiet_iff.mpr fun i t ht hpath => ?_
    rw [hidle t (List.mem_of_getElem? ht)] at hpath
    cases hpath
  have hold : ∀ (a : Nat) (state : SeatState), s.seats[a]? = some state →
      (fromConfig c s.seats keys).1[a]? = some state := by
    intro a state hstate
    rw [hmore, List.getElem?_append_left (List.getElem?_eq_some_iff.mp hstate).1]
    exact hstate
  have hcodex : ∀ key ∈ (fromConfig c s.seats keys).2, key.kind = .codexSubscription →
      ∀ a state, key.seat = some a → (fromConfig c s.seats keys).1[a]? = some state →
        Reads state.document state ∧ ∀ path, key.sourcePath = some path →
          state.refreshToken = none ∨ state.refreshToken = s.latest path := by
    intro key hkey hkind a state ha hstate
    obtain ⟨-, k, hk, hkind', hpath, st, hst, hat⟩ := hkeys key hkey a ha
    have hsame := hat.symm.trans hstate
    cases hsame
    rw [← hkind', hkind] at hst
    obtain ⟨hreads, htoken⟩ := build_codex c hst
    refine ⟨hreads, fun path hp => ?_⟩
    rw [← h.quietFile path (hquiet path),
      hread k hk (hkind'.symm.trans hkind) path (hpath ▸ hp)]
    exact htoken
  refine ⟨fun key hkey a ha => ?_, hown, hfile hnodup,
    fun key hkey hkind a state ha hstate => (hcodex key hkey hkind a state ha hstate).1,
    fun i t ht => ⟨?_, ?_⟩, h.alone, h.quietFile, ?_, h.log⟩
  · obtain ⟨-, k, -, -, -, st, -, hat⟩ := hkeys key hkey a ha
    exact (List.getElem?_eq_some_iff.mp hat).1
  · have hnone := hidle t (List.mem_of_getElem? ht)
    have hok := (h.task i t ht).1
    cases t with
    | choosing | building | sent | signedIn | ended => trivial
    | waiting => exact hok
    | posted | writing | publishing => cases hnone
  · intro r picked hcarry key token hsome
    obtain ⟨hpicked, state, hstate, haccess⟩ := (h.task i t ht).2 r picked hcarry key token hsome
    obtain ⟨a, ha, hst⟩ := Option.bind_eq_some_iff.mp hstate
    refine ⟨hpicked, state, ?_, haccess⟩
    unfold State.current
    rw [ha]
    exact hold a state hst
  · intro key hkey hkind a path ha hp _ state hstate
    exact (hcodex key hkey hkind a state ha hstate).2 path hp

/-! ## Every run -/

theorem inv_step {s s' : State} {l : Label} (h : Inv s) (hok : Orderly c s l)
    (hnext : next c s l = some s') : Inv s' := by
  unfold Orderly orderly at hok
  unfold next at hnext
  cases l with
  | reload keys =>
    cases hnext
    rw [Bool.and_eq_true, Bool.and_eq_true] at hok
    obtain ⟨⟨hidle, hnodup⟩, hread⟩ := hok
    refine inv_reload c h (fun t ht => Option.isNone_iff_eq_none.mp (List.all_eq_true.mp hidle t ht))
      (of_decide_eq_true hnodup) fun k hk hkind path hpath => ?_
    have hall := List.all_eq_true.mp hread k hk
    rw [hpath, decide_eq_false (not_not.mpr hkind), Bool.false_or] at hall
    exact of_decide_eq_true hall
  | schedule key now =>
    dsimp only at hnext
    split at hnext
    · split at hnext
      · split at hnext
        · cases hnext
          have hnone : RetryOk s .ended := retryOk_of_none rfl
          obtain ⟨hpath, htask, hretry⟩ := @refreshNow_ok s .ended .scheduled key now rfl hnone
          exact h.addTask hpath htask hretry
        · cases hnext
          exact h
      · cases hnext
        exact h
    · cases hnext
  | request =>
    cases hnext
    refine @Inv.addTask s h (.choosing ⟨s.table, none⟩) rfl trivial ?_
    intro r picked hcarry key token hsome
    cases hcarry
    cases hsome
  | choose k key now =>
    dsimp only at hnext hok
    split at hnext
    · next r hk =>
      rw [hk] at hok
      split at hnext
      · have hretry : RetryOk s (.building r key) := by
          intro r' picked hcarry key' token hsome
          cases hcarry
          obtain ⟨-, hstate⟩ := (h.task k _ hk).2 r none rfl key' token hsome
          refine ⟨fun key'' hkey'' => ?_, hstate⟩
          cases hkey''
          dsimp only at hok
          rw [hsome] at hok
          exact (of_decide_eq_true hok).symm
        have hbuilding : Inv (s.setTask k (.building r key)) :=
          @Inv.setTask s h k _ (.building r key) hk rfl rfl trivial hretry s.log h.log
        split at hnext
        · split at hnext
          · cases hnext
            obtain ⟨hpath, htask, hretry'⟩ := @refreshNow_ok s _ (.lease r) key now rfl hretry
            exact h.setTask hk rfl hpath htask hretry' h.log
          · cases hnext
            exact hbuilding
        · cases hnext
          exact hbuilding
      · cases hnext
    · cases hnext
  | build k =>
    dsimp only at hnext
    split at hnext
    · next r key hk =>
      cases hnext
      exact inv_built h hk
    · cases hnext
  | reply k unauthorized again last now =>
    dsimp only at hnext hok
    split at hnext
    · next r key token hk =>
      cases hnext
      rw [hk] at hok
      refine inv_replied h hk fun state hstate hrefused hstands => ?_
      dsimp only at hok
      rw [hstate, Option.all_some, hrefused, hstands] at hok
      rw [Bool.and_self, Bool.not_true, Bool.false_or, Bool.and_eq_true] at hok
      exact ⟨of_decide_eq_true hok.1, hok.2⟩
    · cases hnext
  | enter k =>
    dsimp only at hnext hok
    split at hnext
    · next cause key path seat now hk =>
      rw [hk] at hok
      split at hnext
      · obtain ⟨state, hstate, rfl⟩ := Option.map_eq_some_iff.mp hnext
        dsimp only at hok
        rw [hstate, Option.all_some, Bool.and_eq_true] at hok
        obtain ⟨hforce, hstands⟩ := hok
        refine inv_entered h hk hstate (fun hwanted hsome => ?_) fun hstand => ?_
        · rw [hwanted, hsome, Bool.and_self, Bool.not_true, Bool.false_or, Bool.and_eq_true] at hforce
          exact ⟨of_decide_eq_true hforce.1, hforce.2⟩
        · rw [hstand, Bool.not_true, Bool.false_or] at hstands
          exact hstands
      · cases hnext
    · cases hnext
  | answer k a =>
    dsimp only at hnext hok
    split at hnext
    · next cause key path seat now state installs hk =>
      cases hnext
      rw [hk] at hok
      refine inv_answered c h hk fun hissued => ?_
      dsimp only at hok
      have hsome : a.issued.isNone = false := by
        obtain ⟨token, htoken⟩ := Option.isSome_iff_exists.mp hissued
        rw [htoken]
        rfl
      rw [hsome, Bool.false_or] at hok
      cases a with
      | arrived response => exact ⟨response, rfl, hok⟩
      | failed issued => cases hok
    · cases hnext
  | write k written =>
    dsimp only at hnext hok
    split at hnext
    · next o key path seat document renewed installs hk =>
      cases hnext
      rw [hk] at hok
      refine inv_wrote h hk fun cause hcause hwritten => ?_
      rw [hcause, hwritten] at hok
      exact of_decide_eq_true hok
    · cases hnext
  | publish k =>
    dsimp only at hnext hok
    split at hnext
    · next o key path seat renewed installs hk =>
      cases hnext
      rw [hk] at hok
      refine inv_published h hk fun t ht => ?_
      have hnone := List.all_eq_true.mp hok t ht
      rw [Bool.not_eq_true'] at hnone
      exact hnone
    · cases hnext
  | exchange provider name tokens =>
    cases hnext
    exact @Inv.addTask s h (.signedIn provider name tokens) rfl trivial (retryOk_of_none rfl)
  | install k now =>
    dsimp only at hnext hok
    split at hnext
    · next provider name tokens hk =>
      cases hnext
      rw [hk] at hok
      refine inv_installed c h hk (fun key path hfind hpath => ?_) now
      dsimp only at hok
      rw [hfind, Option.all_some, hpath, Option.all_some] at hok
      exact hok
    · cases hnext

theorem inv_start (files : String → Option Document) : Inv (start files) where
  fits := fun key hkey => by cases hkey
  own := fun key hkey => by cases hkey
  file := fun key hkey => by cases hkey
  reads := fun key hkey => by cases hkey
  task := fun i t ht => by cases ht
  alone := fun i j t t' path ht => by cases ht
  quietFile := fun _ _ => rfl
  quietSeat := fun key hkey => by cases hkey
  log := fun e he => by cases he

/-- On a 401 an unexpired token that is still the seat's is rotated exactly
when it would be renewed anyway. -/
theorem refused_posts_iff {s : State} {k : Nat} {r : Request} {token : Option String} {last : Bool}
    {key : KeyRuntime} {path : String} {seat now : Nat} {state : SeatState}
    (hk : s.tasks[k]? = some (.waiting (.refused r token last) key path seat now))
    (hgate : s.gateFree path = true) (hstate : s.seats[seat]? = some state)
    (hunexpired : state.isExpired now = false) :
    ∃ s', next c s (.enter k) = some s' ∧
      (s'.tasks[k]? = some (.posted (.refused r token last) key path seat now state
          (s.installs path)) ↔ state.wantsRefresh now refreshSkewMs = true) := by
  have hwanted : wanted state now = state.wantsRefresh now refreshSkewMs := by
    unfold wanted
    rw [hunexpired, Bool.or_false]
  have hnext : next c s (.enter k) =
      some (entered s k (.refused r token last) key path seat now state) := by
    unfold next
    dsimp only
    rw [hk]
    dsimp only
    rw [if_pos hgate, hstate]
    rfl
  have hlt : k < s.tasks.length := (List.getElem?_eq_some_iff.mp hk).1
  have hjudged : ∀ attempted,
      (s.judge (.refused r token last) state now attempted).tasks = s.tasks := by
    intro attempted
    unfold State.judge
    split <;> rfl
  refine ⟨_, hnext, ?_⟩
  unfold entered
  rw [hwanted]
  by_cases hwants : state.wantsRefresh now refreshSkewMs = true
  · rw [if_pos hwants]
    obtain ⟨token', htoken⟩ := Option.isSome_iff_exists.mp (wanted_of_wantsRefresh hwants).2
    rw [htoken]
    refine iff_of_true ?_ hwants
    show (List.set _ k _)[k]? = _
    exact List.getElem?_set_self ((hjudged true).symm ▸ hlt)
  · rw [if_neg hwants]
    refine iff_of_false ?_ hwants
    show ¬ (List.set _ k _)[k]? = _
    rw [List.getElem?_set_self ((hjudged false).symm ▸ hlt)]
    intro heq
    have hpath := congrArg Task.path (Option.some.inj heq)
    rw [path_returned] at hpath
    cases hpath

/-- **Rotations.** In every orderly run a rotation posts the refresh token
issued last for its credential and undoes no install, an unexpired token that
is refused is rotated, and the request is sent again with the new one. In any
state, such a token is rotated exactly when it is about to expire. -/
theorem rotation_law :
    (∀ s, Reach (refreshing c) (Orderly c) s → ∀ e ∈ s.log, e.ok = true) ∧
      ∀ (s : State) (k : Nat) (r : Request) (token : Option String) (last : Bool)
        (key : KeyRuntime) (path : String) (seat now : Nat) (state : SeatState),
        s.tasks[k]? = some (.waiting (.refused r token last) key path seat now) →
          s.gateFree path = true → s.seats[seat]? = some state →
            token = some state.accessToken → state.isExpired now = false →
              ∃ s', next c s (.enter k) = some s' ∧
                (s'.tasks[k]? = some (.posted (.refused r token last) key path seat now state
                    (s.installs path)) ↔ state.wantsRefresh now refreshSkewMs = true) := by
  refine ⟨fun s hreach => ?_, fun s k r token last key path seat now state hk hgate hstate _ hun =>
    refused_posts_iff c hk hgate hstate hun⟩
  have hinv : Inv s := by
    refine hreach.invariant ?_ ?_
    · rintro s ⟨files, rfl⟩
      exact inv_start files
    · intro s l s' hs hok hnext
      exact inv_step c hs hok hnext
  exact hinv.log

end

instance (c : Claims) (s : State) (l : Label) : Decidable (Orderly c s l) :=
  inferInstanceAs (Decidable (_ = true))

/-! ## Five runs -/

/-- One token runs out, another one does not. -/
def someClaims : Claims where
  expiryMs token := if token = "a0" then some 200000 else none
  accountId _ := none
  email _ := none
  stamp _ := "now"
  print _ := "document"

def tokens (access refresh : String) : Value :=
  .ofMembers [("access_token", .string access), ("refresh_token", .string refresh)]

def firstDocument : Document :=
  ⟨"document", some (.ofMembers [("access_token", .string "a0"), ("account_id", .string "acct"),
    ("refresh_token", .string "r0")])⟩

def oneFile : String → Option Document := fun path =>
  if path = "auth.json" then some firstDocument else none

/-- A key of that file. -/
def seatKey (name : String) : ApiKey :=
  ⟨"codex", name, .codexSubscription, some "auth.json", firstDocument⟩

def keyAt (name : String) (seat : Nat) : KeyRuntime :=
  ⟨"codex", name, .codexSubscription, some "auth.json", some seat⟩

/-- A request is refused when its token is about to expire, and sent again. -/
def sentAgain : List Label :=
  [.reload [seatKey "one"], .request, .choose 0 (keyAt "one" 0) 0, .build 0,
    .reply 0 true false false 100000, .enter 0, .answer 0 (.arrived (tokens "a1" "r1")),
    .write 0 true, .publish 0, .choose 0 (keyAt "one" 0) 100000, .build 0]

/-- Until it waits at the gate. -/
def refusedFirst : List Label := sentAgain.take 5

theorem rotation_law_sentAgain :
    (∃ s : State,
      s.log = [.retried "a1" (some "a1"), .stored "auth.json" 0 0, .stored "auth.json" 0 0,
        .posted "auth.json" "r0" (some "r0"), .refused true] ∧ ∀ e ∈ s.log, e.ok = true) ∧
    ∃ (s s' : State) (state : SeatState), next someClaims s (.enter 0) = some s' ∧
      state.wantsRefresh 100000 refreshSkewMs = true ∧
      (s'.tasks[0]? = some (.posted (.refused ⟨[keyAt "one" 0], none⟩ (some "a0") false)
          (keyAt "one" 0) "auth.json" 0 100000 state (s.installs "auth.json")) ↔
        state.wantsRefresh 100000 refreshSkewMs = true) := by
  refine ⟨?_, ?_⟩
  · have hstart : (refreshing someClaims).init (start oneFile) := ⟨oneFile, rfl⟩
    have hreach := Reach.of_trace (Orderly someClaims) (next someClaims) hstart sentAgain (by decide)
      (by decide)
    exact ⟨_, by decide, (rotation_law someClaims).1 _ hreach⟩
  · obtain ⟨s', hnext, hiff⟩ := (rotation_law someClaims).2
      ((run (next someClaims) (start oneFile) refusedFirst).get (by decide)) 0
      ⟨[keyAt "one" 0], none⟩ (some "a0") false (keyAt "one" 0) "auth.json" 0 100000 _ rfl (by decide)
      rfl rfl (by decide)
    exact ⟨_, s', _, hnext, by decide, hiff⟩

/-- A run in which this happens. -/
def Happens (trace : List Label) (e : Event) : Prop :=
  ∃ s, Reach (refreshing someClaims) free s ∧
    run (next someClaims) (start oneFile) trace = some s ∧ e ∈ s.log ∧ e.ok = false

/-- The provider revokes a token that has long to go. -/
def revoked : List Label :=
  [.reload [seatKey "one"], .request, .choose 0 (keyAt "one" 0) 0, .build 0,
    .reply 0 true false false 1000, .enter 0]

/-- Two keys have one file. -/
def shared : List Label :=
  [.reload [seatKey "one", seatKey "two"], .schedule (keyAt "one" 0) 100000, .enter 0,
    .answer 0 (.arrived (tokens "a1" "r1")), .write 0 true, .publish 0,
    .schedule (keyAt "two" 1) 100000, .enter 1]

/-- A login is installed while a rotation is on its way. -/
def signedInMeanwhile : List Label :=
  [.reload [seatKey "one"], .schedule (keyAt "one" 0) 100000, .enter 0,
    .exchange "codex" "one" (tokens "a5" "r5"), .install 1 100000, .write 1 true, .publish 1,
    .answer 0 (.arrived (tokens "a1" "r1")), .write 0 true]

/-- A configuration is read before a rotation and put in force after it. -/
def readBefore : List Label :=
  [.reload [seatKey "one"], .schedule (keyAt "one" 0) 100000, .enter 0,
    .answer 0 (.arrived (tokens "a1" "r1")), .write 0 true, .publish 0,
    .reload [seatKey "one"], .schedule (keyAt "one" 1) 100000, .enter 1]

theorem happens_of_run {trace : List Label} {e : Event}
    (h : (run (next someClaims) (start oneFile) trace).any fun s => e ∈ s.log && !e.ok) :
    Happens trace e := by
  cases hrun : run (next someClaims) (start oneFile) trace with
  | none =>
    rw [hrun] at h
    cases h
  | some s =>
    rw [hrun, Option.any_some, Bool.and_eq_true, Bool.not_eq_true'] at h
    exact ⟨s, Reach.of_run trace (.start ⟨oneFile, rfl⟩) (admitted_free _ trace _) hrun,
      hrun,
      of_decide_eq_true h.1, h.2⟩

/-- A refused token is not rotated, a consumed one is posted by the other seat
of its file and by the seat of the next table, and an install is undone. -/
theorem out_of_order :
    Happens revoked (.refused false) ∧
      Happens shared (.posted "auth.json" "r0" (some "r1")) ∧
      Happens signedInMeanwhile (.stored "auth.json" 0 1) ∧
      Happens readBefore (.posted "auth.json" "r0" (some "r1")) :=
  ⟨happens_of_run (by decide), happens_of_run (by decide), happens_of_run (by decide),
    happens_of_run (by decide)⟩

end RapidRouter.Server.Refresh
