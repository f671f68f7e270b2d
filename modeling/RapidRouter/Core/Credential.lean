import RapidRouter.Core.Router
import RapidRouter.Core.Text
import RapidRouter.Lib.Json.Build

/-!
# Credentials that renew themselves

`router-core/src/credential.rs`: the document of a subscription seat, the
credential that is read from it, and the merge of an OAuth response into it.
A token may stand under `tokens` or at the top level. `merge_refresh` writes
both, so what is read back from a merged document is what the response
issued, and what the response leaves out is what it was before
(`parse_merge`).

A `Document` is a text with the JSON value a reader makes of it; printing a
value makes a document that reads as that value. What a token says about
itself (its expiry, the account and the address it was issued to) is the
parameter `Claims`.
-/

namespace RapidRouter.Core.Credential

open Json

structure Document where
  text : String
  value : Option Value

/-- `jwt_expiry_ms`, `chatgpt_account_id` and `jwt_email`, the stamp of a
refresh and the printer of a document. -/
structure Claims where
  expiryMs : String → Option Nat
  accountId : String → Option String
  email : String → Option String
  stamp : Nat → String
  print : Value → String

structure SeatState where
  accessToken : String
  refreshToken : Option String
  accountId : Option String
  email : Option String
  expiresAtMs : Option Nat
  document : Document

/-- `saturating_add` of `u64`. -/
def saturatingAdd (a b : Nat) : Nat := min (a + b) (2 ^ 64 - 1)

namespace SeatState

/-- An unknown expiry is not expired. -/
def isExpired (s : SeatState) (now : Nat) : Bool := s.expiresAtMs.any fun exp => exp ≤ now

def wantsRefresh (s : SeatState) (now skew : Nat) : Bool :=
  s.refreshToken.isSome && s.expiresAtMs.any fun exp => exp ≤ saturatingAdd now skew

end SeatState

inductive CredentialError where
  | notJson
  | noAccessToken
  | noAccountId
  deriving DecidableEq

/-- A member that is a string and not an empty one. -/
def nonEmpty (v : Value) (name : String) : Option String :=
  ((v.get? name).bind Value.asStr).filter (· ≠ "")

/-- A field of a Codex document: the nested one shadows the other. -/
def field (doc : Value) (name : String) : Option String :=
  ((((doc.get? "tokens").getD .null).get? name).or (doc.get? name)).bind Value.asStr
    |>.filter (· ≠ "")

section
variable (c : Claims)

def parseCodexAuthJson (document : Document) : Except CredentialError SeatState :=
  match document.value with
  | none => .error .notJson
  | some doc =>
    match field doc "access_token" with
    | none => .error .noAccessToken
    | some accessToken =>
      let idToken := field doc "id_token"
      match (field doc "account_id").or (idToken.bind c.accountId) with
      | none => .error .noAccountId
      | some accountId =>
        .ok
          { accessToken := accessToken
            refreshToken := field doc "refresh_token"
            accountId := some accountId
            email := idToken.bind c.email
            expiresAtMs := c.expiryMs accessToken
            document := document }

def parseClaudeOauthJson (document : Document) : Except CredentialError SeatState :=
  match document.value with
  | none => .error .notJson
  | some doc =>
    let oauth := (doc.get? "claudeAiOauth").getD doc
    match (nonEmpty oauth "accessToken").or (nonEmpty oauth "access_token") with
    | none => .error .noAccessToken
    | some accessToken =>
      .ok
        { accessToken := accessToken
          refreshToken := (nonEmpty oauth "refreshToken").or (nonEmpty oauth "refresh_token")
          accountId := none
          email := none
          expiresAtMs := ((oauth.get? "expiresAt").or (oauth.get? "expires_at")).bind Value.asU64
          document := document }

/-- The empty document reads as nothing. -/
def noDocument : Document := ⟨"", none⟩

def inlineToken (token : String) : Except CredentialError SeatState :=
  if token = "" then .error .noAccessToken
  else
    .ok
      { accessToken := token
        refreshToken := none
        accountId := none
        email := none
        expiresAtMs := c.expiryMs token
        document := noDocument }

/-- `build_credential`: none is a static credential. -/
def buildCredential (kind : ProviderKind) (secret : Document) : Option SeatState :=
  let parsed : Option (Except CredentialError SeatState) :=
    match kind with
    | .codexSubscription => some (parseCodexAuthJson c secret)
    | .claudeSubscription => some (parseClaudeOauthJson secret)
    | _ => none
  match parsed with
  | none => none
  | some (.ok state) => some state
  | some (.error _) => (inlineToken c secret.text).toOption

/-! ## Merging a response -/

/-- `insert` of an object; there is nothing to insert into otherwise. -/
def setMember (v : Value) (name : String) (x : Value) : Value :=
  match v with
  | .object members => .object (Entries.insert name x members)
  | v => v

def setMembers (v : Value) (fields : List (String × String)) : Value :=
  fields.foldl (fun v f => setMember v f.1 (.string f.2)) v

/-- The tokens of a response. -/
def renewed (response : Value) : List (String × String) :=
  ["access_token", "refresh_token", "id_token"].filterMap fun name =>
    (nonEmpty response name).map (name, ·)

/-- The same members set under `tokens`, where there is such an object. -/
def setNested (root : Value) (fields : List (String × String)) : Value :=
  match root.get? "tokens" with
  | some (.object members) => setMember root "tokens" (setMembers (.object members) fields)
  | _ => root

/-- Members set in both positions. -/
def setBoth (root : Value) (fields : List (String × String)) : Value :=
  setMembers (setNested root fields) fields

/-- What a response is merged into. -/
def rootOf (document : Document) : Except CredentialError Value :=
  match document.value with
  | none => if Text.trim document.text = "" then .ok (.object []) else .error .notJson
  | some (.object members) => .ok (.object members)
  | some _ => .error .notJson

/-- The account the merged document is of. -/
def mergedAccount (root response : Value) : Option String :=
  ((nonEmpty response "id_token").bind c.accountId).or
    (((((root.get? "tokens").bind fun t => t.get? "account_id").or
      (root.get? "account_id")).bind Value.asStr))

def mergeRefresh (document : Document) (response : Value) (now : Nat) :
    Except CredentialError Document :=
  if (nonEmpty response "access_token").isNone then .error .noAccessToken
  else do
    let root ← rootOf document
    let account := ((mergedAccount c root response).map fun id => ("account_id", id)).toList
    let merged := setMember (setBoth (setBoth root (renewed response)) account) "last_refresh"
      (.string (c.stamp now))
    return ⟨c.print merged, some merged⟩

/-! ## What a merged document reads as -/

/-- The member set last under a name. -/
def lastSet (fields : List (String × String)) (name : String) : Option String :=
  (fields.reverse.find? (·.1 = name)).map (·.2)

theorem isObject_setMember {v : Value} (h : v.isObject = true) (name : String) (x : Value) :
    (setMember v name x).isObject = true := by
  cases v with
  | object members => rfl
  | null | bool | number | string | array => cases h

theorem get?_setMember {v : Value} (h : v.isObject = true) (name : String) (x : Value)
    (k : String) : (setMember v name x).get? k = if k = name then some x else v.get? k := by
  cases v with
  | object members => exact Entries.find?_insert name k x members
  | null | bool | number | string | array => cases h

theorem lastSet_cons (f : String × String) (rest : List (String × String)) (k : String) :
    lastSet (f :: rest) k = (lastSet rest k).or (if f.1 = k then some f.2 else none) := by
  unfold lastSet
  rw [List.reverse_cons, List.find?_append]
  cases rest.reverse.find? (fun f => decide (f.1 = k)) with
  | some g => rfl
  | none =>
    by_cases hk : f.1 = k
    · simp only [Option.none_or, List.find?_cons, hk, decide_true, Option.map_some, Option.map_none,
        if_true]
    · simp only [Option.none_or, List.find?_cons, hk, decide_false, List.find?_nil, Option.map_none,
        if_false]

theorem get?_setMembers {v : Value} (h : v.isObject = true) (fields : List (String × String))
    (k : String) :
    (setMembers v fields).get? k = ((lastSet fields k).map Value.string).or (v.get? k) := by
  induction fields generalizing v with
  | nil => rfl
  | cons f rest ih =>
    show (setMembers (setMember v f.1 (.string f.2)) rest).get? k = _
    rw [ih (isObject_setMember h ..), get?_setMember h, lastSet_cons]
    cases lastSet rest k with
    | some x => rfl
    | none =>
      by_cases hk : k = f.1
      · rw [if_pos hk, if_pos hk.symm]
        rfl
      · rw [if_neg hk, if_neg (Ne.symm hk)]
        rfl

theorem isObject_setMembers {v : Value} (h : v.isObject = true) (fields : List (String × String)) :
    (setMembers v fields).isObject = true := by
  induction fields generalizing v with
  | nil => exact h
  | cons f rest ih => exact ih (isObject_setMember h ..)

theorem isObject_setNested {root : Value} (h : root.isObject = true)
    (fields : List (String × String)) : (setNested root fields).isObject = true := by
  unfold setNested
  split
  · exact isObject_setMember h ..
  · exact h

theorem isObject_setBoth {root : Value} (h : root.isObject = true)
    (fields : List (String × String)) : (setBoth root fields).isObject = true :=
  isObject_setMembers (isObject_setNested h fields) fields

/-- The members under `tokens`, nested or not: what is set there shadows what
was. -/
theorem nested_setNested {root : Value} (h : root.isObject = true)
    (fields : List (String × String)) (k : String) :
    (((setNested root fields).get? "tokens").getD .null).get? k =
      match root.get? "tokens" with
      | some (.object members) =>
        ((lastSet fields k).map Value.string).or ((Value.object members).get? k)
      | _ => none := by
  unfold setNested
  cases htokens : root.get? "tokens" with
  | none =>
    dsimp only
    rw [htokens]
    rfl
  | some tokens =>
    cases tokens with
    | object members =>
      dsimp only
      rw [get?_setMember h, if_pos rfl]
      exact get?_setMembers rfl fields k
    | null | bool | number | string | array =>
      dsimp only
      rw [htokens]
      rfl

theorem get?_setNested {root : Value} (h : root.isObject = true) (fields : List (String × String))
    {k : String} (hk : k ≠ "tokens") : (setNested root fields).get? k = root.get? k := by
  unfold setNested
  split
  · rw [get?_setMember h, if_neg hk]
  · rfl

/-- A field that is set in both positions reads as it was set, and any other
as it was. -/
theorem field_setBoth {root : Value} (h : root.isObject = true) {fields : List (String × String)}
    (htokens : lastSet fields "tokens" = none) {k : String} (hk : k ≠ "tokens") :
    field (setBoth root fields) k =
      match lastSet fields k with
      | some x => (some x).filter (· ≠ "")
      | none => field root k := by
  have hnested : (((setBoth root fields).get? "tokens").getD .null).get? k =
      (((setNested root fields).get? "tokens").getD .null).get? k := by
    unfold setBoth
    rw [get?_setMembers (isObject_setNested h fields), htokens]
    rfl
  have htop : (setBoth root fields).get? k = ((lastSet fields k).map Value.string).or (root.get? k) := by
    unfold setBoth
    rw [get?_setMembers (isObject_setNested h fields), get?_setNested h fields hk]
  unfold field
  rw [hnested, htop, nested_setNested h]
  cases hlast : lastSet fields k with
  | some x =>
    cases root.get? "tokens" with
    | none => rfl
    | some tokens =>
      cases tokens with
      | object members => rfl
      | null | bool | number | string | array => rfl
  | none =>
    cases root.get? "tokens" with
    | none => rfl
    | some tokens =>
      cases tokens with
      | object members => rfl
      | null | bool | number | string | array => rfl

theorem nonEmpty_ne {v : Value} {name x : String} (h : nonEmpty v name = some x) : x ≠ "" := by
  unfold nonEmpty at h
  rw [Option.filter_eq_some_iff] at h
  exact of_decide_eq_true h.2

theorem lastSet_filterMap (g : String → Option String) (k : String) : ∀ {names : List String},
    names.Nodup →
    lastSet (names.filterMap fun name => (g name).map (name, ·)) k =
      if k ∈ names then g k else none := by
  intro names
  induction names with
  | nil => exact fun _ => rfl
  | cons name rest ih =>
    intro hnodup
    obtain ⟨hfresh, hrest⟩ := List.nodup_cons.mp hnodup
    have hih := ih hrest
    by_cases hk : k = name
    · subst hk
      rw [if_neg hfresh] at hih
      rw [if_pos List.mem_cons_self]
      cases hg : g k with
      | none =>
        rw [List.filterMap_cons_none (by rw [hg]; rfl)]
        exact hih
      | some x =>
        rw [List.filterMap_cons_some (b := (k, x)) (by rw [hg]; rfl), lastSet_cons, hih, if_pos rfl]
        rfl
    · have hmem : k ∈ name :: rest ↔ k ∈ rest := by
        rw [List.mem_cons]
        exact or_iff_right hk
      simp only [hmem]
      cases hg : g name with
      | none =>
        rw [List.filterMap_cons_none (by rw [hg]; rfl)]
        exact hih
      | some x =>
        rw [List.filterMap_cons_some (b := (name, x)) (by rw [hg]; rfl), lastSet_cons, hih,
          if_neg (Ne.symm hk), Option.or_none]

/-- The tokens of a response are what it says, and nothing else is renewed. -/
theorem lastSet_renewed (response : Value) (name : String) :
    lastSet (renewed response) name =
      if name ∈ ["access_token", "refresh_token", "id_token"] then nonEmpty response name
      else none :=
  lastSet_filterMap (nonEmpty response) name (by decide)

/-- What a document says its refresh token is. -/
def Document.refreshToken (d : Document) : Option String := d.value.bind (field · "refresh_token")

theorem parse_ok {document : Document} {state : SeatState}
    (h : parseCodexAuthJson c document = .ok state) :
    document.value.bind (field · "access_token") = some state.accessToken ∧
      state.refreshToken = document.refreshToken ∧ state.document = document := by
  unfold parseCodexAuthJson at h
  split at h
  · cases h
  · next doc hdoc =>
    split at h
    · cases h
    · next accessToken haccess =>
      dsimp only at h
      split at h
      · cases h
      · cases h
        unfold Document.refreshToken
        rw [hdoc]
        exact ⟨haccess, rfl, rfl⟩

theorem rootOf_ok {document : Document} {root : Value} (h : rootOf document = .ok root) :
    root.isObject = true ∧ field root "refresh_token" = document.refreshToken := by
  unfold rootOf at h
  unfold Document.refreshToken
  split at h
  · next hnone =>
    split at h
    · cases h
      rw [hnone]
      exact ⟨rfl, rfl⟩
    · cases h
  · next members hsome =>
    cases h
    rw [hsome]
    exact ⟨rfl, rfl⟩
  · cases h

/-- A root with a response merged into it. -/
def mergedRoot (root response : Value) (now : Nat) : Value :=
  setMember (setBoth (setBoth root (renewed response))
      ((mergedAccount c root response).map fun id => ("account_id", id)).toList)
    "last_refresh" (.string (c.stamp now))

theorem mergeRefresh_ok {document : Document} {root response : Value} {access : String} (now : Nat)
    (hroot : rootOf document = .ok root) (haccess : nonEmpty response "access_token" = some access) :
    mergeRefresh c document response now =
      .ok ⟨c.print (mergedRoot c root response now), some (mergedRoot c root response now)⟩ := by
  unfold mergeRefresh
  rw [haccess, hroot]
  rfl

/-- The account is the only member that is set with the stamp. -/
theorem lastSet_account (root response : Value) (name : String) :
    lastSet ((mergedAccount c root response).map fun id => ("account_id", id)).toList name =
      if name = "account_id" then mergedAccount c root response else none := by
  cases mergedAccount c root response with
  | none => exact (ite_self _).symm
  | some id =>
    show lastSet [("account_id", id)] name = _
    rw [lastSet_cons]
    by_cases hname : name = "account_id"
    · rw [if_pos hname.symm, if_pos hname]
      rfl
    · rw [if_neg (Ne.symm hname), if_neg hname]
      rfl

/-- The stamp is none of the other fields. -/
theorem field_stamped {root response : Value} (hobject : root.isObject = true) (now : Nat)
    {name : String} (hname : name ≠ "last_refresh") :
    field (mergedRoot c root response now) name =
      field (setBoth (setBoth root (renewed response))
        ((mergedAccount c root response).map fun id => ("account_id", id)).toList) name := by
  have hobject' := isObject_setBoth (isObject_setBoth hobject (renewed response))
    ((mergedAccount c root response).map fun id => ("account_id", id)).toList
  unfold mergedRoot field
  rw [get?_setMember hobject', get?_setMember hobject', if_neg (by decide), if_neg hname]

/-- A token of a merged document is the response's, or what it was. -/
theorem field_merged {root response : Value} (hobject : root.isObject = true) (now : Nat)
    {name : String} (hname : name ∈ ["access_token", "refresh_token", "id_token"]) :
    field (mergedRoot c root response now) name =
      (nonEmpty response name).or (field root name) := by
  have hne : name ≠ "tokens" ∧ name ≠ "account_id" ∧ name ≠ "last_refresh" := by
    simp only [List.mem_cons, List.not_mem_nil, or_false] at hname
    rcases hname with rfl | rfl | rfl
    · decide
    · decide
    · decide
  rw [field_stamped c hobject now hne.2.2, field_setBoth (isObject_setBoth hobject _)
    (by rw [lastSet_account, if_neg (by decide)]) hne.1, lastSet_account, if_neg hne.2.1]
  dsimp only
  rw [field_setBoth hobject (by rw [lastSet_renewed]; rfl) hne.1, lastSet_renewed, if_pos hname]
  cases htoken : nonEmpty response name with
  | none => rfl
  | some x => exact Option.filter_some_pos (decide_eq_true (nonEmpty_ne htoken))

/-- **What is read back.** A merged document that reads as a credential has
the tokens of the response, and the refresh token it had where the response
has none. -/
theorem parse_merge {document merged : Document} {response : Value} {now : Nat} {state : SeatState}
    (hmerge : mergeRefresh c document response now = .ok merged)
    (hparse : parseCodexAuthJson c merged = .ok state) :
    nonEmpty response "access_token" = some state.accessToken ∧
      state.refreshToken = (nonEmpty response "refresh_token").or document.refreshToken ∧
      state.refreshToken = merged.refreshToken ∧ state.document = merged := by
  obtain ⟨hread, hrefresh, hdocument⟩ := parse_ok c hparse
  cases haccess : nonEmpty response "access_token" with
  | none =>
    unfold mergeRefresh at hmerge
    rw [haccess] at hmerge
    cases hmerge
  | some access =>
    cases hroot : rootOf document with
    | error e =>
      unfold mergeRefresh at hmerge
      rw [haccess, hroot] at hmerge
      cases hmerge
    | ok root =>
      obtain ⟨hobject, hold⟩ := rootOf_ok hroot
      rw [mergeRefresh_ok c now hroot haccess] at hmerge
      cases hmerge
      refine ⟨?_, ?_, hrefresh, hdocument⟩
      · have hboth := (field_merged c hobject now (by decide)).symm.trans hread
        rw [haccess] at hboth
        exact hboth
      · rw [hrefresh, ← hold]
        exact field_merged c hobject now (by decide)

end

end RapidRouter.Core.Credential
