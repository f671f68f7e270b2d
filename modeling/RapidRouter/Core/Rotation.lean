import RapidRouter.Core.Credential

/-!
# Rotating a credential

A Codex credential is of an account, named in its document or by its id token.
`merge_refresh` carries a named account forward; one that only the id token named
is gone when the response brings an id token that does not name it, and the
merged document is no credential any more. `rotation_iff` says that this is the
only way in which a rotation goes wrong.
-/

namespace RapidRouter.Core.Credential

open Json

/-! ## What an id token says -/

/-- The value of a digit of unpadded base64url. -/
def sextet (c : Char) : Option Nat :=
  if 'A' ≤ c ∧ c ≤ 'Z' then some (c.toNat - 65)
  else if 'a' ≤ c ∧ c ≤ 'z' then some (c.toNat - 71)
  else if '0' ≤ c ∧ c ≤ '9' then some (c.toNat + 4)
  else if c = '-' then some 62
  else if c = '_' then some 63
  else none

/-- The bytes of sextets; bits that are left over have to be zero. -/
def sextetBytes : List Nat → Option Bytes
  | [] => some []
  | [_] => none
  | [a, b] => if b % 16 = 0 then some [UInt8.ofNat (a * 4 + b / 16)] else none
  | [a, b, c] =>
    if c % 4 = 0 then some [UInt8.ofNat (a * 4 + b / 16), UInt8.ofNat (b % 16 * 16 + c / 4)]
    else none
  | a :: b :: c :: d :: rest =>
    (sextetBytes rest).map ([UInt8.ofNat (a * 4 + b / 16), UInt8.ofNat (b % 16 * 16 + c / 4),
      UInt8.ofNat (c % 4 * 64 + d)] ++ ·)

/-- `base64url_decode`. -/
def base64urlDecode (input : String) : Option Bytes :=
  (input.toList.mapM sextet).bind sextetBytes

/-- The claims of a JWT. -/
def jwtClaims (token : String) : Option Value :=
  ((Text.split '.' token)[1]?).bind fun payload => (base64urlDecode payload).bind fromSlice

def chatgptAccountId (idToken : String) : Option String :=
  (jwtClaims idToken).bind fun claims =>
    ((((claims.get? "https://api.openai.com/auth").bind (·.get? "chatgpt_account_id")).or
      (claims.get? "chatgpt_account_id")).bind Value.asStr).filter (· ≠ "")

def jwtEmail (idToken : String) : Option String :=
  (jwtClaims idToken).bind fun claims =>
    (((claims.get? "email").or
      ((claims.get? "https://api.openai.com/profile").bind (·.get? "email"))).bind
        Value.asStr).filter (· ≠ "")

/-! ## The members of a merged document -/

/-- What a rotation writes into a document. -/
def renewedNames : List String :=
  ["access_token", "refresh_token", "id_token", "account_id", "last_refresh"]

/-- No other member is changed, nor any under `tokens`. -/
structure Unchanged (doc merged : Value) : Prop where
  top : ∀ k ∉ "tokens" :: renewedNames, merged.get? k = doc.get? k
  nested : ∀ k ∉ renewedNames,
    ((merged.get? "tokens").bind (·.get? k)) = ((doc.get? "tokens").bind (·.get? k))
  object : ∀ v, doc.get? "tokens" = some v → v.isObject = true →
    ∃ v', merged.get? "tokens" = some v' ∧ v'.isObject = true
  foreign : ∀ v, doc.get? "tokens" = some v → v.isObject = false → merged.get? "tokens" = some v
  missing : doc.get? "tokens" = none → merged.get? "tokens" = none

section
variable (c : Claims)

theorem lastSet_renewed_other {response : Value} {k : String} (hk : k ∉ renewedNames) :
    lastSet (renewed response) k = none := by
  rw [lastSet_renewed, if_neg]
  intro hmem
  exact hk (List.mem_append_left ["account_id", "last_refresh"] hmem)

theorem lastSet_account_other {root response : Value} {k : String} (hk : k ∉ renewedNames) :
    lastSet ((mergedAccount c root response).map fun id => ("account_id", id)).toList k = none := by
  rw [lastSet_account, if_neg]
  rintro rfl
  exact hk (by decide)

theorem get?_setBoth {root : Value} (h : root.isObject = true) {fields : List (String × String)}
    {k : String} (hk : lastSet fields k = none) (htokens : k ≠ "tokens") :
    (setBoth root fields).get? k = root.get? k := by
  unfold setBoth
  rw [get?_setMembers (isObject_setNested h fields), hk, get?_setNested h fields htokens]
  rfl

/-- What is under `tokens`, the member itself never being one of the fields. -/
theorem tokens_setBoth {root : Value} (h : root.isObject = true) {fields : List (String × String)}
    (htokens : lastSet fields "tokens" = none) :
    (setBoth root fields).get? "tokens" =
      match root.get? "tokens" with
      | some (.object members) => some (setMembers (.object members) fields)
      | v => v := by
  unfold setBoth
  rw [get?_setMembers (isObject_setNested h fields), htokens]
  show (setNested root fields).get? "tokens" = _
  unfold setNested
  cases hroot : root.get? "tokens" with
  | none => exact hroot
  | some v =>
    cases v with
    | object members =>
      dsimp only
      rw [get?_setMember h, if_pos rfl]
    | null | bool | number | string | array => exact hroot

theorem unchanged_setBoth {root : Value} (h : root.isObject = true)
    {fields : List (String × String)} (hfields : ∀ k ∉ renewedNames, lastSet fields k = none) :
    Unchanged root (setBoth root fields) := by
  have htokens := tokens_setBoth h (hfields "tokens" (by decide))
  refine ⟨fun k hk => ?_, fun k hk => ?_, fun v hv hobject => ?_, fun v hv hobject => ?_,
    fun hnone => ?_⟩
  · obtain ⟨hne, hk⟩ := not_or.mp fun hor => hk (List.mem_cons.mpr hor)
    exact get?_setBoth h (hfields k hk) hne
  · rw [htokens]
    cases root.get? "tokens" with
    | none => rfl
    | some v =>
      cases v with
      | object members =>
        show (setMembers (.object members) fields).get? k = (Value.object members).get? k
        rw [get?_setMembers rfl, hfields k hk]
        rfl
      | null | bool | number | string | array => rfl
  · rw [htokens, hv]
    cases v with
    | object members => exact ⟨_, rfl, isObject_setMembers rfl fields⟩
    | null | bool | number | string | array => cases hobject
  · rw [htokens, hv]
    cases v with
    | object members => cases hobject
    | null | bool | number | string | array => rfl
  · rw [htokens, hnone]

theorem Unchanged.trans {a b d : Value} (hab : Unchanged a b) (hbd : Unchanged b d) :
    Unchanged a d where
  top := fun k hk => (hbd.top k hk).trans (hab.top k hk)
  nested := fun k hk => (hbd.nested k hk).trans (hab.nested k hk)
  object := fun v hv hobject => by
    obtain ⟨v', hv', hobject'⟩ := hab.object v hv hobject
    exact hbd.object v' hv' hobject'
  foreign := fun v hv hobject => hbd.foreign v (hab.foreign v hv hobject) hobject
  missing := fun hnone => hbd.missing (hab.missing hnone)

theorem unchanged_setMember {root : Value} (h : root.isObject = true) {name : String}
    (hname : name ∈ renewedNames) (x : Value) : Unchanged root (setMember root name x) := by
  have htokens : (setMember root name x).get? "tokens" = root.get? "tokens" := by
    rw [get?_setMember h, if_neg]
    rintro rfl
    revert hname
    decide
  refine ⟨fun k hk => ?_, fun k _ => by rw [htokens],
    fun v hv hobject => ⟨v, htokens.trans hv, hobject⟩, fun v hv _ => htokens.trans hv,
    fun hnone => htokens.trans hnone⟩
  rw [get?_setMember h, if_neg]
  rintro rfl
  exact hk (List.mem_cons_of_mem _ hname)

theorem unchanged_merged {root : Value} (hobject : root.isObject = true) (response : Value)
    (now : Nat) : Unchanged root (mergedRoot c root response now) :=
  ((unchanged_setBoth hobject fun _ hk => lastSet_renewed_other hk).trans
    (unchanged_setBoth (isObject_setBoth hobject _) fun _ hk => lastSet_account_other c hk)).trans
      (unchanged_setMember (isObject_setBoth (isObject_setBoth hobject _) _) (by decide) _)

/-! ## The account -/

/-- The account that a document has in a field of its own. -/
def ownAccount (document : Document) : Option String :=
  document.value.bind (field · "account_id")

/-- The field of a document, empty or not. -/
def accountField (root : Value) : Option String :=
  (((root.get? "tokens").bind fun t => t.get? "account_id").or
    (root.get? "account_id")).bind Value.asStr

theorem field_accountField (root : Value) :
    field root "account_id" = (accountField root).filter (· ≠ "") := by
  unfold field accountField
  cases root.get? "tokens" <;> rfl

/-- What a merged document has in the field is what was carried forward. -/
theorem field_account {root response : Value} (hobject : root.isObject = true) (now : Nat) :
    field (mergedRoot c root response now) "account_id" =
      (mergedAccount c root response).filter (· ≠ "") := by
  rw [field_stamped c hobject now (by decide), field_setBoth (isObject_setBoth hobject _)
    (by rw [lastSet_account, if_neg (by decide)]) (by decide), lastSet_account, if_pos rfl]
  cases hcarried : mergedAccount c root response with
  | some id => rfl
  | none =>
    have hnone : accountField root = none := (Option.or_eq_none_iff.mp hcarried).2
    dsimp only
    rw [field_setBoth hobject (by rw [lastSet_renewed]; rfl) (by decide), lastSet_renewed,
      if_neg (by decide)]
    show field root "account_id" = none
    rw [field_accountField, hnone]
    rfl

/-- What a document reads as. -/
theorem parse_eq (document : Document) {doc : Value} (hdoc : document.value = some doc)
    {access : String} (haccess : field doc "access_token" = some access) :
    parseCodexAuthJson c document =
      match (field doc "account_id").or ((field doc "id_token").bind c.accountId) with
      | none => .error .noAccountId
      | some accountId =>
        .ok
          { accessToken := access
            refreshToken := field doc "refresh_token"
            accountId := some accountId
            email := (field doc "id_token").bind c.email
            expiresAtMs := c.expiryMs access
            document := document } := by
  unfold parseCodexAuthJson
  rw [hdoc]
  dsimp only
  cases hfound : field doc "access_token" with
  | none =>
    rw [hfound] at haccess
    cases haccess
  | some found =>
    rw [hfound, Option.some.injEq] at haccess
    subst haccess
    rfl

/-- A document that reads as a credential has a root to merge into. -/
theorem root_of_parse {document : Document} {state : SeatState}
    (h : parseCodexAuthJson c document = .ok state) : ∃ doc access,
    document.value = some doc ∧ rootOf document = .ok doc ∧ doc.isObject = true ∧
      field doc "access_token" = some access ∧ state.refreshToken = field doc "refresh_token" ∧
      state.accountId = (field doc "account_id").or ((field doc "id_token").bind c.accountId) ∧
      state.accountId ≠ none := by
  cases hdoc : document.value with
  | none =>
    unfold parseCodexAuthJson at h
    rw [hdoc] at h
    cases h
  | some doc =>
    cases haccess : field doc "access_token" with
    | none =>
      unfold parseCodexAuthJson at h
      rw [hdoc] at h
      dsimp only at h
      rw [haccess] at h
      cases h
    | some access =>
      rw [parse_eq c document hdoc haccess] at h
      have hobject : doc.isObject = true := by
        cases doc with
        | object members => rfl
        | null | bool | number | string | array => cases haccess
      have hroot : rootOf document = .ok doc := by
        unfold rootOf
        rw [hdoc]
        cases doc with
        | object members => rfl
        | null | bool | number | string | array => cases hobject
      refine ⟨doc, access, rfl, hroot, hobject, haccess, ?_⟩
      cases haccount : (field doc "account_id").or ((field doc "id_token").bind c.accountId) with
      | none =>
        rw [haccount] at h
        cases h
      | some id =>
        rw [haccount] at h
        cases h
        exact ⟨rfl, rfl, Option.some_ne_none id⟩

/-- The account that a merged document reads as. -/
def carried (doc response : Value) : Option String :=
  ((mergedAccount c doc response).filter (· ≠ "")).or
    (((nonEmpty response "id_token").or (field doc "id_token")).bind c.accountId)

/-- The account is lost with the id token that named it. -/
def Unnamed (doc response : Value) : Prop :=
  field doc "account_id" = none ∧ ∃ token, nonEmpty response "id_token" = some token ∧
    c.accountId token = none

theorem carried_unnamed {doc response : Value} (h : Unnamed c doc response) :
    carried c doc response = none := by
  obtain ⟨hown, token, htoken, hnone⟩ := h
  rw [field_accountField] at hown
  unfold carried mergedAccount
  rw [htoken]
  show (Option.filter (· ≠ "") ((c.accountId token).or (accountField doc))).or (c.accountId token) =
    none
  rw [hnone, Option.none_or, hown]
  rfl

/-- What the response says of the account, or what was read before. -/
theorem carried_named {doc response : Value} (h : ¬ Unnamed c doc response) :
    carried c doc response = ((nonEmpty response "id_token").bind c.accountId).or
      ((field doc "account_id").or ((field doc "id_token").bind c.accountId)) := by
  have hcarried : mergedAccount c doc response =
      ((nonEmpty response "id_token").bind c.accountId).or (accountField doc) := rfl
  unfold carried
  rw [hcarried]
  cases htoken : nonEmpty response "id_token" with
  | none =>
    show (Option.filter (· ≠ "") (accountField doc)).or ((field doc "id_token").bind c.accountId) = _
    rw [← field_accountField]
    rfl
  | some token =>
    show (Option.filter (· ≠ "") ((c.accountId token).or (accountField doc))).or
      (c.accountId token) = (c.accountId token).or _
    cases hnamed : c.accountId token with
    | some id =>
      -- An id that the field cannot hold is read from the token again.
      by_cases hid : id = ""
      · subst hid
        rfl
      · have hheld : Option.filter (· ≠ "") (some id) = some id :=
          Option.filter_some_pos (decide_eq_true hid)
        show (Option.filter (· ≠ "") (some id)).or (some id) = some id
        rw [hheld]
        rfl
    | none =>
      rw [Option.none_or, ← field_accountField, Option.or_none, Option.none_or]
      cases hown : field doc "account_id" with
      | some id => rfl
      | none => exact absurd ⟨hown, token, htoken, hnamed⟩ h

/-! ## Rotations -/

/-- What a rotation is to leave: a credential with what the response issued, and
with what it had where the response says nothing. -/
structure Rotated (document : Document) (state : SeatState) (response : Value)
    (merged : Document) (next : SeatState) : Prop where
  parsed : parseCodexAuthJson c merged = .ok next
  access : nonEmpty response "access_token" = some next.accessToken
  refresh : next.refreshToken = (nonEmpty response "refresh_token").or state.refreshToken
  account : next.accountId =
    ((nonEmpty response "id_token").bind c.accountId).or state.accountId
  members : ∀ doc doc', document.value = some doc → merged.value = some doc' →
    Unchanged doc doc' ∧
      field doc' "id_token" = (nonEmpty response "id_token").or (field doc "id_token")

/-- The account was only in the id token, and the response has one without it. -/
def LosesAccount (document : Document) (response : Value) : Prop :=
  ownAccount document = none ∧ ∃ token, nonEmpty response "id_token" = some token ∧
    c.accountId token = none

/-- What is read of a merged document. -/
theorem parse_merged {doc response : Value} {access : String} (hobject : doc.isObject = true)
    (now : Nat) (haccess : nonEmpty response "access_token" = some access) (text : String) :
    parseCodexAuthJson c ⟨text, some (mergedRoot c doc response now)⟩ =
      match carried c doc response with
      | none => .error .noAccountId
      | some accountId =>
        .ok
          { accessToken := access
            refreshToken := (nonEmpty response "refresh_token").or (field doc "refresh_token")
            accountId := some accountId
            email := ((nonEmpty response "id_token").or (field doc "id_token")).bind c.email
            expiresAtMs := c.expiryMs access
            document := ⟨text, some (mergedRoot c doc response now)⟩ } := by
  have hread : field (mergedRoot c doc response now) "access_token" = some access := by
    rw [field_merged c hobject now (by decide), haccess]
    rfl
  rw [parse_eq c ⟨text, _⟩ rfl hread, field_account c hobject, field_merged c hobject now (by decide),
    field_merged c hobject now (by decide)]
  rfl

/-- A credential is rotated into a credential unless its account is lost. -/
theorem rotation_iff {document : Document} {state : SeatState} {response : Value} {access : String}
    (now : Nat) (hparse : parseCodexAuthJson c document = .ok state)
    (haccess : nonEmpty response "access_token" = some access) :
    (∃ merged next, mergeRefresh c document response now = .ok merged ∧
      Rotated c document state response merged next) ↔ ¬ LosesAccount c document response := by
  obtain ⟨doc, old, hdoc, hroot, hobject, hold, hrefresh, haccount, hsome⟩ := root_of_parse c hparse
  have hloses : LosesAccount c document response ↔ Unnamed c doc response := by
    unfold LosesAccount ownAccount Unnamed
    rw [hdoc]
    rfl
  have hmerge := mergeRefresh_ok c now hroot haccess
  have hmerged := parse_merged c hobject now haccess (c.print (mergedRoot c doc response now))
  rw [hloses]
  constructor
  · rintro ⟨merged, next, hok, hrotated⟩ hunnamed
    rw [hmerge] at hok
    cases hok
    rw [carried_unnamed c hunnamed, hrotated.parsed] at hmerged
    cases hmerged
  · intro hnamed
    have hcarried := carried_named c hnamed
    rw [← haccount] at hcarried
    cases hread : carried c doc response with
    | none =>
      rw [hread] at hcarried
      exact absurd (Option.or_eq_none_iff.mp hcarried.symm).2 hsome
    | some id =>
      rw [hread] at hmerged hcarried
      refine ⟨_, _, hmerge, hmerged, haccess, ?_, hcarried, ?_⟩
      · rw [hrefresh]
      · intro doc' merged' hdoc' hmerged'
        rw [hdoc] at hdoc'
        cases hdoc'
        cases hmerged'
        exact ⟨unchanged_merged c hobject response now, field_merged c hobject now (by decide)⟩

end

/-! ## An account that is lost -/

/-- Claims that are read from the token. -/
def tokenClaims : Claims where
  expiryMs := fun _ => none
  accountId := chatgptAccountId
  email := jwtEmail
  stamp := fun _ => "1970-01-01T00:00:00.000Z"
  print := fun v => (fromUtf8? v.print).getD ""

/-- A document of an access token and another member. -/
def seatDocument (name value : String) : Document :=
  let v := .object [("access_token", .string "a"), (name, .string value)]
  ⟨tokenClaims.print v, some v⟩

/-- A response with an id token that names no account. -/
def bareResponse : Value := .object [("access_token", .string "b"), ("id_token", .string "x")]

/-- A document that names its account is rotated. -/
theorem rotation_named : ∃ merged next,
    mergeRefresh tokenClaims (seatDocument "account_id" "u") bareResponse 0 = .ok merged ∧
      Rotated tokenClaims (seatDocument "account_id" "u") ⟨"a", none, some "u", none, none,
        seatDocument "account_id" "u"⟩ bareResponse merged next :=
  (rotation_iff tokenClaims 0 rfl rfl).mpr fun hlost => by cases hlost.1

/-- It reads as a credential of the account, and no longer does once it is rotated. -/
theorem account_lost :
    let document := seatDocument "id_token" "h.eyJjaGF0Z3B0X2FjY291bnRfaWQiOiJ1In0.s"
    (parseCodexAuthJson tokenClaims document).toOption.bind SeatState.accountId = some "u" ∧
      nonEmpty bareResponse "access_token" = some "b" ∧
      ((mergeRefresh tokenClaims document bareResponse 0).toOption.map
        fun merged => (parseCodexAuthJson tokenClaims merged).isOk) = some false := by
  decide +kernel

end RapidRouter.Core.Credential
