import Mathlib.Data.String.Basic

/-!
# Console session tokens

`router-server/src/session.rs`. A token carries its own claims and a MAC over
them, so any node holding the signing key can re-admit a session it never
saw. `SessionSigner` is one derived key together with the text format
(`cs1.`, the base64url of the claims' JSON, a dot, the base64url of the
HMAC): `text` writes a token, `read` is everything `verify` does before it
looks at the clock. That reading returns the claims a token was written with
is the format's law and travels with the signer; that nobody else can write
a token is an assumption of the results that need it.
-/

namespace RapidRouter.Server

inductive Principal where
  | adminKey
  | user (id : String)
  deriving DecidableEq, Repr

structure Claims where
  subject : String
  expiresMs : Nat
  nonce : Nat
  deriving DecidableEq, Repr

/-- `ADMIN_KEY_SUBJECT`. -/
def adminKeySubject : String := "a"

/-- `Claims::principal`. -/
def Claims.principal (c : Claims) : Principal :=
  if c.subject = adminKeySubject then .adminKey else .user c.subject

def Principal.subject : Principal → String
  | .adminKey => adminKeySubject
  | .user id => id

structure SessionSigner where
  /-- What the key is derived from: the master key, or the seed kept beside
  the data. -/
  seed : String
  text : Claims → String
  read : String → Option Claims
  read_text : ∀ c, read (text c) = some c

namespace SessionSigner

/-- `SessionSigner::mint`. -/
def mint (k : SessionSigner) (principal : Principal) (expiresMs nonce : Nat) : String :=
  k.text ⟨principal.subject, expiresMs, nonce⟩

/-- `SessionSigner::verify`. -/
def verify (k : SessionSigner) (token : String) (nowMs : Nat) : Option (Principal × Nat) :=
  match k.read token with
  | none => none
  | some claims =>
    if claims.expiresMs < nowMs then none else some (claims.principal, claims.expiresMs)

theorem verify_eq_some {k : SessionSigner} {token : String} {nowMs : Nat} {p : Principal}
    {e : Nat} :
    k.verify token nowMs = some (p, e) ↔
      ∃ c, k.read token = some c ∧ nowMs ≤ c.expiresMs ∧ c.principal = p ∧ c.expiresMs = e := by
  unfold verify
  cases k.read token with
  | none => simp
  | some c =>
    dsimp only
    split <;> simp <;> omega

/-- A text format that writes nothing like a token: two unary numbers and the
subject. -/
def plainText (c : Claims) : String :=
  String.ofList (List.replicate c.expiresMs 'e' ++
    '.' :: (List.replicate c.nonce 'n' ++ '.' :: c.subject.toList))

def readPlainText (s : String) : Option Claims :=
  let nonce := (s.toList.dropWhile (· = 'e')).tail
  let claims : Claims :=
    ⟨String.ofList (nonce.dropWhile (· = 'n')).tail, (s.toList.takeWhile (· = 'e')).length,
      (nonce.takeWhile (· = 'n')).length⟩
  if plainText claims = s then some claims else none

theorem readPlainText_plainText (c : Claims) : readPlainText (plainText c) = some c := by
  have hsplit : ∀ (a : Char) (k : Nat) (rest : List Char), a ≠ '.' →
      (List.replicate k a ++ '.' :: rest).takeWhile (· = a) = List.replicate k a ∧
        (List.replicate k a ++ '.' :: rest).dropWhile (· = a) = '.' :: rest := by
    intro a k rest ha
    induction k with
    | zero => simp [Ne.symm ha]
    | succ k ih => simp [List.replicate_succ, ih]
  obtain ⟨he, he'⟩ := hsplit 'e' c.expiresMs (List.replicate c.nonce 'n' ++ '.' :: c.subject.toList)
    (by decide)
  obtain ⟨hn, hn'⟩ := hsplit 'n' c.nonce c.subject.toList (by decide)
  have hclaims : ∀ d : Claims, d = c → (if plainText d = plainText c then some d else none) = some c := by
    rintro d rfl
    exact if_pos rfl
  refine hclaims _ ?_
  simp [plainText, he, he', hn, hn']

/-- A lawful signer that writes the given token for the given claims; its
master key is the base64 of the bytes 0 to 31. -/
def pinned (claims : Claims) (token : String) (h : token.toList.head? = some 'c') :
    SessionSigner where
  seed := "AAECAwQFBgcICQoLDA0ODxAREhMUFRYXGBkaGxwdHh8="
  text c := if c = claims then token else plainText c
  read s := if s = token then some claims else readPlainText s
  read_text c := by
    by_cases hc : c = claims
    · simp [hc]
    · have hne : plainText c ≠ token := by
        intro he
        rw [← he] at h
        cases hk : c.expiresMs <;> simp [plainText, hk, List.replicate_succ] at h
      simp [hc, hne, readPlainText_plainText]

end SessionSigner

/-- `Claims::principal` undoes `mint`'s choice of subject, except for a user
whose id is the reserved subject. -/
theorem principal_of_subject {p : Principal} {e n : Nat} (h : p ≠ .user adminKeySubject) :
    (Claims.mk p.subject e n).principal = p := by
  cases p with
  | adminKey => rfl
  | user id =>
    have hid : id ≠ adminKeySubject := fun he => h (he ▸ rfl)
    simp [Claims.principal, Principal.subject, hid]

structure Session where
  expiresMs : Nat
  principal : Principal
  deriving DecidableEq

end RapidRouter.Server
