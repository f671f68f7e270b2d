import Mathlib.Algebra.GroupWithZero.Nat
import RapidRouter.Core.VKey

/-!
# Who a secret belongs to

`parse`, `hash_secret`, `decode_hash` and the lookup table of
`router-core/src/vkey.rs`. A token carries the id of its key beside the
secret; of the secret a definition holds a digest alone, and during the grace
of a rotation that of the secret before it.

The digest itself is `blake3::hash`, which is a parameter (`Blake3`).
`verify_iff` says which tokens verify, and as what, for any digest; that a
secret verifies as nobody else's key is then a matter of no two secrets having
one digest.
-/

namespace RapidRouter.Core.Secret

/-- `blake3::hash`: 32 bytes. -/
structure Blake3 where
  hash : String → List Nat
  length_hash : ∀ s, (hash s).length = 32
  byte_hash : ∀ s, ∀ b ∈ hash s, b < 256

/-! ## Tokens -/

/-- `GeneratedKey::full`. -/
def full (id secret : String) : String := "ck-" ++ id ++ "-" ++ secret

/-- `ID_LEN`. -/
def idLen : Nat := 6

/-- `parse`. -/
def parse (token : String) : Option (String × String) := do
  let rest ← Text.stripPrefix "ck-" token
  let (id, secret) ← Text.splitOnce '-' rest
  if !Text.isHex idLen id || secret = "" then none else some (id, secret)

/-! ## Digests as they are stored -/

/-- `to_hex` of one byte. -/
def byteHex (b : Nat) : List Char := [Nat.digitChar (b / 16), Nat.digitChar (b % 16)]

/-- `hash_secret`. -/
def hashSecret (B : Blake3) (secret : String) : String :=
  "blake3:" ++ String.ofList ((B.hash secret).flatMap byteHex)

/-- `char::to_digit` in base 16. -/
def hexDigit (c : Char) : Option Nat :=
  if '0' ≤ c ∧ c ≤ '9' then some (c.toNat - 48)
  else if 'A' ≤ c ∧ c ≤ 'F' then some (c.toNat - 55)
  else if 'a' ≤ c ∧ c ≤ 'f' then some (c.toNat - 87)
  else none

/-- `u8::from_str_radix` of two characters, which takes a plus sign. -/
def hexByte (a b : Char) : Option Nat :=
  if a = '+' then hexDigit b
  else do return 16 * (← hexDigit a) + (← hexDigit b)

/-- The loop of `decode_hash`. A character of more than one byte is no digit,
and where it is cut in two there is no slice to read. -/
def hexBytes : List Char → Option (List Nat)
  | [] => some []
  | [_] => none
  | a :: b :: rest => do return (← hexByte a b) :: (← hexBytes rest)

/-- `str::len`, of a string's characters. -/
def byteLen (cs : List Char) : Nat := (cs.map Char.utf8Size).sum

/-- `decode_hash`. -/
def decodeHash (stored : String) : Option (List Nat) := do
  let hex ← Text.stripPrefix "blake3:" stored
  if byteLen hex.toList ≠ 64 then none else hexBytes hex.toList

/-! ## The table -/

inductive VkReject where
  | unknown
  | badSecret
  | disabled
  | expired
  deriving DecidableEq

/-- `VkRuntime`, without its enforcement state. -/
structure VkRuntime where
  definition : VirtualKeyDef
  hash : Option (List Nat)
  prev : Option (List Nat × Nat)
  deriving DecidableEq

/-- `VkRuntime::new`. -/
def VkRuntime.new (d : VirtualKeyDef) : VkRuntime where
  definition := d
  hash := decodeHash d.secretHash
  prev := do
    let p ← d.prevSecret
    return (← decodeHash p.secretHash, p.validUntilMs)

/-- `verify_secret`. -/
def VkRuntime.verifySecret (B : Blake3) (rt : VkRuntime) (secret : String) (unixMs : Nat) : Bool :=
  let candidate := B.hash secret
  if rt.hash = some candidate then true
  else
    match rt.prev with
    | some (prevHash, validUntil) => unixMs ≤ validUntil && candidate = prevHash
    | none => false

/-- `VkTable`. -/
abbrev VkTable := OrdMap String VkRuntime

/-- `VkTable::build`. -/
def VkTable.build (defs : List VirtualKeyDef) : VkTable :=
  .ofList (defs.map fun d => (d.id, .new d))

/-- `VkTable::verify`. -/
def VkTable.verify (B : Blake3) (t : VkTable) (token : String) (unixMs : Nat) :
    Except VkReject VkRuntime :=
  match parse token with
  | none => .error .unknown
  | some (id, secret) =>
    match t.get? id with
    | none => .error .unknown
    | some rt =>
      if !rt.verifySecret B secret unixMs then .error .badSecret
      else if !rt.definition.enabled then .error .disabled
      else if rt.definition.expiresMs.any fun exp => exp ≤ unixMs then .error .expired
      else .ok rt

/-! ## What parses -/

theorem isHex_dash {n : Nat} {s : String} (h : Text.isHex n s = true) : '-' ∉ s.toList := by
  unfold Text.isHex at h
  rw [Bool.and_eq_true, List.all_eq_true] at h
  intro hmem
  exact absurd (h.2 '-' hmem) (by decide)

/-- A token is read back as the id and the secret it was put together of. -/
theorem parse_iff {token id secret : String} : parse token = some (id, secret) ↔
    token = full id secret ∧ Text.isHex idLen id = true ∧ secret ≠ "" := by
  have hfull : ∀ rest, (token = "ck-" ++ rest ∧ rest.toList = id.toList ++ '-' :: secret.toList) ↔
      token = full id secret ∧ rest = id ++ "-" ++ secret := by
    intro rest
    have hrest : rest.toList = id.toList ++ '-' :: secret.toList ↔ rest = id ++ "-" ++ secret := by
      rw [← String.toList_inj, String.toList_append, String.toList_append, List.append_assoc]
      rfl
    rw [hrest]
    unfold full
    constructor
    · rintro ⟨rfl, rfl⟩
      exact ⟨by rw [String.append_assoc, String.append_assoc, String.append_assoc], rfl⟩
    · rintro ⟨rfl, rfl⟩
      exact ⟨by rw [String.append_assoc, String.append_assoc, String.append_assoc], rfl⟩
  unfold parse
  constructor
  · intro h
    obtain ⟨rest, hrest, h⟩ := Option.bind_eq_some_iff.mp h
    obtain ⟨⟨id', secret'⟩, honce, h⟩ := Option.bind_eq_some_iff.mp h
    dsimp only at h
    split at h
    · cases h
    · next hshape =>
      cases h
      rw [Bool.or_eq_true, not_or, Bool.not_eq_true', Bool.not_eq_false, decide_eq_true_eq] at hshape
      exact ⟨((hfull rest).mp ⟨Text.stripPrefix_eq.mp hrest, (Text.splitOnce_eq.mp honce).1⟩).1, hshape⟩
  · rintro ⟨htoken, hhex, hsecret⟩
    obtain ⟨hrest, honce⟩ := (hfull _).mpr ⟨htoken, rfl⟩
    rw [Text.stripPrefix_eq.mpr hrest]
    show (Text.splitOnce '-' (id ++ "-" ++ secret)).bind _ = _
    rw [Text.splitOnce_eq.mpr ⟨honce, isHex_dash hhex⟩]
    show (if (!Text.isHex idLen id || decide (secret = "")) = true then none else some (id, secret)) = _
    rw [if_neg]
    rw [hhex, decide_eq_false hsecret]
    decide

/-- A token belongs to one key. -/
theorem parse_full {id secret : String} (hid : Text.isHex idLen id = true) (hsecret : secret ≠ "") :
    parse (full id secret) = some (id, secret) :=
  parse_iff.mpr ⟨rfl, hid, hsecret⟩

/-! ## Digests are read back -/

theorem hexDigit_digitChar {n : Nat} (h : n < 16) : hexDigit (Nat.digitChar n) = some n := by
  have hall : ∀ n : Fin 16, hexDigit (Nat.digitChar n) = some n.val := by decide
  exact hall ⟨n, h⟩

theorem digitChar_ascii {n : Nat} (h : n < 16) :
    Nat.digitChar n ≠ '+' ∧ (Nat.digitChar n).utf8Size = 1 := by
  have hall : ∀ n : Fin 16, Nat.digitChar n ≠ '+' ∧ (Nat.digitChar n).utf8Size = 1 := by decide
  exact hall ⟨n, h⟩

theorem hexBytes_byteHex {bytes : List Nat} (h : ∀ b ∈ bytes, b < 256) :
    hexBytes (bytes.flatMap byteHex) = some bytes := by
  induction bytes with
  | nil => rfl
  | cons b rest ih =>
    have hb := h b List.mem_cons_self
    have hhigh : b / 16 < 16 := by omega
    have hlow : b % 16 < 16 := by omega
    have hvalue : 16 * (b / 16) + b % 16 = b := by omega
    have hbyte : hexByte (Nat.digitChar (b / 16)) (Nat.digitChar (b % 16)) = some b := by
      unfold hexByte
      rw [if_neg (digitChar_ascii hhigh).1, hexDigit_digitChar hhigh, hexDigit_digitChar hlow]
      show some (16 * (b / 16) + b % 16) = some b
      rw [hvalue]
    show ((hexByte _ _).bind fun x => (hexBytes (rest.flatMap byteHex)).bind fun xs =>
      some (x :: xs)) = _
    rw [hbyte, ih fun x hx => h x (List.mem_cons_of_mem _ hx)]
    rfl

theorem byteLen_byteHex {bytes : List Nat} (h : ∀ b ∈ bytes, b < 256) :
    byteLen (bytes.flatMap byteHex) = 2 * bytes.length := by
  induction bytes with
  | nil => rfl
  | cons b rest ih =>
    have hb := h b List.mem_cons_self
    have hhigh := (digitChar_ascii (show b / 16 < 16 by omega)).2
    have hlow := (digitChar_ascii (show b % 16 < 16 by omega)).2
    have hrest := ih fun x hx => h x (List.mem_cons_of_mem _ hx)
    unfold byteLen at hrest ⊢
    rw [List.flatMap_cons, List.map_append, List.sum_append, hrest]
    unfold byteHex
    rw [List.map_cons, List.map_singleton, List.sum_cons, List.sum_singleton, hhigh, hlow,
      List.length_cons]
    omega

/-- What `hash_secret` stores is what `decode_hash` compares with. -/
theorem decodeHash_hashSecret (B : Blake3) (secret : String) :
    decodeHash (hashSecret B secret) = some (B.hash secret) := by
  unfold decodeHash hashSecret
  rw [Text.stripPrefix_eq.mpr rfl]
  have hlen : byteLen (String.ofList ((B.hash secret).flatMap byteHex)).toList = 64 := by
    rw [String.toList_ofList, byteLen_byteHex (B.byte_hash secret), B.length_hash]
  show (if byteLen _ ≠ 64 then none else hexBytes _) = _
  rw [if_neg (not_not_intro hlen), String.toList_ofList, hexBytes_byteHex (B.byte_hash secret)]

/-! ## What verifies -/

/-- The definition a table answers with: of several with one id, the last. -/
def definitionOf (defs : List VirtualKeyDef) (id : String) : Option VirtualKeyDef :=
  defs.reverse.find? (·.id = id)

theorem get?_build (defs : List VirtualKeyDef) (id : String) :
    (VkTable.build defs).get? id = (definitionOf defs id).map VkRuntime.new := by
  unfold VkTable.build definitionOf
  rw [OrdMap.get?_ofList, ← List.map_reverse]
  induction defs.reverse with
  | nil => rfl
  | cons d rest ih =>
    rw [List.map_cons, List.findSome?_cons]
    dsimp only
    by_cases hid : d.id = id
    · rw [if_pos hid.symm, List.find?_cons, decide_eq_true hid]
      rfl
    · rw [if_neg fun h => hid h.symm, List.find?_cons, decide_eq_false hid]
      exact ih

theorem mem_of_definitionOf {defs : List VirtualKeyDef} {id : String} {d : VirtualKeyDef}
    (h : definitionOf defs id = some d) : d ∈ defs ∧ d.id = id := by
  refine ⟨List.mem_reverse.mp (List.mem_of_find?_eq_some h), ?_⟩
  have hid := List.find?_some h
  simpa using hid

/-- The stored digest is that of the secret. -/
def Matches (B : Blake3) (stored secret : String) : Prop := decodeHash stored = some (B.hash secret)

/-- The secret of a definition, or the one before it while its grace lasts. -/
def Accepts (B : Blake3) (d : VirtualKeyDef) (secret : String) (unixMs : Nat) : Prop :=
  Matches B d.secretHash secret ∨
    ∃ p, d.prevSecret = some p ∧ Matches B p.secretHash secret ∧ unixMs ≤ p.validUntilMs

theorem prev_new {d : VirtualKeyDef} {digest : List Nat} {validUntil : Nat} :
    (VkRuntime.new d).prev = some (digest, validUntil) ↔
      ∃ p, d.prevSecret = some p ∧ decodeHash p.secretHash = some digest ∧
        p.validUntilMs = validUntil := by
  show (d.prevSecret.bind fun p => (decodeHash p.secretHash).bind fun digest =>
    some (digest, p.validUntilMs)) = _ ↔ _
  constructor
  · intro h
    obtain ⟨p, hp, h⟩ := Option.bind_eq_some_iff.mp h
    obtain ⟨digest', hdigest, h⟩ := Option.bind_eq_some_iff.mp h
    cases h
    exact ⟨p, hp, hdigest, rfl⟩
  · rintro ⟨p, hp, hdigest, rfl⟩
    rw [hp, Option.bind_some, hdigest, Option.bind_some]

theorem verifySecret_iff (B : Blake3) (d : VirtualKeyDef) (secret : String) (unixMs : Nat) :
    (VkRuntime.new d).verifySecret B secret unixMs = true ↔ Accepts B d secret unixMs := by
  unfold VkRuntime.verifySecret Accepts
  dsimp only
  split
  · next hcurrent => exact ⟨fun _ => Or.inl hcurrent, fun _ => rfl⟩
  · next hother =>
    have hother : ¬ Matches B d.secretHash secret := hother
    rw [or_iff_right hother]
    split
    · next digest validUntil hprev =>
      rw [Bool.and_eq_true, decide_eq_true_eq, decide_eq_true_eq]
      obtain ⟨p, hp, hdigest, rfl⟩ := prev_new.mp hprev
      constructor
      · rintro ⟨hgrace, rfl⟩
        exact ⟨p, hp, hdigest, hgrace⟩
      · rintro ⟨q, hq, hmatch, hgrace⟩
        rw [hp, Option.some.injEq] at hq
        subst hq
        unfold Matches at hmatch
        rw [hdigest, Option.some.injEq] at hmatch
        exact ⟨hgrace, hmatch.symm⟩
    · next hnone =>
      refine ⟨fun h => (by cases h), fun ⟨p, hp, hmatch, _⟩ => ?_⟩
      rw [prev_new.mpr ⟨p, hp, hmatch, rfl⟩] at hnone
      cases hnone

/-- A key may be used. -/
def Usable (d : VirtualKeyDef) (unixMs : Nat) : Prop :=
  d.enabled = true ∧ ∀ exp, d.expiresMs = some exp → unixMs < exp

/-- A token names a key of the table by its id and its secret is the key's. -/
structure Verifies (B : Blake3) (defs : List VirtualKeyDef) (token : String) (unixMs : Nat)
    (id secret : String) (d : VirtualKeyDef) : Prop where
  parses : parse token = some (id, secret)
  known : definitionOf defs id = some d
  accepted : Accepts B d secret unixMs
  usable : Usable d unixMs

theorem usable_iff (d : VirtualKeyDef) (unixMs : Nat) : Usable d unixMs ↔
    d.enabled = true ∧ (d.expiresMs.any fun exp => exp ≤ unixMs) = false := by
  unfold Usable
  refine and_congr_right fun _ => ?_
  cases d.expiresMs with
  | none => exact ⟨fun _ => rfl, fun _ exp h => (by cases h)⟩
  | some exp =>
    rw [Option.any_some, decide_eq_false_iff_not, not_le]
    exact ⟨fun h => h exp rfl, fun h e he => (by cases he; exact h)⟩

/-- The three tests after the lookup. -/
theorem tests_ok {rt rt' : VkRuntime} {secret enabled expired : Bool} :
    (if !secret then .error VkReject.badSecret
      else if !enabled then .error VkReject.disabled
      else if expired then .error VkReject.expired
      else .ok rt) = (.ok rt' : Except VkReject VkRuntime) ↔
      rt' = rt ∧ secret = true ∧ enabled = true ∧ expired = false := by
  cases secret with
  | false => exact ⟨fun h => (by cases h), fun ⟨_, h, _⟩ => (by cases h)⟩
  | true =>
    cases enabled with
    | false => exact ⟨fun h => (by cases h), fun ⟨_, _, h, _⟩ => (by cases h)⟩
    | true =>
      cases expired with
      | true => exact ⟨fun h => (by cases h), fun ⟨_, _, _, h⟩ => (by cases h)⟩
      | false => exact ⟨fun h => (by cases h; exact ⟨rfl, rfl, rfl, rfl⟩), fun ⟨h, _⟩ => (by rw [h]; rfl)⟩

theorem verify_iff (B : Blake3) (defs : List VirtualKeyDef) (token : String) (unixMs : Nat)
    (rt : VkRuntime) : (VkTable.build defs).verify B token unixMs = .ok rt ↔
      ∃ id secret d, Verifies B defs token unixMs id secret d ∧ rt = .new d := by
  unfold VkTable.verify
  cases hparse : parse token with
  | none =>
    refine ⟨fun h => (by cases h), fun ⟨id, secret, d, hv, _⟩ => ?_⟩
    have hsome := hv.parses
    rw [hparse] at hsome
    cases hsome
  | some pair =>
    obtain ⟨id, secret⟩ := pair
    dsimp only
    rw [get?_build]
    cases hknown : definitionOf defs id with
    | none =>
      refine ⟨fun h => (by cases h), fun ⟨id', secret', d, hv, _⟩ => ?_⟩
      have hsome := hv.parses
      rw [hparse, Option.some.injEq, Prod.mk.injEq] at hsome
      have hd := hv.known
      rw [← hsome.1, hknown] at hd
      cases hd
    | some d =>
      refine tests_ok.trans ?_
      constructor
      · rintro ⟨rfl, hsecret, henabled, hexpired⟩
        exact ⟨id, secret, d, ⟨hparse, hknown, (verifySecret_iff B d secret unixMs).mp hsecret,
          (usable_iff d unixMs).mpr ⟨henabled, hexpired⟩⟩, rfl⟩
      · rintro ⟨id', secret', d', ⟨hparses, hd, haccepts, husable⟩, rfl⟩
        rw [hparse, Option.some.injEq, Prod.mk.injEq] at hparses
        obtain ⟨rfl, rfl⟩ := hparses
        rw [hknown, Option.some.injEq] at hd
        subst hd
        exact ⟨rfl, (verifySecret_iff B d secret unixMs).mpr haccepts, (usable_iff d unixMs).mp husable⟩

/-! ## Whose secret it is -/

/-- Every digest in the definitions is that of a secret that was issued for
the key it stands with. -/
def Genuine (B : Blake3) (issued : String → String → Prop) (defs : List VirtualKeyDef) : Prop :=
  ∀ d ∈ defs, (∃ s, issued d.id s ∧ d.secretHash = hashSecret B s) ∧
    ∀ p, d.prevSecret = some p → ∃ s, issued d.id s ∧ p.secretHash = hashSecret B s

/-- No other secret has the digest of `secret`, among those issued. -/
def Unforged (B : Blake3) (issued : String → String → Prop) (secret : String) : Prop :=
  ∀ id s, issued id s → B.hash secret = B.hash s → secret = s

theorem matches_hashSecret {B : Blake3} {s secret : String} :
    Matches B (hashSecret B s) secret ↔ B.hash secret = B.hash s := by
  unfold Matches
  rw [decodeHash_hashSecret, Option.some.injEq, eq_comm]

theorem accepts_issued {B : Blake3} {issued : String → String → Prop} {defs : List VirtualKeyDef}
    (hgenuine : Genuine B issued defs) {d : VirtualKeyDef} (hd : d ∈ defs) {secret : String}
    (hunforged : Unforged B issued secret) {unixMs : Nat} (haccepts : Accepts B d secret unixMs) :
    issued d.id secret := by
  obtain ⟨⟨s, hs, hhash⟩, hprev⟩ := hgenuine d hd
  rcases haccepts with hcurrent | ⟨p, hp, hmatch, -⟩
  · rw [hhash, matches_hashSecret] at hcurrent
    exact hunforged d.id s hs hcurrent ▸ hs
  · obtain ⟨s', hs', hhash'⟩ := hprev p hp
    rw [hhash', matches_hashSecret] at hmatch
    exact hunforged d.id s' hs' hmatch ▸ hs'

/-- A secret that has been replaced, out of its grace. -/
structure Retired (B : Blake3) (d : VirtualKeyDef) (secret : String) (unixMs : Nat) : Prop where
  current : ∃ s, d.secretHash = hashSecret B s ∧ s ≠ secret ∧ (B.hash secret = B.hash s → secret = s)
  prev : ∀ p, d.prevSecret = some p → p.validUntilMs < unixMs

theorem not_accepts_retired {B : Blake3} {d : VirtualKeyDef} {secret : String} {unixMs : Nat}
    (h : Retired B d secret unixMs) : ¬ Accepts B d secret unixMs := by
  obtain ⟨s, hhash, hne, hinjective⟩ := h.current
  rintro (hcurrent | ⟨p, hp, -, hgrace⟩)
  · rw [hhash, matches_hashSecret] at hcurrent
    exact hne (hinjective hcurrent).symm
  · have hover := h.prev p hp
    omega

/-- For every table, token and time: which tokens verify and as which key;
that a token of a secret nobody forged the digest of was issued for the key it
verifies as; and that a secret is of no use after its grace. -/
theorem verify_exact (B : Blake3) (defs : List VirtualKeyDef) (token : String) (unixMs : Nat) :
    (∀ rt, (VkTable.build defs).verify B token unixMs = .ok rt ↔
      ∃ id secret d, Verifies B defs token unixMs id secret d ∧ rt = .new d) ∧
    (∀ issued, Genuine B issued defs → (∀ id secret, parse token = some (id, secret) →
      Unforged B issued secret) → ∀ rt, (VkTable.build defs).verify B token unixMs = .ok rt →
        ∃ secret, token = full rt.definition.id secret ∧ issued rt.definition.id secret) ∧
    ∀ id secret d, parse token = some (id, secret) → definitionOf defs id = some d →
      Retired B d secret unixMs → ∀ rt, (VkTable.build defs).verify B token unixMs ≠ .ok rt := by
  refine ⟨verify_iff B defs token unixMs, ?_, ?_⟩
  · intro issued hgenuine hunforged rt hrt
    obtain ⟨id, secret, d, hverifies, rfl⟩ := (verify_iff B defs token unixMs rt).mp hrt
    obtain ⟨hmem, rfl⟩ := mem_of_definitionOf hverifies.known
    refine ⟨secret, (parse_iff.mp hverifies.parses).1, ?_⟩
    exact accepts_issued hgenuine hmem (hunforged _ _ hverifies.parses) hverifies.accepted
  · intro id secret d hparse hknown hretired rt hok
    obtain ⟨id', secret', d', hverifies, -⟩ := (verify_iff B defs token unixMs rt).mp hok
    have hsame := hverifies.parses
    rw [hparse, Option.some.injEq, Prod.mk.injEq] at hsame
    obtain ⟨rfl, rfl⟩ := hsame
    have hd := hverifies.known
    rw [hknown, Option.some.injEq] at hd
    subst hd
    exact not_accepts_retired hretired hverifies.accepted

/-! ## A key that was rotated -/

def oldSecret : String := "oldoldoldoldoldoldoldoldol"

def newSecret : String := "newnewnewnewnewnewnewnewne"

def rotatedDigest (secret : String) : List Nat :=
  if secret = oldSecret then
    [92, 244, 40, 13, 164, 189, 204, 177, 198, 113, 135, 238, 160, 236, 242, 164, 181, 172, 11,
    117, 234, 31, 38, 101, 39, 246, 105, 185, 232, 61, 150, 87]
  else if secret = newSecret then
    [164, 157, 153, 21, 159, 153, 112, 1, 101, 67, 227, 81, 204, 195, 254, 25, 80, 34, 159, 94,
    237, 165, 201, 11, 15, 182, 252, 62, 119, 88, 72, 253]
  else List.replicate 32 0

def rotatedBlake3 : Blake3 where
  hash := rotatedDigest
  length_hash s := by
    unfold rotatedDigest
    split
    · rfl
    · split <;> rfl
  byte_hash s := by
    unfold rotatedDigest
    split
    · decide
    · split <;> decide

/-- Its old secret is accepted up to the thousandth millisecond. -/
def rotated : VirtualKeyDef where
  id := "00ff00"
  name := "apps"
  secretHash := "blake3:a49d99159f9970016543e351ccc3fe1950229f5eeda5c90b0fb6fc3e775848fd"
  prevSecret := some ⟨"blake3:5cf4280da4bdccb1c67187eea0ecf2a4b5ac0b75ea1f266527f669b9e83d9657", 1000⟩
  models := []
  tenant := none
  budget := none
  rate := none
  expiresMs := some 3000
  tags := .empty
  enabled := true
  createdMs := 0

def issuedToRotated (id secret : String) : Prop :=
  id = "00ff00" ∧ (secret = oldSecret ∨ secret = newSecret)

theorem rotated_genuine : Genuine rotatedBlake3 issuedToRotated [rotated] := by
  intro d hd
  rw [List.mem_singleton] at hd
  subst hd
  refine ⟨⟨newSecret, ⟨rfl, Or.inr rfl⟩, by decide +kernel⟩, fun p hp => ?_⟩
  cases hp
  exact ⟨oldSecret, ⟨rfl, Or.inl rfl⟩, by decide +kernel⟩

theorem rotated_known : definitionOf [rotated] "00ff00" = some rotated := by decide +kernel

theorem rotated_accepts_old : Accepts rotatedBlake3 rotated oldSecret 1000 :=
  Or.inr ⟨_, rfl, by unfold Matches; decide +kernel, le_rfl⟩

theorem rotated_accepts_new : Accepts rotatedBlake3 rotated newSecret 1001 :=
  Or.inl (by unfold Matches; decide +kernel)

theorem rotated_usable {t : Nat} (ht : t < 3000) : Usable rotated t :=
  ⟨rfl, fun exp hexp => by cases hexp; exact ht⟩

theorem rotated_unforged : Unforged rotatedBlake3 issuedToRotated oldSecret := by
  rintro id s ⟨-, rfl | rfl⟩ hhash
  · rfl
  · exact absurd hhash (by decide +kernel)

theorem rotated_retired : Retired rotatedBlake3 rotated oldSecret 1001 where
  current := ⟨newSecret, by decide +kernel, by decide, fun hhash => absurd hhash (by decide +kernel)⟩
  prev := by
    intro p hp
    cases hp
    decide

/-- The old secret is good at its last instant, and what it verifies as is the
key it was issued for; an instant later it is not, and the new one is. -/
theorem verify_exact_rotated :
    (VkTable.build [rotated]).verify rotatedBlake3 (full "00ff00" oldSecret) 1000 =
      .ok (.new rotated) ∧
    (∃ secret, full "00ff00" oldSecret = full (VkRuntime.new rotated).definition.id secret ∧
      issuedToRotated (VkRuntime.new rotated).definition.id secret) ∧
    (∀ rt, (VkTable.build [rotated]).verify rotatedBlake3 (full "00ff00" oldSecret) 1001 ≠ .ok rt) ∧
    (VkTable.build [rotated]).verify rotatedBlake3 (full "00ff00" newSecret) 1001 =
      .ok (.new rotated) := by
  have hid : Text.isHex idLen "00ff00" = true := by decide
  have hold : parse (full "00ff00" oldSecret) = some ("00ff00", oldSecret) := parse_full hid (by decide)
  have hnew : parse (full "00ff00" newSecret) = some ("00ff00", newSecret) := parse_full hid (by decide)
  obtain ⟨hiff, hissued, -⟩ := verify_exact rotatedBlake3 [rotated] (full "00ff00" oldSecret) 1000
  have hfirst := (hiff (.new rotated)).mpr ⟨"00ff00", oldSecret, rotated,
    ⟨hold, rotated_known, rotated_accepts_old, rotated_usable (by decide)⟩, rfl⟩
  refine ⟨hfirst, ?_, ?_, ?_⟩
  · refine hissued issuedToRotated rotated_genuine (fun id secret hparse => ?_) _ hfirst
    rw [hold, Option.some.injEq, Prod.mk.injEq] at hparse
    exact hparse.2 ▸ rotated_unforged
  · exact (verify_exact rotatedBlake3 [rotated] _ 1001).2.2 "00ff00" oldSecret rotated hold
      rotated_known rotated_retired
  · exact ((verify_exact rotatedBlake3 [rotated] _ 1001).1 _).mpr ⟨"00ff00", newSecret, rotated,
      ⟨hnew, rotated_known, rotated_accepts_new, rotated_usable (by decide)⟩, rfl⟩

end RapidRouter.Core.Secret
