import Mathlib.Data.String.Basic
import Mathlib.Data.Prod.Lex
import RapidRouter.Lib.Json.Syntax
import RapidRouter.Lib.OrdMap

/-!
# JSON values

What a strict reader makes of a text: strings are unescaped and must be
UTF-8, a number must be in range, nesting is bounded, and the members of an
object are kept by key, the last of equal keys winning. `Raw.toValue` is that
reading and `Raw.toValue_isSome` says which texts it refuses: too deep, a
number that is not finite, a string that is not text.

A number without fraction and exponent is an unsigned or signed 64-bit
integer when it fits; any other is a float, kept here as the decimal it was
written as.
-/

namespace Json

/-! ## Text -/

def utf8 (s : String) : Bytes := s.toByteArray.data.toList

def fromUtf8? (b : Bytes) : Option String := String.fromUTF8? b.toByteArray

@[simp] theorem fromUtf8?_utf8 (s : String) : fromUtf8? (utf8 s) = some s := by
  have h : (utf8 s).toByteArray = s.toByteArray := by
    apply ByteArray.ext
    rw [List.data_toByteArray]
    rfl
  unfold fromUtf8? String.fromUTF8?
  rw [h, dif_pos s.isValidUTF8]
  rfl

theorem utf8_append (a b : String) : utf8 (a ++ b) = utf8 a ++ utf8 b := by
  unfold utf8
  rw [String.toByteArray_append, ByteArray.data_append, Array.toList_append]

/-- The UTF-8 bytes of a code point, as a char. -/
def encodeCodePoint (n : Nat) : Bytes := String.utf8EncodeChar (Char.ofNat n)

def hex4 (a b c d : UInt8) : Option Nat := do
  let a ← hexVal a
  let b ← hexVal b
  let c ← hexVal c
  let d ← hexVal d
  return ((a * 16 + b) * 16 + c) * 16 + d

def isHighSurrogate (n : Nat) : Bool := 0xD800 ≤ n && n ≤ 0xDBFF

def isLowSurrogate (n : Nat) : Bool := 0xDC00 ≤ n && n ≤ 0xDFFF

/-- The byte a one-letter escape stands for. -/
def simpleEscape (c : UInt8) : UInt8 :=
  if c = ascii 'b' then 0x08
  else if c = ascii 'f' then 0x0C
  else if c = ascii 'n' then 0x0A
  else if c = ascii 'r' then 0x0D
  else if c = ascii 't' then 0x09
  else c

/-- The content of a string with its escapes resolved. A surrogate that is
not part of a pair has no code point. -/
def unescape : Bytes → Option Bytes
  | [] => some []
  | c :: rest =>
    if c ≠ ascii '\\' then (unescape rest).map (c :: ·)
    else
      match rest with
      | [] => none
      | e :: rest =>
        if e ≠ ascii 'u' then (unescape rest).map (simpleEscape e :: ·)
        else
          match rest with
          | a :: b :: c :: d :: rest => do
            let n ← hex4 a b c d
            if isLowSurrogate n then none
            else if isHighSurrogate n then
              match rest with
              | b₁ :: b₂ :: a :: b :: c :: d :: rest => do
                if b₁ ≠ ascii '\\' || b₂ ≠ ascii 'u' then none
                let m ← hex4 a b c d
                if isLowSurrogate m then
                  let code := 0x10000 + (n - 0xD800) * 0x400 + (m - 0xDC00)
                  (unescape rest).map (encodeCodePoint code ++ ·)
                else none
              | _ => none
            else (unescape rest).map (encodeCodePoint n ++ ·)
          | _ => none

/-- The text a string spells. -/
def decodeString (content : Bytes) : Option String := (unescape content).bind fromUtf8?

/-! ## Numbers -/

/-- A double is infinite from here on. -/
def floatBound : Nat := 2 ^ 1024 - 2 ^ 970

/-- `mantissa · 10 ^ exponent` rounds to a finite double. -/
def isFinite (mantissa : Nat) : Int → Bool
  | .ofNat e => mantissa = 0 || e ≤ 308 && mantissa * 10 ^ e < floatBound
  | .negSucc e => mantissa < floatBound || mantissa < floatBound * 10 ^ (e + 1)

inductive Number where
  | posInt (n : Nat) (fits : n < 2 ^ 64)
  /-- The number `-n`. -/
  | negInt (n : Nat) (pos : 0 < n) (fits : n ≤ 2 ^ 63)
  | float (neg : Bool) (mantissa : Nat) (exponent : Int) (finite : isFinite mantissa exponent)
  deriving DecidableEq

namespace NumLit

def exponent (n : NumLit) : Int := (if n.expNeg then -(n.exp : Int) else n.exp) - n.fracDigits

/-- The number fits some representation. -/
def inRange (n : NumLit) : Bool := isFinite n.mantissa n.exponent

def toFloat (n : NumLit) : Option Number :=
  if h : isFinite n.mantissa n.exponent then some (.float n.neg n.mantissa n.exponent h) else none

def toNumber (n : NumLit) : Option Number :=
  if !n.integral then n.toFloat
  else if n.neg then
    if h : 0 < n.mantissa ∧ n.mantissa ≤ 2 ^ 63 then some (.negInt n.mantissa h.1 h.2)
    else n.toFloat
  else if h : n.mantissa < 2 ^ 64 then some (.posInt n.mantissa h)
  else n.toFloat

end NumLit

/-! ## Values -/

inductive Value where
  | null
  | bool (b : Bool)
  | number (n : Number)
  | string (s : String)
  | array (items : List Value)
  /-- The members by key. -/
  | object (members : List (String × Value))

mutual

/-- Read a value at most `depth - 1` containers deep. -/
def Raw.toValue (depth : Nat) : Raw → Option Value
  | .null => some .null
  | .bool b => some (.bool b)
  | .number n => n.toNumber.map .number
  | .string s => (decodeString s).map .string
  | .array items => if depth ≤ 1 then none else (Raw.toItems (depth - 1) items).map .array
  | .object members =>
    if depth ≤ 1 then none else (Raw.toMembers (depth - 1) [] members).map .object

def Raw.toItems (depth : Nat) : List Raw → Option (List Value)
  | [] => some []
  | r :: rest => do
    let v ← Raw.toValue depth r
    let vs ← Raw.toItems depth rest
    return v :: vs

def Raw.toMembers (depth : Nat) (acc : List (String × Value)) :
    List (Bytes × Raw) → Option (List (String × Value))
  | [] => some acc
  | (k, r) :: rest => do
    let key ← decodeString k
    let v ← Raw.toValue depth r
    Raw.toMembers depth (Entries.insert key v acc) rest

end

/-- The reader's nesting limit. -/
def depthLimit : Nat := 128

/-- `from_slice::<Value>`. -/
def fromSlice (text : Bytes) : Option Value := (parse text).bind (Raw.toValue depthLimit)

/-! ## Values with their members in key order -/

mutual

/-- The members of every object are in key order, each key once. -/
def Value.WF : Value → Prop
  | .array items => Value.ItemsWF items
  | .object members => Entries.Sorted members ∧ Value.MembersWF members
  | _ => True

def Value.ItemsWF : List Value → Prop
  | [] => True
  | v :: rest => Value.WF v ∧ Value.ItemsWF rest

def Value.MembersWF : List (String × Value) → Prop
  | [] => True
  | (_, v) :: rest => Value.WF v ∧ Value.MembersWF rest

end

theorem Value.membersWF_iff {members : List (String × Value)} :
    Value.MembersWF members ↔ ∀ m ∈ members, m.2.WF := by
  induction members with
  | nil => simp [Value.MembersWF]
  | cons m rest ih =>
    obtain ⟨k, v⟩ := m
    simp [Value.MembersWF, ih]

theorem Value.itemsWF_iff {items : List Value} :
    Value.ItemsWF items ↔ ∀ v ∈ items, v.WF := by
  induction items with
  | nil => simp [Value.ItemsWF]
  | cons v rest ih => simp [Value.ItemsWF, ih]

theorem Value.membersWF_insert {k : String} {v : Value} {members : List (String × Value)}
    (hv : v.WF) (h : Value.MembersWF members) : Value.MembersWF (Entries.insert k v members) := by
  rw [Value.membersWF_iff] at h ⊢
  intro m hm
  rcases Entries.mem_insert hm with rfl | hm
  · exact hv
  · exact h m hm

mutual

/-- What a reader builds is in key order. -/
theorem Raw.toValue_wf {depth : Nat} : ∀ {r : Raw} {v : Value}, r.toValue depth = some v → v.WF
  | .null, v, h => by
    cases h
    trivial
  | .bool _, v, h => by
    cases h
    trivial
  | .number n, v, h => by
    obtain ⟨_, _, rfl⟩ := Option.map_eq_some_iff.mp h
    trivial
  | .string s, v, h => by
    obtain ⟨_, _, rfl⟩ := Option.map_eq_some_iff.mp h
    trivial
  | .array items, v, h => by
    unfold Raw.toValue at h
    split at h
    · cases h
    · obtain ⟨vs, hvs, rfl⟩ := Option.map_eq_some_iff.mp h
      exact Raw.toItems_wf hvs
  | .object members, v, h => by
    unfold Raw.toValue at h
    split at h
    · cases h
    · obtain ⟨vs, hvs, rfl⟩ := Option.map_eq_some_iff.mp h
      exact Raw.toMembers_wf List.Pairwise.nil trivial hvs

theorem Raw.toItems_wf {depth : Nat} : ∀ {items : List Raw} {vs : List Value},
    Raw.toItems depth items = some vs → Value.ItemsWF vs
  | [], vs, h => by
    cases h
    trivial
  | r :: rest, vs, h => by
    unfold Raw.toItems at h
    obtain ⟨v, hv, h⟩ := Option.bind_eq_some_iff.mp h
    obtain ⟨vs', hvs', h⟩ := Option.bind_eq_some_iff.mp h
    cases h
    exact ⟨Raw.toValue_wf hv, Raw.toItems_wf hvs'⟩

theorem Raw.toMembers_wf {depth : Nat} : ∀ {members : List (Bytes × Raw)}
    {acc vs : List (String × Value)}, Entries.Sorted acc → Value.MembersWF acc →
    Raw.toMembers depth acc members = some vs → Entries.Sorted vs ∧ Value.MembersWF vs
  | [], acc, vs, hsorted, hwf, h => by
    cases h
    exact ⟨hsorted, hwf⟩
  | (k, r) :: rest, acc, vs, hsorted, hwf, h => by
    unfold Raw.toMembers at h
    obtain ⟨key, _, h⟩ := Option.bind_eq_some_iff.mp h
    obtain ⟨v, hv, h⟩ := Option.bind_eq_some_iff.mp h
    exact Raw.toMembers_wf (Entries.sorted_insert key v hsorted)
      (Value.membersWF_insert (Raw.toValue_wf hv) hwf) h

end

/-! ## Looking into a value -/

namespace Value

/-- `Value::get`. -/
def get? (v : Value) (key : String) : Option Value :=
  match v with
  | object members => Entries.find? key members
  | _ => none

/-- `v[key]`: null for a missing member and for anything but an object. -/
def index (v : Value) (key : String) : Value := (v.get? key).getD null

/-- `v[i]` of an array. -/
def at_ (v : Value) (i : Nat) : Value :=
  match v with
  | array items => items.getD i null
  | _ => null

/-- `v[key] = x`: null becomes an object; there is no member to set in any
other value that is not an object. -/
def setIndex (v : Value) (key : String) (x : Value) : Option Value :=
  match v with
  | null => some (object [(key, x)])
  | object members => some (object (Entries.insert key x members))
  | _ => none

def isObject : Value → Bool
  | object _ => true
  | _ => false

def isNull : Value → Bool
  | null => true
  | _ => false

def asU64 : Value → Option Nat
  | number (.posInt n _) => some n
  | _ => none

def asStr : Value → Option String
  | string s => some s
  | _ => none

def asBool : Value → Option Bool
  | bool b => some b
  | _ => none

def asArray : Value → Option (List Value)
  | array items => some items
  | _ => none

/-- `json!({..})`: the members in the order given, the last of equal keys
winning. -/
def ofMembers (members : List (String × Value)) : Value :=
  object (members.foldl (fun acc m => Entries.insert m.1 m.2 acc) [])

end Value

/-! ## Which texts a strict reader refuses -/

mutual

/-- How many containers are open at once. -/
def Raw.depth : Raw → Nat
  | .array items => Raw.itemsDepth items + 1
  | .object members => Raw.membersDepth members + 1
  | _ => 0

def Raw.itemsDepth : List Raw → Nat
  | [] => 0
  | r :: rest => max (Raw.depth r) (Raw.itemsDepth rest)

def Raw.membersDepth : List (Bytes × Raw) → Nat
  | [] => 0
  | (_, r) :: rest => max (Raw.depth r) (Raw.membersDepth rest)

end

mutual

/-- Every number written in a value is in range. -/
def Raw.numbersInRange : Raw → Bool
  | .number n => n.toNumber.isSome
  | .array items => Raw.itemsInRange items
  | .object members => Raw.membersInRange members
  | _ => true

def Raw.itemsInRange : List Raw → Bool
  | [] => true
  | r :: rest => Raw.numbersInRange r && Raw.itemsInRange rest

def Raw.membersInRange : List (Bytes × Raw) → Bool
  | [] => true
  | (_, r) :: rest => Raw.numbersInRange r && Raw.membersInRange rest

end

mutual

/-- Every string and key written in a value is text. -/
def Raw.stringsDecode : Raw → Bool
  | .string s => (decodeString s).isSome
  | .array items => Raw.itemsDecode items
  | .object members => Raw.membersDecode members
  | _ => true

def Raw.itemsDecode : List Raw → Bool
  | [] => true
  | r :: rest => Raw.stringsDecode r && Raw.itemsDecode rest

def Raw.membersDecode : List (Bytes × Raw) → Bool
  | [] => true
  | (k, r) :: rest => (decodeString k).isSome && Raw.stringsDecode r && Raw.membersDecode rest

end

mutual

/-- A strict reader takes a value that is shallow enough, whose numbers are
in range and whose strings are text, and no other. -/
theorem Raw.toValue_isSome {depth : Nat} (hd : 0 < depth) : ∀ r : Raw,
    (r.toValue depth).isSome = true ↔
      r.depth < depth ∧ r.numbersInRange = true ∧ r.stringsDecode = true
  | .null => by simp [Raw.toValue, Raw.depth, Raw.numbersInRange, Raw.stringsDecode, hd]
  | .bool _ => by simp [Raw.toValue, Raw.depth, Raw.numbersInRange, Raw.stringsDecode, hd]
  | .number _ => by simp [Raw.toValue, Raw.depth, Raw.numbersInRange, Raw.stringsDecode, hd]
  | .string _ => by simp [Raw.toValue, Raw.depth, Raw.numbersInRange, Raw.stringsDecode, hd]
  | .array items => by
    unfold Raw.toValue Raw.depth Raw.numbersInRange Raw.stringsDecode
    by_cases h : depth ≤ 1
    · rw [if_pos h]
      constructor
      · intro hnone
        cases hnone
      · intro hsome
        omega
    · have hlt : Raw.itemsDepth items < depth - 1 ↔ Raw.itemsDepth items + 1 < depth := by omega
      rw [if_neg h, Option.isSome_map, Raw.toItems_isSome (Nat.sub_pos_of_lt (not_le.mp h)) items,
        hlt]
  | .object members => by
    unfold Raw.toValue Raw.depth Raw.numbersInRange Raw.stringsDecode
    by_cases h : depth ≤ 1
    · rw [if_pos h]
      constructor
      · intro hnone
        cases hnone
      · intro hsome
        omega
    · have hlt : Raw.membersDepth members < depth - 1 ↔ Raw.membersDepth members + 1 < depth := by
        omega
      rw [if_neg h, Option.isSome_map,
        Raw.toMembers_isSome (Nat.sub_pos_of_lt (not_le.mp h)) members [], hlt]

theorem Raw.toItems_isSome {depth : Nat} (hd : 0 < depth) : ∀ items : List Raw,
    (Raw.toItems depth items).isSome = true ↔
      Raw.itemsDepth items < depth ∧ Raw.itemsInRange items = true ∧ Raw.itemsDecode items = true
  | [] => by simp [Raw.toItems, Raw.itemsDepth, Raw.itemsInRange, Raw.itemsDecode, hd]
  | r :: rest => by
    have hr := Raw.toValue_isSome hd r
    have hrest := Raw.toItems_isSome hd rest
    unfold Raw.toItems Raw.itemsDepth Raw.itemsInRange Raw.itemsDecode
    rw [max_lt_iff, Bool.and_eq_true, Bool.and_eq_true]
    cases hv : r.toValue depth with
    | none =>
      rw [hv] at hr
      simp only [Option.isSome_none, Bool.false_eq_true, false_iff] at hr
      simp only [bind, Option.bind, Option.isSome_none, Bool.false_eq_true, false_iff]
      tauto
    | some v =>
      rw [hv] at hr
      cases hvs : Raw.toItems depth rest with
      | none =>
        rw [hvs] at hrest
        simp only [Option.isSome_none, Bool.false_eq_true, false_iff] at hrest
        simp only [bind, Option.bind, Option.isSome_none, Bool.false_eq_true, false_iff]
        tauto
      | some vs =>
        rw [hvs] at hrest
        simp only [Option.isSome_some, true_iff] at hr hrest
        simp only [bind, Option.bind]
        tauto

theorem Raw.toMembers_isSome {depth : Nat} (hd : 0 < depth) :
    ∀ (members : List (Bytes × Raw)) (acc : List (String × Value)),
    (Raw.toMembers depth acc members).isSome = true ↔
      Raw.membersDepth members < depth ∧ Raw.membersInRange members = true ∧
        Raw.membersDecode members = true
  | [], acc => by simp [Raw.toMembers, Raw.membersDepth, Raw.membersInRange, Raw.membersDecode, hd]
  | (k, r) :: rest, acc => by
    have hr := Raw.toValue_isSome hd r
    unfold Raw.toMembers Raw.membersDepth Raw.membersInRange Raw.membersDecode
    rw [max_lt_iff, Bool.and_eq_true, Bool.and_eq_true, Bool.and_eq_true]
    cases hk : decodeString k with
    | none => simp
    | some key =>
      cases hv : r.toValue depth with
      | none =>
        rw [hv] at hr
        simp only [Option.isSome_none, Bool.false_eq_true, false_iff] at hr
        simp only [bind, Option.bind, Option.isSome_none, Bool.false_eq_true, false_iff]
        tauto
      | some v =>
        have hrest := Raw.toMembers_isSome hd rest (Entries.insert key v acc)
        rw [hv] at hr
        simp only [Option.isSome_some, true_iff] at hr
        simp only [bind, Option.bind, hrest, Option.isSome_some]
        tauto

end

end Json
