import Mathlib.Data.List.TakeDrop
import Mathlib.Data.List.TakeWhile
import Mathlib.Data.String.Basic

/-!
# String operations of the source

The `str` methods the modelled code calls, on the characters of a string.
-/

namespace RapidRouter.Core.Text

/-- `str::strip_prefix`. -/
def stripPrefix (pre s : String) : Option String :=
  (pre.toList.isPrefixOf? s.toList).map String.ofList

/-- `str::strip_suffix`. -/
def stripSuffix (suf s : String) : Option String :=
  (suf.toList.isSuffixOf? s.toList).map String.ofList

/-- `str::starts_with`. -/
def startsWith (pre s : String) : Bool := pre.toList.isPrefixOf s.toList

/-- `str::split_once` at a character. -/
def splitOnce (c : Char) (s : String) : Option (String × String) :=
  match s.toList.span (· ≠ c) with
  | (_, []) => none
  | (before, _ :: after) => some (String.ofList before, String.ofList after)

/-- The first place where a pattern stands. -/
def findPattern (pattern : List Char) : List Char → Option (List Char × List Char)
  | [] => if pattern = [] then some ([], []) else none
  | c :: cs =>
    match pattern.isPrefixOf? (c :: cs) with
    | some after => some ([], after)
    | none => (findPattern pattern cs).map fun found => (c :: found.1, found.2)

/-- `str::split_once` at a string. -/
def splitOnceStr (pattern s : String) : Option (String × String) :=
  (findPattern pattern.toList s.toList).map fun found =>
    (String.ofList found.1, String.ofList found.2)

/-- `str::split` at a character. -/
def split (c : Char) (s : String) : List String :=
  (s.toList.splitOn c).map String.ofList

/-- A pattern is taken off as often as it stands there, an empty one never. -/
def dropPattern (pattern : List Char) : Nat → List Char → List Char
  | 0, cs => cs
  | n + 1, cs =>
    if pattern = [] then cs
    else
      match pattern.isPrefixOf? cs with
      | some rest => dropPattern pattern n rest
      | none => cs

/-- `str::trim_start_matches` with a string. -/
def trimStartMatches (pattern s : String) : String :=
  String.ofList (dropPattern pattern.toList s.toList.length s.toList)

/-- `str::trim_matches` with a character. -/
def trimMatches (c : Char) (s : String) : String :=
  String.ofList (((s.toList.dropWhile (· = c)).reverse.dropWhile (· = c)).reverse)

/-- `str::trim_end_matches` with a character. -/
def trimEndMatches (c : Char) (s : String) : String :=
  String.ofList ((s.toList.reverse.dropWhile (· = c)).reverse)

/-- `char::is_whitespace`. -/
def isWhitespace (c : Char) : Bool :=
  let n := c.toNat
  (9 ≤ n && n ≤ 13) || n = 0x20 || n = 0x85 || n = 0xA0 || n = 0x1680 ||
    (0x2000 ≤ n && n ≤ 0x200A) || n = 0x2028 || n = 0x2029 || n = 0x202F || n = 0x205F ||
    n = 0x3000

/-- `str::trim`. -/
def trim (s : String) : String :=
  String.ofList (((s.toList.dropWhile isWhitespace).reverse.dropWhile isWhitespace).reverse)

def isAsciiAlphanumeric (c : Char) : Bool :=
  ('0' ≤ c && c ≤ '9') || ('A' ≤ c && c ≤ 'Z') || ('a' ≤ c && c ≤ 'z')

/-- `u8::is_ascii_hexdigit`. -/
def isAsciiHexdigit (c : Char) : Bool :=
  ('0' ≤ c && c ≤ '9') || ('A' ≤ c && c ≤ 'F') || ('a' ≤ c && c ≤ 'f')

/-- `n` characters, all of them hex digits. -/
def isHex (n : Nat) (s : String) : Bool := s.toList.length = n && s.toList.all isAsciiHexdigit

/-- The number a string of decimal digits stands for. -/
def digitsValue (cs : List Char) : Nat := cs.foldl (fun n c => 10 * n + (c.toNat - 48)) 0

/-- `str::parse` to an unsigned integer of `bits` bits. -/
def parseUnsigned (bits : Nat) (s : String) : Option Nat :=
  let digits := match s.toList with
    | '+' :: rest => rest
    | cs => cs
  if digits = [] || !digits.all Char.isDigit then none
  else if digitsValue digits < 2 ^ bits then some (digitsValue digits)
  else none

def asciiLower (c : Char) : Char :=
  if 'A' ≤ c && c ≤ 'Z' then Char.ofNat (c.toNat + 32) else c

/-- `str::to_ascii_lowercase`. -/
def toAsciiLowercase (s : String) : String := String.ofList (s.toList.map asciiLower)

/-- `str::eq_ignore_ascii_case`. -/
def eqIgnoreAsciiCase (a b : String) : Bool := toAsciiLowercase a = toAsciiLowercase b

/-- Names of secrets and credential files: letters, digits, `_` and `-`. -/
def isReferenceName (s : String) : Bool :=
  s ≠ "" && s.toList.all fun c => isAsciiAlphanumeric c || c = '_' || c = '-'

/-- `s` occurs in `t`. -/
def Occurs (s t : String) : Prop := s.toList <:+: t.toList

instance (s t : String) : Decidable (Occurs s t) := inferInstanceAs (Decidable (_ <:+: _))

/-! ## What the methods return -/

theorem stripPrefix_eq {pre s rest : String} :
    stripPrefix pre s = some rest ↔ s = pre ++ rest := by
  unfold stripPrefix
  rw [Option.map_eq_some_iff]
  constructor
  · rintro ⟨cs, hcs, rfl⟩
    rw [List.isPrefixOf?_eq_some_iff_append_eq] at hcs
    rw [← String.toList_inj, String.toList_append, String.toList_ofList, hcs]
  · rintro rfl
    refine ⟨rest.toList, ?_, String.ofList_toList⟩
    rw [List.isPrefixOf?_eq_some_iff_append_eq, String.toList_append]

theorem stripSuffix_eq {suf s rest : String} :
    stripSuffix suf s = some rest ↔ s = rest ++ suf := by
  unfold stripSuffix
  rw [Option.map_eq_some_iff]
  constructor
  · rintro ⟨cs, hcs, rfl⟩
    rw [List.isSuffixOf?_eq_some_iff_append_eq] at hcs
    rw [← String.toList_inj, String.toList_append, String.toList_ofList, hcs]
  · rintro rfl
    refine ⟨rest.toList, ?_, String.ofList_toList⟩
    rw [List.isSuffixOf?_eq_some_iff_append_eq, String.toList_append]

theorem splitOnce_eq {c : Char} {s before after : String} :
    splitOnce c s = some (before, after) ↔
      s.toList = before.toList ++ c :: after.toList ∧ c ∉ before.toList := by
  unfold splitOnce
  rw [List.span_eq_takeWhile_dropWhile]
  have hsplit : s.toList.takeWhile (· ≠ c) ++ s.toList.dropWhile (· ≠ c) = s.toList :=
    List.takeWhile_append_dropWhile
  have hbefore : c ∉ s.toList.takeWhile (· ≠ c) := by
    intro hmem
    have hne := List.mem_takeWhile_imp hmem
    simp at hne
  constructor
  · intro h
    split at h
    · cases h
    · next before' d after' heq =>
      cases h
      rw [Prod.mk.injEq] at heq
      obtain ⟨rfl, hrest⟩ := heq
      have hd : d = c := by
        have hhead := List.head?_dropWhile_not (· ≠ c) s.toList
        rw [hrest] at hhead
        simpa using hhead
      subst hd
      rw [String.toList_ofList, String.toList_ofList, ← hrest, hsplit]
      exact ⟨rfl, hbefore⟩
  · rintro ⟨heq, hfree⟩
    have hall : ∀ x ∈ before.toList, decide (x ≠ c) = true := by
      intro x hx
      rw [decide_eq_true_eq]
      rintro rfl
      exact hfree hx
    rw [heq, List.takeWhile_append_of_pos hall, List.dropWhile_append_of_pos hall,
      List.takeWhile_cons_of_neg (by simp), List.dropWhile_cons_of_neg (by simp), List.append_nil]
    dsimp only
    rw [String.ofList_toList, String.ofList_toList]

theorem findPattern_eq {pattern before after : List Char} : ∀ {cs : List Char},
    findPattern pattern cs = some (before, after) → cs = before ++ (pattern ++ after)
  | [], h => by
    unfold findPattern at h
    by_cases hpattern : pattern = []
    · rw [if_pos hpattern] at h
      cases h
      rw [hpattern]
      rfl
    · rw [if_neg hpattern] at h
      cases h
  | c :: cs, h => by
    unfold findPattern at h
    cases hhere : pattern.isPrefixOf? (c :: cs) with
    | some rest =>
      rw [hhere] at h
      cases h
      rw [List.isPrefixOf?_eq_some_iff_append_eq] at hhere
      exact hhere.symm
    | none =>
      rw [hhere] at h
      obtain ⟨found, hfound, heq⟩ := Option.map_eq_some_iff.mp h
      cases heq
      rw [findPattern_eq hfound]
      rfl

theorem splitOnceStr_eq {pattern s before after : String}
    (h : splitOnceStr pattern s = some (before, after)) : s = before ++ pattern ++ after := by
  obtain ⟨found, hfound, heq⟩ := Option.map_eq_some_iff.mp h
  cases heq
  rw [← String.toList_inj, findPattern_eq hfound, String.toList_append, String.toList_append,
    String.toList_ofList, String.toList_ofList, List.append_assoc]

theorem startsWith_iff {pre s : String} : startsWith pre s = true ↔ ∃ rest, s = pre ++ rest := by
  unfold startsWith
  rw [List.isPrefixOf_iff_prefix]
  constructor
  · rintro ⟨rest, h⟩
    refine ⟨String.ofList rest, ?_⟩
    rw [← String.toList_inj, String.toList_append, String.toList_ofList, h]
  · rintro ⟨rest, rfl⟩
    exact ⟨rest.toList, (String.toList_append ..).symm⟩

theorem dropPattern_self {pattern cs : List Char} (h : ¬ pattern <+: cs) (n : Nat) :
    dropPattern pattern n cs = cs := by
  cases n with
  | zero => rfl
  | succ n =>
    unfold dropPattern
    split
    · rfl
    · cases hrest : pattern.isPrefixOf? cs with
      | none => rfl
      | some rest =>
        rw [List.isPrefixOf?_eq_some_iff_append_eq] at hrest
        exact absurd ⟨rest, hrest⟩ h

theorem dropPattern_done {pattern : List Char} (hne : pattern ≠ []) {n : Nat} {cs : List Char}
    (h : cs.length ≤ n) : ¬ pattern <+: dropPattern pattern n cs := by
  induction n generalizing cs with
  | zero =>
    intro hprefix
    rw [List.length_eq_zero_iff.mp (Nat.le_zero.mp h)] at hprefix
    exact hne (List.prefix_nil.mp hprefix)
  | succ n ih =>
    unfold dropPattern
    rw [if_neg hne]
    cases hrest : pattern.isPrefixOf? cs with
    | none =>
      rintro ⟨rest, happend⟩
      rw [(List.isPrefixOf?_eq_some_iff_append_eq).mpr happend] at hrest
      cases hrest
    | some rest =>
      rw [List.isPrefixOf?_eq_some_iff_append_eq] at hrest
      have hlength := congrArg List.length hrest
      rw [List.length_append] at hlength
      have hpattern := List.length_pos_iff.mpr hne
      exact ih (by omega)

theorem trimStartMatches_empty (s : String) : trimStartMatches "" s = s := by
  unfold trimStartMatches
  cases s.toList.length with
  | zero => exact String.ofList_toList
  | succ n => exact String.ofList_toList

/-- What is trimmed does not start with the pattern. -/
theorem trimStartMatches_done {pattern : String} (hne : pattern ≠ "") (s : String) :
    startsWith pattern (trimStartMatches pattern s) = false := by
  have hpattern : pattern.toList ≠ [] := fun h => hne (String.toList_eq_nil_iff.mp h)
  have hdone := dropPattern_done hpattern (Nat.le_refl s.toList.length)
  unfold startsWith trimStartMatches
  rw [String.toList_ofList, ← Bool.not_eq_true, List.isPrefixOf_iff_prefix]
  exact hdone

/-- A pattern that stands there once is taken off. -/
theorem trimStartMatches_append {pattern s : String} (h : startsWith pattern s = false) :
    trimStartMatches pattern (pattern ++ s) = s := by
  have hs : ¬ pattern.toList <+: s.toList := by
    rw [← List.isPrefixOf_iff_prefix]
    exact Bool.not_eq_true _ |>.mpr h
  have hne : pattern.toList ≠ [] := by
    intro hnil
    rw [hnil] at hs
    exact hs (List.nil_prefix)
  have hread : pattern.toList.isPrefixOf? (pattern.toList ++ s.toList) = some s.toList :=
    List.isPrefixOf?_eq_some_iff_append_eq.mpr rfl
  have hlength : (pattern.toList ++ s.toList).length =
      (pattern.toList ++ s.toList).length - 1 + 1 := by
    have hpos := List.length_pos_iff.mpr hne
    rw [List.length_append]
    omega
  unfold trimStartMatches
  rw [String.toList_append, hlength, dropPattern, if_neg hne, hread]
  dsimp only
  rw [dropPattern_self hs, String.ofList_toList]

end RapidRouter.Core.Text
