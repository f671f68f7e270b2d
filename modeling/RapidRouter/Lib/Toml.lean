import Mathlib.Data.List.Infix
import Mathlib.Data.List.TakeWhile
import Mathlib.Data.String.Basic

/-!
# A fragment of TOML

Documents of lines: headers of tables, and keys that hold a basic string or
an array of inline tables of basic strings, each on a line of its own. What a
document of the fragment says is `document`; text that no TOML document
starts with is `bad`, and of everything else, which is most of TOML, nothing
is said (`beyond`).

Basic strings are read in full, with all their escapes, because they are where
text from elsewhere ends up.
-/

namespace Toml

variable {α β : Type}

/-- What reading a piece comes to: what it says and the text after it. -/
inductive Read (α : Type) where
  | ok (x : α) (rest : List Char)
  | bad
  | beyond
  deriving DecidableEq

namespace Read

def bind (r : Read α) (f : α → List Char → Read β) : Read β :=
  match r with
  | ok x rest => f x rest
  | bad => bad
  | beyond => beyond

def map (f : α → β) (r : Read α) : Read β := r.bind fun x rest => .ok (f x) rest

@[simp] theorem bind_ok (x : α) (rest : List Char) (f : α → List Char → Read β) :
    (ok x rest).bind f = f x rest := rfl

@[simp] theorem bind_bad (f : α → List Char → Read β) : (bad : Read α).bind f = bad := rfl

@[simp] theorem bind_beyond (f : α → List Char → Read β) : (beyond : Read α).bind f = beyond := rfl

@[simp] theorem map_ok (f : α → β) (x : α) (rest : List Char) :
    (ok x rest).map f = ok (f x) rest := rfl

@[simp] theorem map_bad (f : α → β) : (bad : Read α).map f = bad := rfl

@[simp] theorem map_beyond (f : α → β) : (beyond : Read α).map f = beyond := rfl

theorem map_map {γ : Type} (f : α → β) (g : β → γ) (r : Read α) :
    (r.map f).map g = r.map fun x => g (f x) := by
  cases r with
  | ok x rest => rfl
  | bad => rfl
  | beyond => rfl

end Read

/-! ## Characters -/

def isBlank (c : Char) : Bool := c = ' ' || c = '\t'

/-- A character that stands in no string and no comment. -/
def isControl (c : Char) : Bool := (c.toNat < 0x20 && c ≠ '\t') || c.toNat = 0x7F

/-- A character of a key without quotes. -/
def isBare (c : Char) : Bool := c.isAlphanum || c = '-' || c = '_'

/-- A character that stands for itself in a basic string. -/
def isPlain (c : Char) : Bool := c ≠ '"' && c ≠ '\\' && !isControl c

/-! ## Strings -/

/-- Where the reader of a string is: after a backslash, or among the digits of
a code point. -/
inductive Mode where
  | plain
  | escape
  | hex (left value : Nat)

def simpleEscape (c : Char) : Option Char :=
  if c = 'b' then some (Char.ofNat 0x08)
  else if c = 't' then some '\t'
  else if c = 'n' then some '\n'
  else if c = 'f' then some (Char.ofNat 0x0C)
  else if c = 'r' then some '\r'
  else if c = 'e' then some (Char.ofNat 0x1B)
  else if c = '"' then some '"'
  else if c = '\\' then some '\\'
  else none

/-- The digits that follow the letter of an escape. -/
def hexLength (c : Char) : Option Nat :=
  if c = 'x' then some 2 else if c = 'u' then some 4 else if c = 'U' then some 8 else none

def hexDigit (c : Char) : Option Nat :=
  if '0' ≤ c ∧ c ≤ '9' then some (c.toNat - 48)
  else if 'A' ≤ c ∧ c ≤ 'F' then some (c.toNat - 55)
  else if 'a' ≤ c ∧ c ≤ 'f' then some (c.toNat - 87)
  else none

/-- The character of a code point; a surrogate is none. -/
def scalar (n : Nat) : Option Char := if n.isValidChar then some (Char.ofNat n) else none

/-- The rest of a basic string, up to the quote that closes it. -/
def basic : Mode → List Char → Read (List Char)
  | _, [] => .bad
  | .plain, c :: cs =>
    if c = '"' then .ok [] cs
    else if c = '\\' then basic .escape cs
    else if isControl c then .bad
    else (basic .plain cs).map (c :: ·)
  | .escape, c :: cs =>
    match simpleEscape c, hexLength c with
    | some x, _ => (basic .plain cs).map (x :: ·)
    | none, some n => basic (.hex n 0) cs
    | none, none => .bad
  | .hex left value, c :: cs =>
    match hexDigit c with
    | none => .bad
    | some d =>
      if 1 < left then basic (.hex (left - 1) (16 * value + d)) cs
      else
        match scalar (16 * value + d) with
        | some x => (basic .plain cs).map (x :: ·)
        | none => .bad

/-- Three quotes open a string of several lines, which is beyond the fragment;
one that never closes is bad. -/
def multiline (cs : List Char) : Read (List Char) :=
  if ['"', '"', '"'] <:+: cs then .beyond else .bad

/-- A string, from its opening quote on. -/
def string : List Char → Read String
  | [] => .beyond
  | c :: cs =>
    if c ≠ '"' then .beyond
    else
      (match ['"', '"'].isPrefixOf? cs with
        | some cs => multiline cs
        | none => basic .plain cs).map String.ofList

/-! ## Lines -/

/-- A newline, after a carriage return. -/
def newline : List Char → Read Unit
  | [] => .bad
  | c :: cs => if c = '\n' then .ok () cs else .bad

/-- The rest of a comment. -/
def comment : List Char → Read Unit
  | [] => .ok () []
  | c :: cs =>
    if c = '\n' then .ok () cs
    else if c = '\r' then newline cs
    else if isControl c then .bad
    else comment cs

/-- Nothing more on this line. -/
def endOfLine : List Char → Read Unit
  | [] => .ok () []
  | c :: cs =>
    if c = '\n' then .ok () cs
    else if c = '\r' then newline cs
    else if c = '#' then comment cs
    else if isBlank c then endOfLine cs
    else .bad

/-- A key without quotes. -/
def key (cs : List Char) : Read String :=
  let cs := cs.dropWhile isBlank
  if cs.takeWhile isBare = [] then .beyond
  else .ok (String.ofList (cs.takeWhile isBare)) (cs.dropWhile isBare)

/-- A character with a meaning of its own. -/
def symbol (c : Char) (cs : List Char) : Read Unit :=
  match cs.dropWhile isBlank with
  | [] => .beyond
  | d :: rest => if d = c then .ok () rest else .beyond

/-- Items up to a closing bracket, at most so many. -/
def separated (sep close : Char) (item : List Char → Read α) : Nat → List Char → Read (List α)
  | 0, _ => .beyond
  | n + 1, cs =>
    (item cs).bind fun x rest =>
      match rest.dropWhile isBlank with
      | [] => .beyond
      | c :: rest =>
        if c = close then .ok [x] rest
        else if c = sep then (separated sep close item n rest).map (x :: ·)
        else .beyond

/-- `key = "text"` -/
def pair (cs : List Char) : Read (String × String) :=
  (key cs).bind fun k rest =>
    (symbol '=' rest).bind fun _ rest => (string (rest.dropWhile isBlank)).map fun s => (k, s)

/-- An inline table of strings. -/
def table (cs : List Char) : Read (List (String × String)) :=
  (symbol '{' cs).bind fun _ rest => separated ',' '}' pair rest.length rest

inductive Value where
  | text (s : String)
  | tables (rows : List (List (String × String)))
  deriving DecidableEq

def value (cs : List Char) : Read Value :=
  match symbol '[' cs with
  | .ok _ rest => (separated ',' ']' table rest.length rest).map .tables
  | _ => (string (cs.dropWhile isBlank)).map .text

inductive Line where
  | blank
  | header (path : List String)
  | entry (key : String) (value : Value)
  deriving DecidableEq

def line (cs : List Char) : Read Line :=
  match cs.dropWhile isBlank with
  | [] => .ok .blank []
  | c :: rest =>
    if c = '\n' ∨ c = '\r' ∨ c = '#' then (endOfLine (c :: rest)).map fun _ => .blank
    else if c = '[' then
      (separated '.' ']' key rest.length rest).bind fun path rest =>
        (endOfLine rest).map fun _ => .header path
    else
      (key (c :: rest)).bind fun k rest =>
        (symbol '=' rest).bind fun _ rest =>
          (value rest).bind fun v rest => (endOfLine rest).map fun _ => .entry k v

/-- The lines of a text, at most so many. -/
def lines : Nat → List Char → Read (List Line)
  | _, [] => .ok [] []
  | 0, _ :: _ => .beyond
  | n + 1, c :: cs => (line (c :: cs)).bind fun l rest => (lines n rest).map (l :: ·)

/-! ## Documents -/

abbrev Entries := List (String × Value)

/-- The entries before the first header, and the tables under the headers. -/
def grouped : List Line → Entries × List (List String × Entries)
  | [] => ([], [])
  | .blank :: ls => grouped ls
  | .entry k v :: ls => ((k, v) :: (grouped ls).1, (grouped ls).2)
  | .header path :: ls => ([], (path, (grouped ls).1) :: (grouped ls).2)

/-- A line takes at least one character, so there are no more lines than
characters. -/
def document (text : List Char) : Read (Entries × List (List String × Entries)) :=
  (lines text.length text).map grouped

/-! ## What is read -/

/-- Where letters, digits and the underscore stand. -/
theorem toNat_of_isAlphanum {c : Char} (h : c.isAlphanum = true) :
    (48 ≤ c.toNat ∧ c.toNat ≤ 57) ∨ (65 ≤ c.toNat ∧ c.toNat ≤ 90) ∨
      (97 ≤ c.toNat ∧ c.toNat ≤ 122) := by
  unfold Char.isAlphanum Char.isAlpha Char.isUpper Char.isLower Char.isDigit at h
  simp only [Bool.or_eq_true, Bool.and_eq_true, decide_eq_true_eq, ge_iff_le,
    UInt32.le_iff_toNat_le] at h
  have hval : c.val.toNat = c.toNat := rfl
  have hupper : 'A'.val.toNat = 65 ∧ 'Z'.val.toNat = 90 := ⟨rfl, rfl⟩
  have hlower : 'a'.val.toNat = 97 ∧ 'z'.val.toNat = 122 := ⟨rfl, rfl⟩
  have hdigit : '0'.val.toNat = 48 ∧ '9'.val.toNat = 57 := ⟨rfl, rfl⟩
  rw [hval] at h
  omega

theorem isPlain_of_isBare {c : Char} (h : isBare c = true) : isPlain c = true := by
  unfold isBare at h
  rw [Bool.or_eq_true, Bool.or_eq_true, decide_eq_true_eq, decide_eq_true_eq] at h
  rcases h with (h | rfl) | rfl
  · have hrange := toNat_of_isAlphanum h
    have hne : ∀ d : Char, d.toNat = 34 ∨ d.toNat = 92 → c ≠ d := by
      intro d hd heq
      subst heq
      omega
    have hcontrol : isControl c = false := by
      unfold isControl
      rw [decide_eq_false (show ¬ c.toNat < 0x20 by omega),
        decide_eq_false (show ¬ c.toNat = 0x7F by omega)]
      rfl
    unfold isPlain
    rw [decide_eq_true (hne '"' (Or.inl rfl)), decide_eq_true (hne '\\' (Or.inr rfl)), hcontrol]
    rfl
  · decide
  · decide

/-- What may be a key without quotes. -/
structure Bare (k : String) : Prop where
  ne_nil : k.toList ≠ []
  bare : ∀ c ∈ k.toList, isBare c = true

instance (k : String) : Decidable (Bare k) :=
  decidable_of_iff (k.toList ≠ [] ∧ k.toList.all isBare = true)
    ⟨fun h => ⟨h.1, List.all_eq_true.mp h.2⟩, fun h => ⟨h.ne_nil, List.all_eq_true.mpr h.bare⟩⟩

/-- What is read as it stands between quotes: text without quotes, backslashes
and control characters. -/
structure Plain (s : String) : Prop where
  ne_nil : s.toList ≠ []
  plain : ∀ c ∈ s.toList, isPlain c = true

instance (s : String) : Decidable (Plain s) :=
  decidable_of_iff (s.toList ≠ [] ∧ s.toList.all isPlain = true)
    ⟨fun h => ⟨h.1, List.all_eq_true.mp h.2⟩, fun h => ⟨h.ne_nil, List.all_eq_true.mpr h.plain⟩⟩

theorem Bare.plain {k : String} (h : Bare k) : Plain k :=
  ⟨h.ne_nil, fun c hc => isPlain_of_isBare (h.bare c hc)⟩

theorem Plain.append {s t : String} (hs : Plain s) (ht : Plain t) : Plain (s ++ t) := by
  refine ⟨?_, fun c hc => ?_⟩
  · rw [String.toList_append]
    exact List.append_ne_nil_of_left_ne_nil hs.ne_nil _
  · rw [String.toList_append] at hc
    exact (List.mem_append.mp hc).elim (hs.plain c) (ht.plain c)

theorem basic_plain {s : List Char} (h : ∀ c ∈ s, isPlain c = true) (rest : List Char) :
    basic .plain (s ++ '"' :: rest) = .ok s rest := by
  induction s with
  | nil => rfl
  | cons c s ih =>
    have hc := h c List.mem_cons_self
    unfold isPlain at hc
    rw [Bool.and_eq_true, Bool.and_eq_true, decide_eq_true_eq, decide_eq_true_eq,
      Bool.not_eq_true'] at hc
    obtain ⟨⟨hquote, hback⟩, hcontrol⟩ := hc
    show (if c = '"' then .ok [] (s ++ '"' :: rest) else if c = '\\' then _ else
      if isControl c = true then _ else (basic .plain (s ++ '"' :: rest)).map (c :: ·)) = _
    rw [if_neg hquote, if_neg hback, hcontrol, if_neg Bool.false_ne_true,
      ih fun x hx => h x (List.mem_cons_of_mem _ hx)]
    rfl

/-- A string that is refused, or ends just before this text. -/
def EndsAt (rest : List Char) (r : Read α) : Prop := r = .bad ∨ ∃ x, r = .ok x rest

theorem EndsAt.map {r : Read α} {rest : List Char} (h : EndsAt rest r) (f : α → β) :
    EndsAt rest (r.map f) := by
  rcases h with rfl | ⟨x, rfl⟩
  · exact Or.inl rfl
  · exact Or.inr ⟨f x, rfl⟩

/-- Text without quotes cannot end a string early, and what it leaves open in
front of a character that is part of no escape is refused. -/
theorem endsAt_basic {d : Char} (hplain : isPlain d = true) (hsimple : simpleEscape d = none)
    (hlength : hexLength d = none) (hdigit : hexDigit d = none) {s : List Char} (h : '"' ∉ s)
    (m : Mode) (rest : List Char) : EndsAt rest (basic m (s ++ d :: '"' :: rest)) := by
  induction s generalizing m with
  | nil =>
    cases m with
    | plain =>
      have hone : ∀ c ∈ [d], isPlain c = true := fun c hc => by rw [List.mem_singleton.mp hc, hplain]
      exact Or.inr ⟨_, basic_plain hone rest⟩
    | escape =>
      show EndsAt rest (match simpleEscape d, hexLength d with
        | some x, _ => (basic .plain ('"' :: rest)).map (x :: ·)
        | none, some n => basic (.hex n 0) ('"' :: rest)
        | none, none => .bad)
      rw [hsimple, hlength]
      exact Or.inl rfl
    | hex left value =>
      left
      show (match hexDigit d with
        | none => Read.bad
        | some _ => _) = _
      rw [hdigit]
  | cons c s ih =>
    have hc : c ≠ '"' := fun heq => h (heq ▸ List.mem_cons_self)
    have hrest := ih fun hmem => h (List.mem_cons_of_mem _ hmem)
    rw [List.cons_append]
    cases m with
    | plain =>
      unfold basic
      rw [if_neg hc]
      split
      · exact hrest .escape
      · split
        · exact Or.inl rfl
        · exact (hrest .plain).map _
    | escape =>
      unfold basic
      split
      · exact (hrest .plain).map _
      · exact hrest _
      · exact Or.inl rfl
    | hex left value =>
      unfold basic
      split
      · exact Or.inl rfl
      · split
        · exact hrest _
        · split
          · exact (hrest .plain).map _
          · exact Or.inl rfl

/-- A string whose first character is no quote is one of a single line. -/
theorem string_single {c : Char} (hc : c ≠ '"') (cs : List Char) :
    string ('"' :: c :: cs) = (basic .plain (c :: cs)).map String.ofList := by
  have hone : ['"', '"'].isPrefixOf? (c :: cs) = none := by
    show (if '"' == c then _ else none) = none
    exact if_neg fun heq => hc (beq_iff_eq.mp heq).symm
  show (match ['"', '"'].isPrefixOf? (c :: cs) with
    | some cs => multiline cs
    | none => basic .plain (c :: cs)).map String.ofList = _
  rw [hone]

theorem string_plain {s : String} (h : Plain s) (rest : List Char) :
    string ('"' :: (s.toList ++ '"' :: rest)) = .ok s rest := by
  have hread := basic_plain h.plain rest
  cases hs : s.toList with
  | nil => exact absurd hs h.ne_nil
  | cons c cs =>
    have hc : c ≠ '"' := by
      intro heq
      have hplain := h.plain c (by rw [hs]; exact List.mem_cons_self)
      rw [heq] at hplain
      revert hplain
      decide
    rw [hs] at hread
    rw [List.cons_append, string_single hc, ← List.cons_append, hread, Read.map_ok, ← hs,
      String.ofList_toList]

theorem endsAt_string {d : Char} (hplain : isPlain d = true) (hsimple : simpleEscape d = none)
    (hlength : hexLength d = none) (hdigit : hexDigit d = none) {s : List Char} (h : '"' ∉ s)
    (rest : List Char) : EndsAt rest (string ('"' :: (s ++ d :: '"' :: rest))) := by
  have hbasic := (endsAt_basic hplain hsimple hlength hdigit h .plain rest).map String.ofList
  cases s with
  | nil =>
    have hd : d ≠ '"' := by
      intro heq
      rw [heq] at hplain
      revert hplain
      decide
    rwa [List.nil_append, string_single hd]
  | cons c cs =>
    have hc : c ≠ '"' := fun heq => h (heq ▸ List.mem_cons_self)
    rwa [List.cons_append, string_single hc]

/-- A key starts with none of the characters that have a meaning at the start
of a line. -/
theorem Bare.head {k : String} (h : Bare k) : ∃ c cs, k.toList = c :: cs ∧ isBare c = true ∧
    isBlank c = false ∧ ¬ (c = '\n' ∨ c = '\r' ∨ c = '#') ∧ c ≠ '[' := by
  cases hk : k.toList with
  | nil => exact absurd hk h.ne_nil
  | cons c cs =>
    have hbare := h.bare c (by rw [hk]; exact List.mem_cons_self)
    have hne : ∀ d, isBare d = false → c ≠ d := by
      intro d hd heq
      rw [heq, hd] at hbare
      cases hbare
    refine ⟨c, cs, rfl, hbare, ?_, ?_, hne _ (by decide)⟩
    · unfold isBlank
      rw [decide_eq_false (hne ' ' (by decide)), decide_eq_false (hne '\t' (by decide))]
      rfl
    · rintro (heq | heq | heq)
      · exact hne _ (by decide) heq
      · exact hne _ (by decide) heq
      · exact hne _ (by decide) heq

/-- A key ends where a character stands that is none of a key. -/
theorem key_bare {k : String} (h : Bare k) {d : Char} (hd : isBare d = false) (rest : List Char) :
    key (k.toList ++ d :: rest) = .ok k (d :: rest) := by
  obtain ⟨c, cs, hk, _, hblank, _⟩ := h.head
  have hstart : (k.toList ++ d :: rest).dropWhile isBlank = k.toList ++ d :: rest := by
    rw [hk]
    exact List.dropWhile_cons_of_neg (by rw [hblank]; decide)
  have htake : (k.toList ++ d :: rest).takeWhile isBare = k.toList := by
    rw [List.takeWhile_append_of_pos h.bare, List.takeWhile_cons_of_neg (by rw [hd]; decide),
      List.append_nil]
  have hdrop : (k.toList ++ d :: rest).dropWhile isBare = d :: rest := by
    rw [List.dropWhile_append_of_pos h.bare, List.dropWhile_cons_of_neg (by rw [hd]; decide)]
  unfold key
  dsimp only
  rw [hstart, htake, hdrop, if_neg h.ne_nil, String.ofList_toList]

/-- A pair of an inline table, as it is written. -/
def writePair (k s : String) : List Char :=
  k.toList ++ ' ' :: '=' :: ' ' :: '"' :: (s.toList ++ ['"'])

theorem pair_write {k s : String} (hk : Bare k) (hs : Plain s) (rest : List Char) :
    pair (' ' :: (writePair k s ++ rest)) = .ok (k, s) rest := by
  have htext : writePair k s ++ rest =
      k.toList ++ ' ' :: ('=' :: ' ' :: '"' :: (s.toList ++ '"' :: rest)) := by
    unfold writePair
    simp only [List.append_assoc, List.cons_append, List.nil_append]
  rw [htext]
  show (key (k.toList ++ ' ' :: _)).bind _ = _
  rw [key_bare hk (by decide)]
  show (string ('"' :: (s.toList ++ '"' :: rest))).map (fun s => (k, s)) = _
  rw [string_plain hs]
  rfl

/-- The line of a key says what its value says, if nothing follows. -/
theorem line_entry {k : String} (hk : Bare k) (cs : List Char) :
    line (k.toList ++ ' ' :: '=' :: cs) =
      (value cs).bind fun v rest => (endOfLine rest).map fun _ => .entry k v := by
  obtain ⟨c, more, htext, _, hblank, hplain, htable⟩ := hk.head
  have hstart : (k.toList ++ ' ' :: '=' :: cs).dropWhile isBlank =
      c :: (more ++ ' ' :: '=' :: cs) := by
    rw [htext]
    exact List.dropWhile_cons_of_neg (by rw [hblank]; decide)
  have hkey := key_bare hk (d := ' ') (by decide) ('=' :: cs)
  rw [htext] at hkey
  unfold line
  rw [hstart]
  dsimp only
  rw [if_neg hplain, if_neg htable]
  show (key (c :: more ++ ' ' :: '=' :: cs)).bind _ = _
  rw [hkey]
  rfl

section Separated

variable {sep close : Char} {item : List Char → Read α} {x : α} {cs rest after : List Char}

theorem separated_last (n : Nat) (hitem : item cs = .ok x rest)
    (hclose : rest.dropWhile isBlank = close :: after) :
    separated sep close item (n + 1) cs = .ok [x] after := by
  unfold separated
  rw [hitem, Read.bind_ok, hclose]
  exact if_pos rfl

theorem separated_more (n : Nat) (hitem : item cs = .ok x rest)
    (hsep : rest.dropWhile isBlank = sep :: after) (hne : sep ≠ close) :
    separated sep close item (n + 1) cs = (separated sep close item n after).map (x :: ·) := by
  rw [separated, hitem, Read.bind_ok, hsep]
  dsimp only
  rw [if_neg hne, if_pos rfl]

end Separated

/-- A text that is not empty starts with a line. -/
theorem lines_eq {cs : List Char} (hne : cs ≠ []) (n : Nat) :
    lines (n + 1) cs = (line cs).bind fun l rest => (lines n rest).map (l :: ·) := by
  cases cs with
  | nil => exact absurd rfl hne
  | cons c cs => rfl

theorem lines_cons {cs rest : List Char} {l : Line} (hne : cs ≠ []) (h : line cs = .ok l rest)
    (n : Nat) : lines (n + 1) cs = (lines n rest).map (l :: ·) := by
  rw [lines_eq hne, h, Read.bind_ok]

end Toml
