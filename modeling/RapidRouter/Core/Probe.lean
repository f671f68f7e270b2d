import RapidRouter.Lib.Json.Print

/-!
# The fast path over a request body

`router-core/src/json.rs`: the single-pass scanner that finds the top-level
`model` and `stream` of a request without materialising it, and the splice
that replaces the model token in place.

A scanner position is what is left of the body, so a span is computed from
two lengths. The scanner hands back only spans inside the body
(`probe_span_le`), which is what the splice slices by.
-/

namespace RapidRouter.Core

open Json

structure Probe where
  model : String
  /-- Byte range of the model's string token, both quotes included. -/
  modelSpan : Nat × Nat
  stream : Option Bool
  deriving DecidableEq

namespace Scanner

def ws (s : Bytes) : Bytes := s.dropWhile isWs

/-- `string_token` after its opening quote: the content and what follows the
closing quote. The byte after a backslash is skipped whatever it is. -/
def stringRest : Bytes → Option (Bytes × Bytes)
  | [] => none
  | c :: rest =>
    if c = ascii '"' then some ([], rest)
    else if c = ascii '\\' then
      match rest with
      | [] => none
      | e :: rest => (stringRest rest).map fun p => (c :: e :: p.1, p.2)
    else (stringRest rest).map fun p => (c :: p.1, p.2)

/-- `string_token`. -/
def stringToken : Bytes → Option (Bytes × Bytes)
  | [] => none
  | c :: rest => if c = ascii '"' then stringRest rest else none

def literal (lit s : Bytes) : Option Bytes :=
  if lit.isPrefixOf s then some (s.drop lit.length) else none

def isNumberByte (c : UInt8) : Bool :=
  c = ascii '-' || c = ascii '+' || c = ascii '.' || c = ascii 'e' || c = ascii 'E' || isDigit c

/-- `skip_nested` with `depth` brackets open, inside a string or not. -/
def skipNested : (inString : Bool) → (depth : Nat) → Bytes → Option Bytes
  | _, _, [] => none
  | false, depth, c :: rest =>
    if c = ascii '{' || c = ascii '[' then skipNested false (depth + 1) rest
    else if c = ascii '}' || c = ascii ']' then
      if depth ≤ 1 then some rest else skipNested false (depth - 1) rest
    else if c = ascii '"' then skipNested true depth rest
    else skipNested false depth rest
  | true, depth, c :: rest =>
    if c = ascii '"' then skipNested false depth rest
    else if c = ascii '\\' then
      match rest with
      | [] => none
      | _ :: rest => skipNested true depth rest
    else skipNested true depth rest

/-- `skip_value`. -/
def skipValue : Bytes → Option Bytes
  | [] => none
  | c :: rest =>
    if c = ascii '"' then (stringRest rest).map (·.2)
    else if c = ascii '{' || c = ascii '[' then skipNested false 1 rest
    else if c = ascii 't' then literal (utf8 "true") (c :: rest)
    else if c = ascii 'f' then literal (utf8 "false") (c :: rest)
    else if c = ascii 'n' then literal (utf8 "null") (c :: rest)
    else if c = ascii '-' || isDigit c then some ((c :: rest).dropWhile isNumberByte)
    else none

/-- The value of `stream`: a literal or nothing the scanner handles. -/
def streamValue (s : Bytes) : Option (Option Bool × Bytes) :=
  match s.head? with
  | none => none
  | some c =>
    if c = ascii 't' then (literal (utf8 "true") s).map fun rest => (some true, rest)
    else if c = ascii 'f' then (literal (utf8 "false") s).map fun rest => (some false, rest)
    else if c = ascii 'n' then (literal (utf8 "null") s).map fun rest => (none, rest)
    else none

/-! Each part of the scanner moves on. -/

theorem ws_length (s : Bytes) : (ws s).length ≤ s.length := (List.dropWhile_sublist _).length_le

theorem stringRest_length : ∀ {s content rest : Bytes},
    stringRest s = some (content, rest) → rest.length < s.length
  | [], _, _, h => by cases h
  | c :: s, content, rest, h => by
    rw [stringRest.eq_def] at h
    dsimp only at h
    split at h
    · cases h
      simp
    · split at h
      · split at h
        · cases h
        next e s' =>
          obtain ⟨⟨content', rest'⟩, hp, hpair⟩ := Option.map_eq_some_iff.mp h
          cases hpair
          have := stringRest_length hp
          simp only [List.length_cons]
          omega
      · obtain ⟨⟨content', rest'⟩, hp, hpair⟩ := Option.map_eq_some_iff.mp h
        cases hpair
        have := stringRest_length hp
        simp only [List.length_cons]
        omega

theorem stringToken_length {s content rest : Bytes} (h : stringToken s = some (content, rest)) :
    rest.length < s.length := by
  cases s with
  | nil => cases h
  | cons c s =>
    simp only [stringToken] at h
    split at h
    · have := stringRest_length h
      simp only [List.length_cons]
      omega
    · cases h

theorem literal_length {lit s rest : Bytes} (h : literal lit s = some rest) :
    rest.length ≤ s.length := by
  unfold literal at h
  split at h
  · cases h
    rw [List.length_drop]
    omega
  · cases h

theorem skipNested_length : ∀ {inString : Bool} {depth : Nat} {s rest : Bytes},
    skipNested inString depth s = some rest → rest.length < s.length
  | _, _, [], _, h => by
    rw [skipNested.eq_def] at h
    cases h
  | false, depth, c :: s, rest, h => by
    rw [skipNested.eq_def] at h
    dsimp only at h
    rw [List.length_cons, Nat.lt_succ_iff]
    split_ifs at h
    · exact (skipNested_length h).le
    · cases h
      exact le_refl _
    · exact (skipNested_length h).le
    · exact (skipNested_length h).le
    · exact (skipNested_length h).le
  | true, depth, c :: s, rest, h => by
    rw [skipNested.eq_def] at h
    dsimp only at h
    rw [List.length_cons, Nat.lt_succ_iff]
    split_ifs at h
    · exact (skipNested_length h).le
    · split at h
      · cases h
      next e s' =>
        have := skipNested_length h
        simp only [List.length_cons]
        omega
    · exact (skipNested_length h).le

theorem skipValue_length {s rest : Bytes} (h : skipValue s = some rest) :
    rest.length ≤ s.length := by
  cases s with
  | nil => cases h
  | cons c s =>
    simp only [skipValue] at h
    split_ifs at h
    · obtain ⟨⟨content, rest'⟩, hp, rfl⟩ := Option.map_eq_some_iff.mp h
      have := stringRest_length hp
      simp only [List.length_cons]
      omega
    · have := skipNested_length h
      simp only [List.length_cons]
      omega
    · exact literal_length h
    · exact literal_length h
    · exact literal_length h
    · cases h
      exact (List.dropWhile_sublist _).length_le

theorem streamValue_length {s rest : Bytes} {b : Option Bool}
    (h : streamValue s = some (b, rest)) : rest.length ≤ s.length := by
  unfold streamValue at h
  cases hhead : s.head? with
  | none =>
    rw [hhead] at h
    cases h
  | some c =>
    rw [hhead] at h
    dsimp only at h
    split_ifs at h
    all_goals
      obtain ⟨rest', hp, hpair⟩ := Option.map_eq_some_iff.mp h
      cases hpair
      exact literal_length hp

/-- A string token: what was left of the body at its start and after its
end. -/
structure Token where
  start : Bytes
  stop : Bytes
  ordered : stop.length ≤ start.length

/-- `string_token`, for its span. -/
def token (s : Bytes) : Option Token :=
  match h : stringToken s with
  | none => none
  | some (_, rest) => some ⟨s, rest, (stringToken_length h).le⟩

theorem token_length {s : Bytes} {t : Token} (h : token s = some t) :
    t.stop.length < s.length := by
  unfold token at h
  split at h
  · cases h
  next content rest hs =>
    cases h
    exact stringToken_length hs

/-- What one member says. -/
inductive Field where
  | model (t : Token)
  | stream (b : Option Bool)
  | other

/-- One `"key": value` member. -/
def member (s : Bytes) : Option (Field × Bytes) := do
  let (key, s) ← stringToken (ws s)
  -- An escaped key is for the full parser to decide.
  if key.contains (ascii '\\') then none
  match ws s with
  | [] => none
  | c :: s =>
    if c ≠ ascii ':' then none
    else
      let s := ws s
      if key = utf8 "model" then
        let t ← token s
        return (.model t, t.stop)
      else if key = utf8 "stream" then
        let (b, rest) ← streamValue s
        return (.stream b, rest)
      else
        let rest ← skipValue s
        return (.other, rest)

theorem member_length {s rest : Bytes} {f : Field} (h : member s = some (f, rest)) :
    rest.length < s.length := by
  unfold member at h
  obtain ⟨⟨key, s₁⟩, hkey, h⟩ := Option.bind_eq_some_iff.mp h
  have hs₁ := stringToken_length hkey
  have hs := ws_length s
  have hws₁ := ws_length s₁
  dsimp only at h
  split at h
  · cases h
  · cases hcolon : ws s₁ with
    | nil =>
      rw [hcolon] at h
      cases h
    | cons c s₂ =>
      rw [hcolon] at h hws₁
      simp only [List.length_cons] at hws₁
      have hws₂ := ws_length s₂
      dsimp only [bind, Option.bind] at h
      split_ifs at h
      · obtain ⟨t, hp, h⟩ := Option.bind_eq_some_iff.mp h
        have := token_length hp
        cases h
        omega
      · obtain ⟨⟨b, rest'⟩, hp, h⟩ := Option.bind_eq_some_iff.mp h
        have := streamValue_length hp
        cases h
        show rest'.length < s.length
        omega
      · obtain ⟨rest', hp, h⟩ := Option.bind_eq_some_iff.mp h
        have := skipValue_length hp
        cases h
        omega

/-- What the loop over the members has found. -/
structure Found where
  model : Option Token
  stream : Option Bool

/-- The last of several equal keys wins. -/
def Found.add (found : Found) : Field → Found
  | .model t => { found with model := some t }
  | .stream b => { found with stream := b }
  | .other => found

/-- The loop of `probe`, up to the closing brace. -/
def members (found : Found) (s : Bytes) : Option (Found × Bytes) :=
  match _h : member s with
  | none => none
  | some (field, rest) =>
    match _h' : ws rest with
    | [] => none
    | c :: rest' =>
      if c = ascii ',' then members (found.add field) rest'
      else if c = ascii '}' then some (found.add field, rest')
      else none
termination_by s.length
decreasing_by
  have hmember := member_length _h
  have hws := ws_length rest
  rw [_h', List.length_cons] at hws
  omega

end Scanner

/-- A JSON string token as text, `from_slice::<String>`. -/
def stringFromSlice (text : Bytes) : Option String :=
  match parse text with
  | some (.string s) => decodeString s
  | _ => none

/-- `probe`. -/
def probe (body : Bytes) : Option Probe := do
  let s := Scanner.ws body
  if s.head? ≠ some (ascii '{') then none
  let s := Scanner.ws s.tail
  if s.head? = some (ascii '}') then none
  let (found, rest) ← Scanner.members ⟨none, none⟩ s
  -- Trailing content: not a single JSON document.
  if Scanner.ws rest ≠ [] then none
  let t ← found.model
  let span := (body.length - t.start.length, body.length - t.stop.length)
  let model ← stringFromSlice ((body.take span.2).drop span.1)
  return ⟨model, span, found.stream⟩

/-- `splice_model`; slicing outside the body panics. -/
def spliceModel (body : Bytes) (span : Nat × Nat) (newModel : String) : Option Bytes :=
  if span.1 ≤ span.2 ∧ span.2 ≤ body.length then
    some (body.take span.1 ++ printString newModel ++ body.drop span.2)
  else none

/-- The span a probe reports can be sliced by. -/
theorem probe_span_le {body : Bytes} {p : Probe} (h : probe body = some p) :
    p.modelSpan.1 ≤ p.modelSpan.2 ∧ p.modelSpan.2 ≤ body.length := by
  unfold probe at h
  dsimp only at h
  split at h
  · cases h
  · split at h
    · cases h
    · obtain ⟨⟨found, rest⟩, _, h⟩ := Option.bind_eq_some_iff.mp h
      dsimp only at h
      split at h
      · cases h
      · obtain ⟨t, _, h⟩ := Option.bind_eq_some_iff.mp h
        obtain ⟨model, _, h⟩ := Option.bind_eq_some_iff.mp h
        cases h
        have := t.ordered
        dsimp only
        omega

end RapidRouter.Core
