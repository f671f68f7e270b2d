import RapidRouter.Core.Splice

/-!
# The scanner and the full parser

What a probe reports is what the full parser finds, as long as every key and
every value the scanner walked over can be read on its own: it skips a value
without looking into it. So a successful probe agrees with the full parser on a
body exactly when each of its members is readable (`probe_agrees`), and a body
that was serialised is scanned to its end (`probe_print`).
-/

namespace RapidRouter.Core

open Json

namespace Scanner

/-! ## What the parser finds -/

/-- A member both of whose parts the full parser takes, one level down. -/
def Entry.Readable (e : Entry) : Prop :=
  contentOk 0 e.key = true ∧ (decodeString e.key).isSome = true ∧
    ((parse e.text).bind (Raw.toValue (depthLimit - 1))).isSome = true

theorem readAll_isSome {es : List Entry} :
    (readAll es).isSome = true ↔ ∀ e ∈ es, e.read.isSome = true := by
  induction es with
  | nil => exact ⟨(fun _ _ h => nomatch h), fun _ => rfl⟩
  | cons e es ih =>
    rw [readAll_cons, List.forall_mem_cons, ← ih]
    cases e.read with
    | none => simp
    | some m => simp

theorem toMembers_isSome {depth : Nat} (ms : List (Bytes × Raw)) (acc : List (String × Value)) :
    (Raw.toMembers depth acc ms).isSome = true ↔
      ∀ m ∈ ms, (decodeString m.1).isSome = true ∧ (m.2.toValue depth).isSome = true := by
  induction ms generalizing acc with
  | nil => exact ⟨(fun _ _ h => nomatch h), fun _ => rfl⟩
  | cons m ms ih =>
    obtain ⟨k, r⟩ := m
    rw [toMembers_cons, List.forall_mem_cons]
    cases decodeString k with
    | none => simp
    | some key =>
      cases r.toValue depth with
      | none => simp
      | some v =>
        rw [Option.bind_some, Option.bind_some, ih]
        exact ⟨fun h => ⟨⟨rfl, rfl⟩, h⟩, fun h => h.2⟩

theorem readable_iff {e : Entry} {m : Bytes × Raw} (h : e.read = some m) : e.Readable ↔
    (decodeString m.1).isSome = true ∧ (m.2.toValue (depthLimit - 1)).isSome = true := by
  unfold Entry.read at h
  split at h
  · next hok =>
    obtain ⟨v, hv, rfl⟩ := Option.map_eq_some_iff.mp h
    unfold Entry.Readable
    rw [hok, hv]
    exact ⟨fun h => h.2, fun h => ⟨rfl, h⟩⟩
  · cases h

theorem Entry.Readable.read {e : Entry} (h : e.Readable) : e.read.isSome = true := by
  unfold Entry.read
  rw [if_pos h.1, Option.isSome_map]
  cases hparse : parse e.text with
  | none =>
    have hvalue := h.2.2
    rw [hparse] at hvalue
    cases hvalue
  | some v => rfl

theorem mem_readAll : ∀ {es : List Entry} {ms : List (Bytes × Raw)}, readAll es = some ms →
    (∀ e ∈ es, ∃ m ∈ ms, e.read = some m) ∧ ∀ m ∈ ms, ∃ e ∈ es, e.read = some m
  | [], ms, h => by
    cases h
    exact ⟨(fun _ he => nomatch he), (fun _ hm => nomatch hm)⟩
  | e :: es, ms, h => by
    rw [readAll_cons] at h
    obtain ⟨m, hm, h⟩ := Option.bind_eq_some_iff.mp h
    obtain ⟨ms', hms', rfl⟩ := Option.map_eq_some_iff.mp h
    obtain ⟨hes, hmem⟩ := mem_readAll hms'
    constructor
    · intro e' he'
      rcases List.mem_cons.mp he' with rfl | he'
      · exact ⟨m, List.mem_cons_self, hm⟩
      · obtain ⟨m', hm', hread⟩ := hes e' he'
        exact ⟨m', List.mem_cons_of_mem _ hm', hread⟩
    · intro m' hm'
      rcases List.mem_cons.mp hm' with rfl | hm'
      · exact ⟨e, List.mem_cons_self, hm⟩
      · obtain ⟨e', he', hread⟩ := hmem m' hm'
        exact ⟨e', List.mem_cons_of_mem _ he', hread⟩

/-- Members are an object when each can be read. -/
theorem object_isSome (es : List Entry) :
    ((readAll es).bind fun ms => Raw.toMembers (depthLimit - 1) [] ms).isSome = true ↔
      ∀ e ∈ es, e.Readable := by
  cases hms : readAll es with
  | none =>
    refine ⟨fun h => (by cases h), fun h => ?_⟩
    have hsome := readAll_isSome.mpr fun e he => (h e he).read
    rw [hms] at hsome
    cases hsome
  | some ms =>
    obtain ⟨hes, hmem⟩ := mem_readAll hms
    rw [Option.bind_some, toMembers_isSome]
    constructor
    · intro h e he
      obtain ⟨m, hm, hread⟩ := hes e he
      exact (readable_iff hread).mpr (h m hm)
    · intro h m hm
      obtain ⟨e, he, hread⟩ := hmem m hm
      exact (readable_iff hread).mp (h e he)

/-- The last of the members of one key is what the object holds. -/
theorem find?_last {depth : Nat} {ms₁ ms₂ : List (Bytes × Raw)} {k : Bytes} {key : String} {r : Raw}
    {v : Value} {vs : List (String × Value)} (hk : decodeString k = some key)
    (hms₂ : ∀ m ∈ ms₂, decodeString m.1 ≠ some key) (hr : r.toValue depth = some v)
    (h : Raw.toMembers depth [] (ms₁ ++ (k, r) :: ms₂) = some vs) :
    Entries.find? key vs = some v := by
  have hagain := toValue_replace hk hms₂ hr h
  rw [h, Option.some.injEq] at hagain
  rw [hagain, Entries.find?_insert, if_pos rfl]

/-- An object has no member that no key names. -/
theorem find?_absent {depth : Nat} {key : String} {ms : List (Bytes × Raw)}
    (hms : ∀ m ∈ ms, decodeString m.1 ≠ some key) {acc vs : List (String × Value)}
    (h : Raw.toMembers depth acc ms = some vs) : Entries.find? key vs = Entries.find? key acc := by
  induction ms generalizing acc with
  | nil =>
    cases h
    rfl
  | cons m ms ih =>
    obtain ⟨k, r⟩ := m
    rw [toMembers_cons] at h
    obtain ⟨key', hkey', h⟩ := Option.bind_eq_some_iff.mp h
    obtain ⟨v, hv, h⟩ := Option.bind_eq_some_iff.mp h
    have hne : key ≠ key' := by
      intro hsame
      exact hms (k, r) List.mem_cons_self (hkey'.trans (congrArg some hsame.symm))
    rw [ih (fun m hm => hms m (List.mem_cons_of_mem _ hm)) h, Entries.find?_insert, if_neg hne]

/-- The stream flag the loop ends with is that of the last member of this key,
or was there before. -/
theorem Walk.stream {found found' : Found} {s rest : Bytes} {es : List Entry}
    (h : Walk found s es found' rest) :
    (∃ es₁ e es₂, es = es₁ ++ e :: es₂ ∧ e.key = utf8 "stream" ∧
      (∀ e' ∈ es₂, e'.key ≠ utf8 "stream") ∧ parse e.text = some (found'.stream.elim .null .bool)) ∨
      (found'.stream = found.stream ∧ ∀ e ∈ es, e.key ≠ utf8 "stream") := by
  induction h with
  | @last found e f rest hcut htold =>
    cases htold with
    | model t hkey hstart hstop content hcontent hquoted =>
      refine Or.inr ⟨rfl, fun e' he' => ?_⟩
      rw [List.mem_singleton.mp he', hkey]
      decide
    | stream b hkey hparse =>
      exact Or.inl ⟨[], e, [], rfl, hkey, (fun _ h => nomatch h), hparse⟩
    | other hmodel hstream =>
      refine Or.inr ⟨rfl, fun e' he' => ?_⟩
      rw [List.mem_singleton.mp he']
      exact hstream
  | @next found found' e es f s rest hcut htold hwalk ih =>
    rcases ih with ⟨es₁, e', es₂, hes, hkey, hlater, hparse⟩ | ⟨hsame, hnone⟩
    · exact Or.inl ⟨e :: es₁, e', es₂, by rw [hes]; rfl, hkey, hlater, hparse⟩
    · cases htold with
      | model t hkey hstart hstop content hcontent hquoted =>
        refine Or.inr ⟨hsame, List.forall_mem_cons.mpr ⟨?_, hnone⟩⟩
        rw [hkey]
        decide
      | stream b hkey hparse =>
        refine Or.inl ⟨[], e, es, rfl, hkey, hnone, ?_⟩
        rw [hsame]
        exact hparse
      | other hmodel hstream => exact Or.inr ⟨hsame, List.forall_mem_cons.mpr ⟨hstream, hnone⟩⟩

/-- A split of the members, carried over to what they are read as. -/
theorem readAll_split {es₁ es₂ : List Entry} {e : Entry} {ms : List (Bytes × Raw)}
    (h : readAll (es₁ ++ e :: es₂) = some ms) : ∃ ms₁ m ms₂, ms = ms₁ ++ m :: ms₂ ∧
      readAll es₁ = some ms₁ ∧ e.read = some m ∧ readAll es₂ = some ms₂ := by
  rw [readAll_append] at h
  obtain ⟨ms₁, hms₁, h⟩ := Option.bind_eq_some_iff.mp h
  obtain ⟨ms', hms', rfl⟩ := Option.map_eq_some_iff.mp h
  rw [readAll_cons] at hms'
  obtain ⟨m, hm, hms'⟩ := Option.bind_eq_some_iff.mp hms'
  obtain ⟨ms₂, hms₂, rfl⟩ := Option.map_eq_some_iff.mp hms'
  exact ⟨ms₁, m, ms₂, rfl, hms₁, hm, hms₂⟩

/-- No member of these has a key that none of the entries has. -/
theorem decodeString_ne {es : List Entry} (hcut : ∀ e ∈ es, e.Cut) {key : String}
    (hkey : ∀ e ∈ es, e.key ≠ utf8 key) {ms : List (Bytes × Raw)} (h : readAll es = some ms) :
    ∀ m ∈ ms, decodeString m.1 ≠ some key := by
  intro m hm hdecoded
  obtain ⟨e, he, hsame⟩ := readAll_keys h m hm
  rw [← hsame, decodeString_plain (hcut e he).unescaped] at hdecoded
  exact hkey e he hdecoded

theorem read_eq {e : Entry} {m : Bytes × Raw} (h : e.read = some m) :
    m.1 = e.key ∧ parse e.text = some m.2 := by
  unfold Entry.read at h
  split at h
  · obtain ⟨v, hv, rfl⟩ := Option.map_eq_some_iff.mp h
    exact ⟨rfl, hv⟩
  · cases h

/-- What the object holds under the key of the last of its members. -/
theorem find?_member {es₁ es₂ : List Entry} {e : Entry} {key : String} {r : Raw} {v : Value}
    {ms : List (Bytes × Raw)} {vs : List (String × Value)}
    (hcut : ∀ e' ∈ es₁ ++ e :: es₂, e'.Cut) (hkey : e.key = utf8 key)
    (hlater : ∀ e' ∈ es₂, e'.key ≠ utf8 key) (hparse : parse e.text = some r)
    (hvalue : r.toValue (depthLimit - 1) = some v) (hms : readAll (es₁ ++ e :: es₂) = some ms)
    (hvs : Raw.toMembers (depthLimit - 1) [] ms = some vs) : Entries.find? key vs = some v := by
  obtain ⟨ms₁, ⟨k, r'⟩, ms₂, rfl, -, hm, hms₂⟩ := readAll_split hms
  obtain ⟨rfl, hr⟩ := read_eq hm
  rw [hparse, Option.some.injEq] at hr
  subst hr
  have hunescaped := (hcut e (List.mem_append_right _ List.mem_cons_self)).unescaped
  have hcut₂ : ∀ e' ∈ es₂, e'.Cut :=
    fun e' he' => hcut e' (List.mem_append_right _ (List.mem_cons_of_mem _ he'))
  exact find?_last ((decodeString_plain hunescaped).mpr hkey)
    (decodeString_ne hcut₂ hlater hms₂) hvalue hvs

end Scanner

open Scanner

/-- The full parser finds an object there, with the model and the flag of the
probe. -/
def Agrees (body : Bytes) (p : Probe) : Prop :=
  ∃ members, fromSlice body = some (.object members) ∧
    Entries.find? "model" members = some (.string p.model) ∧
    (Entries.find? "stream" members).bind Value.asBool = p.stream

theorem Scanner.Probed.fromSlice {body : Bytes} {p : Probe} (h : Probed body p) :
    Json.fromSlice body = ((readAll h.entries).bind fun ms =>
      Raw.toMembers (depthLimit - 1) [] ms).map .object := by
  unfold Json.fromSlice
  rw [h.parse]
  cases readAll h.entries with
  | none => rfl
  | some ms =>
    show Raw.toValue depthLimit (.object ms) = _
    unfold Raw.toValue
    exact if_neg (by decide)

/-- A token by what is left of the body at its start and after its end. -/
theorem slice_suffix {body text stop : Bytes} (h : text ++ stop <:+ body) :
    (body.take (body.length - stop.length)).drop (body.length - (text ++ stop).length) = text := by
  obtain ⟨left, rfl⟩ := h
  have hfrom : (left ++ (text ++ stop)).length - (text ++ stop).length = left.length := by
    rw [List.length_append]
    omega
  have hto : (left ++ (text ++ stop)).length - stop.length = (left ++ text).length := by
    simp only [List.length_append]
    omega
  rw [hfrom, hto, ← List.append_assoc, List.take_left, List.drop_left]

/-- The text of the model, as the probe reads it. -/
theorem Scanner.Probed.token_text {body : Bytes} {p : Probe} (h : Probed body p) {text : Bytes}
    (hstart : h.token.start = text ++ h.token.stop) (hsuffix : h.token.start <:+ body) :
    stringFromSlice text = some p.model := by
  have htext := h.text
  rw [hstart] at hsuffix
  rw [h.span, hstart] at htext
  dsimp only at htext
  rw [slice_suffix hsuffix] at htext
  exact htext

/-- A successful probe agrees with the full parser just when every member it
walked over can be read. -/
theorem Scanner.Probed.agrees_iff {body : Bytes} {p : Probe} (h : Probed body p) :
    Agrees body p ↔ ∀ e ∈ h.entries, e.Readable := by
  rw [← object_isSome]
  constructor
  · rintro ⟨members, hmembers, -, -⟩
    rw [h.fromSlice] at hmembers
    obtain ⟨vs, hvs, -⟩ := Option.map_eq_some_iff.mp hmembers
    rw [hvs]
    rfl
  · intro hsome
    obtain ⟨vs, hvs⟩ := Option.isSome_iff_exists.mp hsome
    refine ⟨vs, by rw [h.fromSlice, hvs]; rfl, ?_, ?_⟩
    · obtain ⟨ms, hms, hvs⟩ := Option.bind_eq_some_iff.mp hvs
      obtain ⟨-, hcut, -⟩ := h.walk.cut
      obtain ⟨es₁, e, es₂, hes, hkey, hlater, -, hstart, hrender⟩ := h.located.found
      have hsuffix : h.token.start <:+ body := by
        refine ⟨h.start ++ ascii '{' :: (h.inner ++ front es₁ e), ?_⟩
        refine Eq.trans ?_ h.body_eq.symm
        unfold bodyOf
        rw [hes, show es₁ ++ e :: es₂ = es₁ ++ e.withText e.text :: es₂ from rfl,
          hrender e.text, ← hstart]
        simp only [List.append_assoc, List.cons_append]
      have htext := h.token_text hstart hsuffix
      unfold stringFromSlice at htext
      split at htext
      · next s hparse =>
        rw [hes] at hms hcut
        refine find?_member hcut hkey hlater hparse ?_ hms hvs
        unfold Raw.toValue
        rw [htext]
        rfl
      · cases htext
    · obtain ⟨ms, hms, hvs⟩ := Option.bind_eq_some_iff.mp hvs
      obtain ⟨-, hcut, -⟩ := h.walk.cut
      rw [h.stream]
      rcases h.walk.stream with ⟨es₁, e, es₂, hes, hkey, hlater, hparse⟩ | ⟨hnone, habsent⟩
      · rw [hes] at hms hcut
        have hvalue : Raw.toValue (depthLimit - 1) (h.found.stream.elim .null .bool) =
            some (h.found.stream.elim .null .bool) := by
          cases h.found.stream <;> rfl
        rw [find?_member hcut hkey hlater hparse hvalue hms hvs]
        cases h.found.stream <;> rfl
      · rw [find?_absent (decodeString_ne hcut habsent hms) hvs, hnone]
        rfl

/-! ## Bodies that were serialised -/

namespace Scanner

theorem stringRest_escapeByte (c : UInt8) (s : Bytes) : stringRest (escapeByte c ++ s) =
    (stringRest s).map fun p => (escapeByte c ++ p.1, p.2) := by
  unfold escapeByte
  split_ifs with h1 h2 h3 h4 h5 h6 h7 h8
  · exact stringRest_escape _ s
  · exact stringRest_escape _ s
  · exact stringRest_escape _ s
  · exact stringRest_escape _ s
  · exact stringRest_escape _ s
  · exact stringRest_escape _ s
  · exact stringRest_escape _ s
  · have hhigh := hexVal_ne (isSome_hexVal_hexDigit (n := c.toNat / 16) (by have := c.toNat_lt; omega))
    have hlow := hexVal_ne (isSome_hexVal_hexDigit (n := c.toNat % 16) (by omega))
    show stringRest (ascii '\\' :: ascii 'u' :: ascii '0' :: ascii '0' :: hexDigit (c.toNat / 16) ::
      hexDigit (c.toNat % 16) :: s) = _
    rw [stringRest_escape, stringRest_cons (by decide) (by decide),
      stringRest_cons (by decide) (by decide), stringRest_cons hhigh.1 hhigh.2,
      stringRest_cons hlow.1 hlow.2]
    simp only [Option.map_map]
    rfl
  · exact stringRest_cons h1 h2 s

theorem stringRest_escape_text (s : String) (rest : Bytes) :
    stringRest (escape s ++ ascii '"' :: rest) = some (escape s, rest) := by
  unfold escape
  induction utf8 s with
  | nil => exact stringRest_quote rest
  | cons c b ih =>
    rw [List.flatMap_cons, List.append_assoc, stringRest_escapeByte, ih]
    rfl

theorem stringToken_printString (s : String) (rest : Bytes) :
    stringToken (printString s ++ rest) = some (escape s, rest) := by
  have hsplit : printString s ++ rest = ascii '"' :: (escape s ++ ascii '"' :: rest) := by
    unfold printString
    rw [List.cons_append, List.append_assoc]
    rfl
  rw [hsplit]
  show (if ascii '"' = ascii '"' then stringRest (escape s ++ ascii '"' :: rest) else none) = _
  rw [if_pos rfl]
  exact stringRest_escape_text s rest

/-! The scan of brackets over printed text. -/

theorem skipNested_string {depth : Nat} {s content rest : Bytes} (h : Within s content rest) :
    skipNested true depth s = skipNested false depth rest := by
  induction h with
  | quote rest =>
    rw [skipNested.eq_def]
    exact if_pos rfl
  | escape e h ih =>
    rw [skipNested.eq_def]
    exact ih
  | plain hquote hescape h ih =>
    rw [skipNested.eq_def]
    dsimp only
    rw [if_neg hquote, if_neg hescape, ih]

theorem skipNested_printString (depth : Nat) (s : String) (rest : Bytes) :
    skipNested false depth (printString s ++ rest) = skipNested false depth rest := by
  have hsplit : printString s ++ rest = ascii '"' :: (escape s ++ ascii '"' :: rest) := by
    unfold printString
    rw [List.cons_append, List.append_assoc]
    rfl
  rw [hsplit, skipNested.eq_def]
  show skipNested true depth _ = _
  exact skipNested_string (within_of_stringRest (stringRest_escape_text s rest))

/-- Bytes that mean nothing to the scan. -/
theorem skipNested_plain {text : Bytes} (h : ∀ c ∈ text, Plain c) (depth : Nat) (rest : Bytes) :
    skipNested false depth (text ++ rest) = skipNested false depth rest := by
  induction text with
  | nil => rfl
  | cons c text ih =>
    obtain ⟨hquote, -, h1, h2, h3, h4⟩ := h c List.mem_cons_self
    rw [List.cons_append, skipNested.eq_def]
    dsimp only
    rw [if_neg (by simp [h1, h2]), if_neg (by simp [h3, h4]), if_neg hquote]
    exact ih fun d hd => h d (List.mem_cons_of_mem _ hd)

theorem isNumberByte_of_isDigit {c : UInt8} (h : isDigit c = true) : isNumberByte c = true := by
  unfold isNumberByte
  rw [h, Bool.or_true]

theorem isNumberByte_printNat (n : Nat) : ∀ c ∈ printNat n, isNumberByte c = true :=
  fun c hc => isNumberByte_of_isDigit (isDigit_of_mem_printNat n c hc)

theorem isNumberByte_print (n : Number) : ∀ c ∈ n.print, isNumberByte c = true := by
  have hcons : ∀ {c : UInt8} {b : Bytes}, isNumberByte c = true →
      (∀ d ∈ b, isNumberByte d = true) → ∀ d ∈ c :: b, isNumberByte d = true :=
    fun hc hb => List.forall_mem_cons.mpr ⟨hc, hb⟩
  have hfloat : ∀ mantissa exponent, ∀ c ∈ printFloat mantissa exponent, isNumberByte c = true := by
    intro mantissa exponent c hc
    cases exponent with
    | ofNat e =>
      rcases List.mem_append.mp hc with hc | hc
      · exact isNumberByte_printNat mantissa c hc
      · exact hcons (by decide) (isNumberByte_printNat e) c hc
    | negSucc e =>
      rcases List.mem_append.mp hc with hc | hc
      · exact isNumberByte_printNat mantissa c hc
      · exact hcons (by decide) (hcons (by decide) (isNumberByte_printNat (e + 1))) c hc
  cases n with
  | posInt n _ => exact isNumberByte_printNat n
  | negInt n _ _ => exact hcons (by decide) (isNumberByte_printNat n)
  | float neg mantissa exponent _ =>
    intro c hc
    rcases List.mem_append.mp hc with hc | hc
    · cases neg with
      | false => cases hc
      | true => exact List.mem_singleton.mp hc ▸ by decide
    · exact hfloat mantissa exponent c hc

theorem printNat_head (n : Nat) : ∃ c b, printNat n = c :: b ∧ isDigit c = true := by
  cases h : printNat n with
  | nil =>
    rw [printNat_eq] at h
    split at h
    · cases h
    · exact absurd (List.append_eq_nil_iff.mp h).2 (List.cons_ne_nil _ _)
  | cons c b =>
    exact ⟨c, b, rfl, isDigit_of_mem_printNat n c (by rw [h]; exact List.mem_cons_self)⟩

/-- A printed number begins as the scanner wants one to begin. -/
theorem print_head (n : Number) : ∃ c b, n.print = c :: b ∧ (c = ascii '-' ∨ isDigit c = true) := by
  cases n with
  | posInt n _ =>
    obtain ⟨c, b, h, hc⟩ := printNat_head n
    exact ⟨c, b, h, Or.inr hc⟩
  | negInt n _ _ => exact ⟨_, _, rfl, Or.inl rfl⟩
  | float neg mantissa exponent _ =>
    cases neg with
    | true => exact ⟨_, _, rfl, Or.inl rfl⟩
    | false =>
      obtain ⟨c, b, h, hc⟩ := printNat_head mantissa
      cases exponent with
      | ofNat e => exact ⟨c, b ++ ascii 'e' :: printNat e, congrArg (· ++ _) h, Or.inr hc⟩
      | negSucc e =>
        exact ⟨c, b ++ ascii 'e' :: ascii '-' :: printNat (e + 1), congrArg (· ++ _) h, Or.inr hc⟩

theorem plain_of_isNumberByte {c : UInt8} (h : isNumberByte c = true) : Plain c :=
  ⟨numberByte_ne h (by decide), numberByte_ne h (by decide), numberByte_ne h (by decide),
    numberByte_ne h (by decide), numberByte_ne h (by decide), numberByte_ne h (by decide)⟩

/-- A bracket that closes. -/
theorem skipNested_close {c : UInt8} (hc : c = ascii ']' ∨ c = ascii '}') (depth : Nat)
    (rest : Bytes) : skipNested false (depth + 1) (c :: rest) =
      if depth = 0 then some rest else skipNested false depth rest := by
  have hopen : ¬ (c = ascii '{' || c = ascii '[') = true := by
    rcases hc with rfl | rfl <;> decide
  have hclose : (c = ascii '}' || c = ascii ']') = true := by
    rcases hc with rfl | rfl <;> decide
  rw [skipNested.eq_def]
  dsimp only
  rw [if_neg hopen, if_pos hclose]
  by_cases hdepth : depth = 0
  · rw [if_pos hdepth, if_pos (by omega)]
  · rw [if_neg hdepth, if_neg (by omega)]
    rfl

theorem skipNested_open {c : UInt8} (hc : c = ascii '[' ∨ c = ascii '{') (depth : Nat)
    (rest : Bytes) : skipNested false depth (c :: rest) = skipNested false (depth + 1) rest := by
  have hopen : (c = ascii '{' || c = ascii '[') = true := by
    rcases hc with rfl | rfl <;> decide
  rw [skipNested.eq_def]
  exact if_pos hopen

theorem skipNested_cons {c : UInt8} (h : Plain c) (depth : Nat) (rest : Bytes) :
    skipNested false depth (c :: rest) = skipNested false depth rest :=
  skipNested_plain (fun _ hd => List.mem_singleton.mp hd ▸ h) depth rest

theorem plain_comma : Plain (ascii ',') := by
  unfold Plain
  decide

theorem plain_colon : Plain (ascii ':') := by
  unfold Plain
  decide

mutual

/-- A printed value among others is skipped. -/
theorem skipNested_print (depth : Nat) (rest : Bytes) : ∀ v : Value,
    skipNested false (depth + 1) (v.print ++ rest) = skipNested false (depth + 1) rest
  | .null => skipNested_plain (by unfold Plain; decide) _ rest
  | .bool true => skipNested_plain (by unfold Plain; decide) _ rest
  | .bool false => skipNested_plain (by unfold Plain; decide) _ rest
  | .number n => skipNested_plain (fun c hc => plain_of_isNumberByte (isNumberByte_print n c hc)) _ rest
  | .string s => skipNested_printString _ s rest
  | .array items => by
    rw [skipNested_array (depth + 1) rest items]
    exact if_neg (Nat.succ_ne_zero depth)
  | .object members => by
    rw [skipNested_object (depth + 1) rest members]
    exact if_neg (Nat.succ_ne_zero depth)

/-- A printed array, whatever is open around it. -/
theorem skipNested_array (depth : Nat) (rest : Bytes) : ∀ items : List Value,
    skipNested false depth ((Value.array items).print ++ rest) =
      if depth = 0 then some rest else skipNested false depth rest
  | [] => by
    show skipNested false depth (ascii '[' :: ascii ']' :: rest) = _
    rw [skipNested_open (Or.inl rfl), skipNested_close (Or.inl rfl)]
  | v :: items => by
    show skipNested false depth (ascii '[' :: (v.print ++ Value.printItems items ++ rest)) = _
    rw [skipNested_open (Or.inl rfl), List.append_assoc, skipNested_print,
      skipNested_printItems]

theorem skipNested_printItems (depth : Nat) (rest : Bytes) : ∀ items : List Value,
    skipNested false (depth + 1) (Value.printItems items ++ rest) =
      if depth = 0 then some rest else skipNested false depth rest
  | [] => skipNested_close (Or.inl rfl) depth rest
  | v :: items => by
    show skipNested false (depth + 1) (ascii ',' :: (v.print ++ Value.printItems items ++ rest)) = _
    rw [skipNested_cons plain_comma, List.append_assoc, skipNested_print, skipNested_printItems]

/-- A printed object, whatever is open around it. -/
theorem skipNested_object (depth : Nat) (rest : Bytes) : ∀ members : List (String × Value),
    skipNested false depth ((Value.object members).print ++ rest) =
      if depth = 0 then some rest else skipNested false depth rest
  | [] => by
    show skipNested false depth (ascii '{' :: ascii '}' :: rest) = _
    rw [skipNested_open (Or.inr rfl), skipNested_close (Or.inr rfl)]
  | (k, v) :: members => by
    show skipNested false depth (ascii '{' ::
      (printString k ++ ascii ':' :: (v.print ++ Value.printMembers members) ++ rest)) = _
    rw [skipNested_open (Or.inr rfl), List.append_assoc, skipNested_printString, List.cons_append,
      skipNested_cons plain_colon, List.append_assoc, skipNested_print, skipNested_printMembers]

theorem skipNested_printMembers (depth : Nat) (rest : Bytes) : ∀ members : List (String × Value),
    skipNested false (depth + 1) (Value.printMembers members ++ rest) =
      if depth = 0 then some rest else skipNested false depth rest
  | [] => skipNested_close (Or.inr rfl) depth rest
  | (k, v) :: members => by
    show skipNested false (depth + 1) (ascii ',' ::
      (printString k ++ ascii ':' :: (v.print ++ Value.printMembers members) ++ rest)) = _
    rw [skipNested_cons plain_comma, List.append_assoc, skipNested_printString, List.cons_append,
      skipNested_cons plain_colon, List.append_assoc, skipNested_print, skipNested_printMembers]

end

/-- What `skip_value` skips of printed text is one value. -/
theorem skipValue_print (v : Value) {c : UInt8} (hc : isNumberByte c = false) (rest : Bytes) :
    skipValue (v.print ++ c :: rest) = some (c :: rest) := by
  cases v with
  | null => rfl
  | bool b => cases b <;> rfl
  | number n =>
    obtain ⟨d, b, hprint, hd⟩ := print_head n
    have hall := isNumberByte_print n
    show skipValue (n.print ++ c :: rest) = _
    have hdrop : (n.print ++ c :: rest).dropWhile isNumberByte = c :: rest := by
      rw [List.dropWhile_append_of_pos hall, List.dropWhile_cons_of_neg (by rw [hc]; decide)]
    rw [hprint] at hdrop ⊢
    rw [List.cons_append] at hdrop ⊢
    have hdigit : ∀ x : Char, isNumberByte (ascii x) = false → d ≠ ascii x := by
      intro x hx
      exact numberByte_ne (hall d (by rw [hprint]; exact List.mem_cons_self)) hx
    have hstart : (d = ascii '-' || isDigit d) = true := by
      rw [Bool.or_eq_true, decide_eq_true_iff]
      exact hd
    have hbracket : ¬ (d = ascii '{' || d = ascii '[') = true := by
      simp [hdigit '{' (by decide), hdigit '[' (by decide)]
    unfold skipValue
    dsimp only
    rw [if_neg (hdigit '"' (by decide)), if_neg hbracket, if_neg (hdigit 't' (by decide)),
      if_neg (hdigit 'f' (by decide)), if_neg (hdigit 'n' (by decide)), if_pos hstart, hdrop]
  | string s =>
    have hsplit : printString s ++ c :: rest =
        ascii '"' :: (escape s ++ ascii '"' :: c :: rest) := by
      unfold printString
      rw [List.cons_append, List.append_assoc]
      rfl
    show skipValue (printString s ++ c :: rest) = _
    rw [hsplit]
    show (stringRest (escape s ++ ascii '"' :: c :: rest)).map (·.2) = _
    rw [stringRest_escape_text]
    rfl
  | array items =>
    have hskip := skipNested_array 0 (c :: rest) items
    rw [if_pos rfl] at hskip
    cases items with
    | nil => exact (skipNested_open (Or.inl rfl) 0 _).symm.trans hskip
    | cons v items => exact (skipNested_open (Or.inl rfl) 0 _).symm.trans hskip
  | object members =>
    have hskip := skipNested_object 0 (c :: rest) members
    rw [if_pos rfl] at hskip
    cases members with
    | nil => exact (skipNested_open (Or.inr rfl) 0 _).symm.trans hskip
    | cons m members => exact (skipNested_open (Or.inr rfl) 0 _).symm.trans hskip

theorem ws_cons {c : UInt8} (h : isWs c = false) (s : Bytes) : ws (c :: s) = c :: s :=
  List.dropWhile_cons_of_neg (by rw [h]; decide)

/-- Nothing printed begins with white space. -/
theorem ws_print (v : Value) (rest : Bytes) : ws (v.print ++ rest) = v.print ++ rest := by
  cases v with
  | null => rfl
  | bool b => cases b <;> rfl
  | number n =>
    obtain ⟨d, b, hprint, hd⟩ := print_head n
    have hnumber := isNumberByte_print n d (by rw [hprint]; exact List.mem_cons_self)
    have hws : isWs d = false := by
      by_contra h
      rw [isNumberByte_ws (Bool.not_eq_false _ ▸ h)] at hnumber
      cases hnumber
    show ws (n.print ++ rest) = n.print ++ rest
    rw [hprint]
    exact ws_cons hws _
  | string s => exact ws_cons (by decide) _
  | array items => cases items <;> exact ws_cons (by decide) _
  | object members => cases members <;> exact ws_cons (by decide) _

/-- Text that is printed as it stands. -/
def Unescaped (s : String) : Prop := ∀ c ∈ utf8 s, escapeByte c = [c]

theorem escape_eq {s : String} (h : Unescaped s) : escape s = utf8 s := by
  have hplain : ∀ b : Bytes, (∀ c ∈ b, escapeByte c = [c]) → b.flatMap escapeByte = b := by
    intro b hb
    induction b with
    | nil => rfl
    | cons c b ih =>
      rw [List.flatMap_cons, hb c List.mem_cons_self, ih fun d hd => hb d (List.mem_cons_of_mem _ hd)]
      rfl
  exact hplain _ h

/-- A member as it is printed, such as the scanner takes it. -/
structure Fit (k : String) (v : Value) : Prop where
  key : Unescaped k
  model : k = "model" → ∃ m, v = .string m
  stream : k = "stream" → v = .null ∨ ∃ b, v = .bool b

theorem utf8_injective {a b : String} (h : utf8 a = utf8 b) : a = b := by
  have h' := congrArg fromUtf8? h
  rw [fromUtf8?_utf8, fromUtf8?_utf8] at h'
  exact Option.some.inj h'

theorem token_printString (m : String) (rest : Bytes) :
    ∃ t, token (printString m ++ rest) = some t ∧ t.start = printString m ++ rest ∧ t.stop = rest := by
  unfold token
  split
  · next hnone =>
    rw [stringToken_printString] at hnone
    cases hnone
  · next content rest' hsome =>
    rw [stringToken_printString] at hsome
    cases hsome
    exact ⟨_, rfl, rfl, rfl⟩

/-- A printed `stream`. -/
theorem streamValue_print {v : Value} (h : v = .null ∨ ∃ b, v = .bool b) (rest : Bytes) :
    ∃ b, streamValue (v.print ++ rest) = some (b, rest) := by
  rcases h with rfl | ⟨b, rfl⟩
  · exact ⟨none, rfl⟩
  · cases b with
    | false => exact ⟨some false, rfl⟩
    | true => exact ⟨some true, rfl⟩

/-- What the scanner says of a printed member. -/
theorem member_print {k : String} {v : Value} (h : Fit k v) {c : UInt8}
    (hc : isNumberByte c = false) (rest : Bytes) :
    ∃ f, member (printString k ++ ascii ':' :: (v.print ++ c :: rest)) = some (f, c :: rest) ∧
      (k = "model" → ∃ t, f = .model t) ∧
      ∀ t, f = .model t → ∃ m, t.start = printString m ++ t.stop ∧ t.start = v.print ++ c :: rest := by
  have hkey : stringToken (ws (printString k ++ ascii ':' :: (v.print ++ c :: rest))) =
      some (utf8 k, ascii ':' :: (v.print ++ c :: rest)) := by
    rw [show ws (printString k ++ ascii ':' :: (v.print ++ c :: rest)) = _ from ws_cons (by decide) _,
      ← escape_eq h.key]
    exact stringToken_printString k _
  have hescape : (utf8 k).contains (ascii '\\') = false := by
    rw [Bool.eq_false_iff, ne_eq, List.contains_iff_mem]
    intro hmem
    exact absurd (h.key _ hmem) (by decide)
  unfold member
  rw [hkey]
  dsimp only [bind, Option.bind]
  rw [hescape, ws_cons (by decide)]
  dsimp only
  rw [ws_print, if_neg (by decide), if_neg (by decide)]
  by_cases hmodel : utf8 k = utf8 "model"
  · obtain ⟨m, rfl⟩ := h.model (utf8_injective hmodel)
    obtain ⟨t, ht, hstart, hstop⟩ := token_printString m (c :: rest)
    refine ⟨.model t, ?_, fun _ => ⟨t, rfl⟩, ?_⟩
    · rw [if_pos hmodel, show (Value.string m).print = printString m from rfl, ht, ← hstop]
      rfl
    · intro t' ht'
      cases ht'
      exact ⟨m, by rw [hstart, hstop], hstart⟩
  · rw [if_neg hmodel]
    have hne : k = "model" → False := fun hk => hmodel (congrArg utf8 hk)
    by_cases hstream : utf8 k = utf8 "stream"
    · obtain ⟨b, hb⟩ := streamValue_print (h.stream (utf8_injective hstream)) (c :: rest)
      refine ⟨.stream b, ?_, fun hk => absurd hk hne, fun t ht => (by cases ht)⟩
      rw [if_pos hstream, hb]
      rfl
    · refine ⟨.other, ?_, fun hk => absurd hk hne, fun t ht => (by cases ht)⟩
      rw [if_neg hstream, skipValue_print v hc]
      rfl

/-- The members of a printed object, after its opening brace. -/
def printed : List (String × Value) → Bytes
  | [] => []
  | (k, v) :: members => printString k ++ ascii ':' :: (v.print ++ Value.printMembers members)

/-- The loop goes over a printed object to its end, and finds its model. -/
theorem members_printed {members : List (String × Value)} (hne : members ≠ [])
    (hfit : ∀ m ∈ members, Fit m.1 m.2) (found : Found) :
    ∃ found', Scanner.members found (printed members) = some (found', []) ∧
      ((found.model.isSome = true ∨ ∃ m ∈ members, m.1 = "model") → found'.model.isSome = true) ∧
      ∀ t, found'.model = some t → found.model = some t ∨
        ∃ m, t.start = printString m ++ t.stop ∧ t.start <:+ printed members := by
  induction members generalizing found with
  | nil => exact absurd rfl hne
  | cons m members ih =>
    obtain ⟨k, v⟩ := m
    have hkv := hfit (k, v) List.mem_cons_self
    have hadd : ∀ f : Field, (∀ t, f = .model t → ∃ m, t.start = printString m ++ t.stop ∧
        t.start <:+ printed ((k, v) :: members)) → ∀ t, (found.add f).model = some t →
        found.model = some t ∨
          ∃ m, t.start = printString m ++ t.stop ∧ t.start <:+ printed ((k, v) :: members) := by
      intro f hf t ht
      cases f with
      | model t' =>
        cases ht
        exact Or.inr (hf t rfl)
      | stream b => exact Or.inl ht
      | other => exact Or.inl ht
    have hkept : ∀ f : Field, (k = "model" → ∃ t, f = .model t) →
        (found.model.isSome = true ∨ k = "model") → (found.add f).model.isSome = true := by
      intro f hf hor
      cases f with
      | model t => rfl
      | stream b =>
        rcases hor with hsome | hk
        · exact hsome
        · obtain ⟨t, ht⟩ := hf hk
          cases ht
      | other =>
        rcases hor with hsome | hk
        · exact hsome
        · obtain ⟨t, ht⟩ := hf hk
          cases ht
    cases members with
    | nil =>
      obtain ⟨f, hmember, hmodel, htoken⟩ := member_print hkv (show isNumberByte (ascii '}') = false by decide) []
      refine ⟨found.add f, members_brace hmember (ws_cons (by decide) _), fun h => hkept f hmodel ?_,
        hadd f fun t ht => ?_⟩
      · rcases h with hsome | ⟨m, hm, hk⟩
        · exact Or.inl hsome
        · rw [List.mem_singleton.mp hm] at hk
          exact Or.inr hk
      · obtain ⟨m, hstart, hat⟩ := htoken t ht
        refine ⟨m, hstart, ?_⟩
        rw [hat]
        exact (List.suffix_cons _ _).trans (List.suffix_append _ _)
    | cons m' members =>
      obtain ⟨k', v'⟩ := m'
      obtain ⟨f, hmember, hmodel, htoken⟩ :=
        member_print hkv (show isNumberByte (ascii ',') = false by decide) (printed ((k', v') :: members))
      obtain ⟨found', hmembers, hsome', htoken'⟩ := ih (List.cons_ne_nil _ _)
        (fun m hm => hfit m (List.mem_cons_of_mem _ hm)) (found.add f)
      have hsuffix : printed ((k', v') :: members) <:+ printed ((k, v) :: (k', v') :: members) :=
        ((List.suffix_cons _ _).trans (List.suffix_append _ _)).trans
          ((List.suffix_cons _ _).trans (List.suffix_append _ _))
      refine ⟨found', (members_comma hmember (ws_cons (by decide) _)).trans hmembers, fun h => ?_,
        fun t ht => ?_⟩
      · refine hsome' ?_
        rcases h with hsome | ⟨m, hm, hk⟩
        · exact Or.inl (hkept f hmodel (Or.inl hsome))
        · rcases List.mem_cons.mp hm with rfl | hm
          · exact Or.inl (hkept f hmodel (Or.inr hk))
          · exact Or.inr ⟨m, hm, hk⟩
      · rcases htoken' t ht with hfound | ⟨m, hstart, hat⟩
        · refine hadd f (fun t ht => ?_) t hfound
          obtain ⟨m, hstart, hat⟩ := htoken t ht
          refine ⟨m, hstart, ?_⟩
          rw [hat]
          exact (List.suffix_cons _ _).trans (List.suffix_append _ _)
        · exact Or.inr ⟨m, hstart, hat.trans hsuffix⟩

end Scanner

/-- Every serialised object whose keys need no escapes, with a string for its
model and a flag, null or nothing for `stream`. -/
theorem probe_print {members : List (String × Value)} (hfit : ∀ m ∈ members, Fit m.1 m.2)
    (hmodel : ∃ m ∈ members, m.1 = "model") :
    (probe (Value.object members).print).isSome = true := by
  obtain ⟨⟨k, v⟩, hmem, hk⟩ := hmodel
  have hne : members ≠ [] := List.ne_nil_of_mem hmem
  have hprint : (Value.object members).print = ascii '{' :: printed members := by
    cases members with
    | nil => exact absurd rfl hne
    | cons m members => rfl
  have hhead : ∃ s, printed members = ascii '"' :: s := by
    cases members with
    | nil => exact absurd rfl hne
    | cons m members => exact ⟨_, rfl⟩
  obtain ⟨s, hs⟩ := hhead
  obtain ⟨found, hmembers, hsome, htoken⟩ := members_printed hne hfit ⟨none, none⟩
  obtain ⟨t, ht⟩ := Option.isSome_iff_exists.mp (hsome (Or.inr ⟨_, hmem, hk⟩))
  obtain ⟨m, hstart, hsuffix⟩ : ∃ m, t.start = printString m ++ t.stop ∧ t.start <:+ printed members := by
    rcases htoken t ht with hnone | h
    · cases hnone
    · exact h
  have hws : ws (printed members) = printed members := by
    rw [hs]
    exact ws_cons (by decide) _
  have hbody : ws (Value.object members).print = ascii '{' :: printed members := by
    rw [hprint]
    exact ws_cons (by decide) _
  have htext : stringFromSlice (((Value.object members).print.take
      ((Value.object members).print.length - t.stop.length)).drop
        ((Value.object members).print.length - t.start.length)) = some m := by
    rw [hstart] at hsuffix ⊢
    rw [slice_suffix (hsuffix.trans (by rw [hprint]; exact List.suffix_cons _ _))]
    unfold stringFromSlice
    rw [parse_literal fun stack => run_printString stack m]
    exact decodeString_escape m
  have hquote : ¬ (printed members).head? = some (ascii '}') := by
    rw [hs]
    show ¬ some (ascii '"') = some (ascii '}')
    decide
  unfold probe
  dsimp only
  rw [hbody, if_neg (show ¬ (ascii '{' :: printed members).head? ≠ some (ascii '{') from
    not_not_intro rfl), List.tail_cons, hws, if_neg hquote, hmembers]
  show (if ws [] ≠ [] then none else found.model.bind fun t => _ : Option Probe).isSome = true
  rw [if_neg (show ¬ ws [] ≠ [] from not_not_intro rfl), ht]
  show ((stringFromSlice _).bind fun model => _ : Option Probe).isSome = true
  rw [htext]
  rfl

/-- Every body: a successful probe agrees with the full parser exactly when
every member it walked over can be read. And every serialised object of the
shape the fast path is for is probed. -/
theorem probe_agrees (body : Bytes) (members : List (String × Value)) :
    (∀ p, probe body = some p → ∃ h : Probed body p,
      Agrees body p ↔ ∀ e ∈ h.entries, e.Readable) ∧
    ((∀ m ∈ members, Fit m.1 m.2) → (∃ m ∈ members, m.1 = "model") →
      (probe (Value.object members).print).isSome = true) := by
  constructor
  · intro p hprobe
    obtain ⟨h⟩ := probed_of_probe hprobe
    exact ⟨h, h.agrees_iff⟩
  · exact probe_print

/-- A bracket closed by a brace: the scanner passes over it. -/
theorem probe_mismatched : ∃ body, (probe body).isSome = true ∧ fromSlice body = none := by
  refine ⟨utf8 "\x7b\"model\":\"m\",\"a\":[\x7d\x7d", ?_, rfl⟩
  have h : members ⟨none, none⟩ (ws (ws (utf8 "\x7b\"model\":\"m\",\"a\":[\x7d\x7d")).tail) =
      some (⟨some ⟨utf8 "\"m\",\"a\":[\x7d\x7d", utf8 ",\"a\":[\x7d\x7d", by decide⟩, none⟩, []) := by
    rw [members_comma rfl rfl, members_brace rfl rfl]
    rfl
  unfold probe
  rw [if_neg (by decide)]
  dsimp only
  rw [if_neg (by decide), h]
  rfl

end RapidRouter.Core
