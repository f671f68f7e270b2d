import RapidRouter.Lib.Framing
import RapidRouter.Lib.Json.Text

/-!
# Server-sent events

`router-core/src/sse.rs`: events are cut from a byte stream at blank lines
and read line by line. A blank line is found by `findEventBoundary`, which
takes `\n`, `\r\n` and a lone `\r` for line breaks; the lines of an event are
found by `splitLines`, which only knows the first two.

Where the stream was cut into chunks makes no difference (`events_chunks`).
Which line breaks it was written with does; that is the subject of
`LineBreaks`.

Text is held as its UTF-8 bytes.
-/

namespace RapidRouter.Core

open Json (Bytes ascii utf8 fromUtf8? IsText)

structure SseEvent where
  event : Option Bytes
  data : Bytes
  deriving DecidableEq

namespace Sse

/-! ## The parser -/

/-- `line_break_len`. -/
def lineBreakLen : Bytes → Option Nat
  | [] => some 0
  | c :: rest =>
    if c = ascii '\n' then some 1
    else if c = ascii '\r' then
      match rest with
      | [] => none
      | d :: _ => if d = ascii '\n' then some 2 else some 1
    else some 0

/-- `find_event_boundary`: what is before the first blank line, and what is
after it. -/
def findEventBoundary (buf : Bytes) : Option (Bytes × Bytes) :=
  match buf with
  | [] => none
  | c :: rest =>
    match lineBreakLen (c :: rest) with
    | none => none
    | some 0 => (findEventBoundary rest).map fun p => (c :: p.1, p.2)
    | some (n + 1) =>
      -- a line break, immediately followed by another or not
      match lineBreakLen (rest.drop n) with
      | none => none
      | some 0 => (findEventBoundary (rest.drop n)).map fun p => (c :: rest.take n ++ p.1, p.2)
      | some second => some ([], (rest.drop n).drop second)
termination_by buf.length

/-- `split(|b| b == '\n')`. -/
def split : Bytes → List Bytes
  | [] => [[]]
  | c :: rest =>
    if c = ascii '\n' then [] :: split rest
    else
      match split rest with
      | [] => [[c]]
      | piece :: pieces => (c :: piece) :: pieces

/-- `strip_suffix("\r")`, or the line as it is. -/
def stripCr (line : Bytes) : Bytes :=
  if line.getLast? = some (ascii '\r') then line.dropLast else line

def splitLines (block : Bytes) : List Bytes := ((split block).map stripCr).filter (· ≠ [])

/-- `split_once(':')`. -/
def splitOnce : Bytes → Option (Bytes × Bytes)
  | [] => none
  | c :: rest =>
    if c = ascii ':' then some ([], rest)
    else (splitOnce rest).map fun p => (c :: p.1, p.2)

/-- `strip_prefix(' ')`, or the value as it is. -/
def stripSpace : Bytes → Bytes
  | [] => []
  | c :: rest => if c = ascii ' ' then rest else c :: rest

/-- What a line says. -/
inductive Field where
  | data (value : Bytes)
  | event (value : Bytes)
  | other
  deriving DecidableEq

def readLine (line : Bytes) : Field :=
  if (fromUtf8? line).isNone then .other
  else if line.head? = some (ascii ':') then .other
  else
    let (field, value) :=
      match splitOnce line with
      | some (field, value) => (field, stripSpace value)
      | none => (line, [])
    if field = utf8 "data" then .data value
    else if field = utf8 "event" then .event value
    else .other

/-- The event name and the data lines so far. -/
def gather (acc : Option Bytes × List Bytes) (line : Bytes) : Option Bytes × List Bytes :=
  match readLine line with
  | .data value => (acc.1, acc.2 ++ [value])
  | .event value => (some value, acc.2)
  | .other => acc

/-- The event some lines make up; nothing when they are only comments. -/
def eventOf (lines : List Bytes) : Option SseEvent :=
  let (event, data) := lines.foldl gather (none, [])
  if data = [] ∧ event = none then none
  else some ⟨event, [ascii '\n'].intercalate data⟩

/-- The event of a block. -/
def blockEvent (block : Bytes) : Option SseEvent := eventOf (splitLines block)

theorem lineBreakLen_le {b : Bytes} {n : Nat} (h : lineBreakLen b = some n) : n ≤ b.length := by
  unfold lineBreakLen at h
  split at h
  · cases h
    exact Nat.zero_le _
  · split_ifs at h
    · cases h
      simp
    · split at h
      · cases h
      · split_ifs at h <;> cases h <;> simp
    · cases h
      exact Nat.zero_le _

/-- A line break is one whatever follows, once what follows has begun. -/
theorem lineBreakLen_append {b : Bytes} (hb : b ≠ []) {n : Nat} (h : lineBreakLen b = some n)
    (s : Bytes) : lineBreakLen (b ++ s) = some n := by
  cases b with
  | nil => exact absurd rfl hb
  | cons c rest =>
    cases rest with
    | cons d rest => exact h
    | nil =>
      unfold lineBreakLen at h ⊢
      rw [List.cons_append]
      dsimp only at h ⊢
      by_cases hlf : c = ascii '\n'
      · rw [if_pos hlf] at h ⊢
        exact h
      · rw [if_neg hlf] at h ⊢
        by_cases hcr : c = ascii '\r'
        · rw [if_pos hcr] at h
          cases h
        · rw [if_neg hcr] at h ⊢
          exact h

theorem findEventBoundary_length {buf block rest : Bytes}
    (h : findEventBoundary buf = some (block, rest)) : rest.length < buf.length := by
  cases buf with
  | nil =>
    rw [findEventBoundary] at h
    cases h
  | cons c tail =>
    rw [findEventBoundary] at h
    split at h
    · cases h
    · obtain ⟨⟨block', rest'⟩, hp, heq⟩ := Option.map_eq_some_iff.mp h
      cases heq
      have := findEventBoundary_length hp
      simp only [List.length_cons]
      omega
    · next n _ =>
      have hdrop : (tail.drop n).length ≤ tail.length := by
        rw [List.length_drop]
        omega
      split at h
      · cases h
      · obtain ⟨⟨block', rest'⟩, hp, heq⟩ := Option.map_eq_some_iff.mp h
        cases heq
        have := findEventBoundary_length hp
        simp only [List.length_cons]
        omega
      · cases h
        simp only [List.length_cons, List.length_drop]
        omega
termination_by buf.length

theorem findEventBoundary_append {buf block rest : Bytes} (s : Bytes)
    (h : findEventBoundary buf = some (block, rest)) :
    findEventBoundary (buf ++ s) = some (block, rest ++ s) := by
  cases buf with
  | nil =>
    rw [findEventBoundary] at h
    cases h
  | cons c tail =>
    rw [findEventBoundary] at h
    rw [List.cons_append, findEventBoundary]
    split at h
    · cases h
    · next hlen =>
      have hlen' := lineBreakLen_append (List.cons_ne_nil _ _) hlen s
      rw [List.cons_append] at hlen'
      rw [hlen']
      obtain ⟨⟨block', rest'⟩, hp, heq⟩ := Option.map_eq_some_iff.mp h
      cases heq
      dsimp only
      rw [findEventBoundary_append s hp]
      rfl
    · next n hlen =>
      have hlen' := lineBreakLen_append (List.cons_ne_nil _ _) hlen s
      rw [List.cons_append] at hlen'
      have hle : n ≤ tail.length := by
        have := lineBreakLen_le hlen
        rw [List.length_cons] at this
        omega
      rw [hlen']
      dsimp only
      rw [List.drop_append_of_le_length hle, List.take_append_of_le_length hle]
      split at h
      · cases h
      · next hsecond =>
        obtain ⟨⟨block', rest'⟩, hp, heq⟩ := Option.map_eq_some_iff.mp h
        cases heq
        have hne : tail.drop n ≠ [] := by
          intro hnil
          rw [hnil, findEventBoundary] at hp
          cases hp
        rw [lineBreakLen_append hne hsecond s]
        dsimp only
        rw [findEventBoundary_append s hp]
        rfl
      · next second hsecond hpos =>
        cases h
        have hne : tail.drop n ≠ [] := by
          intro hnil
          rw [hnil] at hpos
          cases hpos
          exact hsecond rfl
        have hsecond' := lineBreakLen_le hpos
        rw [lineBreakLen_append hne hpos s]
        cases second with
        | zero => exact absurd rfl hsecond
        | succ m => exact congrArg some (Prod.ext rfl (List.drop_append_of_le_length hsecond'))
termination_by buf.length

/-! ## Lines and what they say -/

theorem split_free {text : Bytes} (h : ascii '\n' ∉ text) : split text = [text] := by
  induction text with
  | nil => rfl
  | cons c text ih =>
    rw [List.mem_cons, not_or] at h
    rw [split, if_neg fun hc => h.1 hc.symm, ih h.2]

theorem split_append {text : Bytes} (h : ascii '\n' ∉ text) (s : Bytes) :
    split (text ++ ascii '\n' :: s) = text :: split s := by
  induction text with
  | nil => exact if_pos rfl
  | cons c text ih =>
    rw [List.mem_cons, not_or] at h
    rw [List.cons_append, split, if_neg fun hc => h.1 hc.symm, ih h.2]

theorem split_ne_nil (text : Bytes) : split text ≠ [] := by
  cases text with
  | nil => exact List.cons_ne_nil _ _
  | cons c text =>
    rw [split]
    split
    · exact List.cons_ne_nil _ _
    · split <;> exact List.cons_ne_nil _ _

/-- The first piece of what follows goes with it. -/
theorem split_prefix {text : Bytes} (h : ascii '\n' ∉ text) {s q : Bytes} {qs : List Bytes}
    (hs : split s = q :: qs) : split (text ++ s) = (text ++ q) :: qs := by
  induction text with
  | nil => exact hs
  | cons c text ih =>
    rw [List.mem_cons, not_or] at h
    rw [List.cons_append, split, if_neg fun hc => h.1 hc.symm, ih h.2]
    rfl

theorem stripCr_free {text : Bytes} (h : ascii '\r' ∉ text) : stripCr text = text :=
  if_neg fun hlast => h (List.mem_of_getLast? hlast)

theorem stripCr_append (text : Bytes) : stripCr (text ++ [ascii '\r']) = text := by
  unfold stripCr
  rw [List.getLast?_concat, if_pos rfl, List.dropLast_concat]

theorem splitOnce_eq {line field value : Bytes} :
    splitOnce line = some (field, value) ↔
      line = field ++ ascii ':' :: value ∧ ascii ':' ∉ field := by
  induction line generalizing field with
  | nil => exact ⟨fun h => (by cases h), fun h => (by simp at h)⟩
  | cons c line ih =>
    rw [splitOnce]
    by_cases hc : c = ascii ':'
    · rw [if_pos hc]
      constructor
      · intro h
        cases h
        exact ⟨by rw [hc]; rfl, List.not_mem_nil⟩
      · rintro ⟨heq, hfield⟩
        cases field with
        | nil =>
          cases heq
          rfl
        | cons d field =>
          cases heq
          exact absurd (hc ▸ List.mem_cons_self) hfield
    · rw [if_neg hc]
      constructor
      · intro h
        obtain ⟨⟨field', value'⟩, hp, heq⟩ := Option.map_eq_some_iff.mp h
        cases heq
        obtain ⟨hline, hfield⟩ := ih.mp hp
        refine ⟨by rw [hline]; rfl, ?_⟩
        rw [List.mem_cons, not_or]
        exact ⟨fun h => hc h.symm, hfield⟩
      · rintro ⟨heq, hfield⟩
        cases field with
        | nil =>
          cases heq
          exact absurd rfl hc
        | cons d field =>
          rw [List.cons_append, List.cons.injEq] at heq
          obtain ⟨rfl, hline⟩ := heq
          rw [List.mem_cons, not_or] at hfield
          rw [ih.mpr ⟨hline, hfield.2⟩]
          rfl

/-- A line gives a field a value. -/
def Says (field value line : Bytes) : Prop :=
  IsText line ∧ ((line = field ∧ value = []) ∨
    ∃ rest, line = field ++ ascii ':' :: rest ∧ value = stripSpace rest)

/-- The field and the value of a line. -/
def fieldOf (line : Bytes) : Bytes × Bytes :=
  match splitOnce line with
  | some (field, value) => (field, stripSpace value)
  | none => (line, [])

theorem readLine_eq (line : Bytes) : readLine line =
    if (fromUtf8? line).isNone then .other
    else if line.head? = some (ascii ':') then .other
    else if (fieldOf line).1 = utf8 "data" then .data (fieldOf line).2
    else if (fieldOf line).1 = utf8 "event" then .event (fieldOf line).2
    else .other := rfl

theorem fieldOf_says {line field : Bytes} (htext : (fromUtf8? line).isNone = false)
    (hfield : (fieldOf line).1 = field) : Says field (fieldOf line).2 line := by
  rw [Option.isNone_eq_false_iff] at htext
  refine ⟨Json.isText_of_fromUtf8 htext, ?_⟩
  unfold fieldOf at hfield ⊢
  cases hsplit : splitOnce line with
  | none =>
    rw [hsplit] at hfield
    exact Or.inl ⟨hfield, rfl⟩
  | some p =>
    obtain ⟨field', value⟩ := p
    rw [hsplit] at hfield
    cases hfield
    exact Or.inr ⟨value, (splitOnce_eq.mp hsplit).1, rfl⟩

theorem readLine_cases (line : Bytes) :
    (∃ value, readLine line = .data value ∧ Says (utf8 "data") value line) ∨
      (∃ value, readLine line = .event value ∧ Says (utf8 "event") value line) ∨
      readLine line = .other := by
  rw [readLine_eq]
  by_cases htext : (fromUtf8? line).isNone = true
  · rw [if_pos htext]
    exact Or.inr (Or.inr rfl)
  · rw [if_neg htext]
    rw [Bool.not_eq_true] at htext
    by_cases hcomment : line.head? = some (ascii ':')
    · rw [if_pos hcomment]
      exact Or.inr (Or.inr rfl)
    · rw [if_neg hcomment]
      by_cases hdata : (fieldOf line).1 = utf8 "data"
      · rw [if_pos hdata]
        exact Or.inl ⟨_, rfl, fieldOf_says htext hdata⟩
      · rw [if_neg hdata]
        by_cases hevent : (fieldOf line).1 = utf8 "event"
        · rw [if_pos hevent]
          exact Or.inr (Or.inl ⟨_, rfl, fieldOf_says htext hevent⟩)
        · rw [if_neg hevent]
          exact Or.inr (Or.inr rfl)

theorem readLine_data {line value : Bytes} (h : Says (utf8 "data") value line) :
    readLine line = .data value := by
  obtain ⟨htext, hline⟩ := h
  have hnone : ¬ (fromUtf8? line).isNone = true := by
    rw [Bool.not_eq_true, Option.isNone_eq_false_iff]
    exact htext.fromUtf8
  have hfield : line.head? ≠ some (ascii ':') ∧ fieldOf line = (utf8 "data", value) := by
    rcases hline with ⟨rfl, rfl⟩ | ⟨rest, rfl, rfl⟩
    · exact ⟨by decide, by decide⟩
    · refine ⟨by show some (ascii 'd') ≠ _; decide, ?_⟩
      unfold fieldOf
      rw [splitOnce_eq.mpr ⟨rfl, by decide⟩]
  rw [readLine_eq, if_neg hnone, if_neg hfield.1, hfield.2, if_pos rfl]

theorem readLine_event {line value : Bytes} (h : Says (utf8 "event") value line) :
    readLine line = .event value := by
  obtain ⟨htext, hline⟩ := h
  have hnone : ¬ (fromUtf8? line).isNone = true := by
    rw [Bool.not_eq_true, Option.isNone_eq_false_iff]
    exact htext.fromUtf8
  have hfield : line.head? ≠ some (ascii ':') ∧ fieldOf line = (utf8 "event", value) := by
    rcases hline with ⟨rfl, rfl⟩ | ⟨rest, rfl, rfl⟩
    · exact ⟨by decide, by decide⟩
    · refine ⟨by show some (ascii 'e') ≠ _; decide, ?_⟩
      unfold fieldOf
      rw [splitOnce_eq.mpr ⟨rfl, by decide⟩]
  have hother : utf8 "event" ≠ utf8 "data" := by decide
  rw [readLine_eq, if_neg hnone, if_neg hfield.1, hfield.2, if_neg hother, if_pos rfl]

/-- What a line says up to a `\r`, the part before it says. -/
theorem Says.cut {field value text z : Bytes} (h : Says field value (text ++ z))
    (hne : field ≠ []) (hfield : ascii '\r' ∉ field) (hz : z = [] ∨ z.head? = some (ascii '\r')) :
    text ≠ [] ∧ ∃ value, Says field value text := by
  obtain ⟨htext, hline⟩ := h
  rcases hz with rfl | hcr
  · rw [List.append_nil] at htext hline
    refine ⟨?_, value, htext, hline⟩
    rintro rfl
    rcases hline with ⟨hnil, -⟩ | ⟨rest, hnil, -⟩
    · exact hne hnil.symm
    · simp at hnil
  · obtain ⟨z', rfl⟩ : ∃ z', z = ascii '\r' :: z' := by
      cases z with
      | nil => cases hcr
      | cons c z =>
        cases hcr
        exact ⟨z, rfl⟩
    have htext' : IsText text := htext.of_append (by decide)
    rcases hline with ⟨heq, -⟩ | ⟨rest, heq, -⟩
    · exact absurd (heq ▸ List.mem_append_right _ List.mem_cons_self) hfield
    · have hsplit : text ++ ascii '\r' :: z' = (field ++ [ascii ':']) ++ rest := by
        rw [heq, List.append_assoc]
        rfl
      have hcolon : ascii '\r' ∉ field ++ [ascii ':'] := by
        rw [List.mem_append, not_or]
        exact ⟨hfield, by decide⟩
      rcases List.append_eq_append_iff.mp hsplit with ⟨m, hm, hrest⟩ | ⟨m, hm, -⟩
      · cases m with
        | nil =>
          rw [List.append_nil] at hm
          refine ⟨?_, [], htext', Or.inr ⟨[], hm.symm, rfl⟩⟩
          rintro rfl
          simp at hm
        | cons c m =>
          rw [List.cons_append, List.cons.injEq] at hrest
          rw [hm, hrest.1] at hcolon
          exact absurd (List.mem_append_right _ List.mem_cons_self) hcolon
      · refine ⟨?_, stripSpace m, htext', Or.inr ⟨m, ?_, rfl⟩⟩
        · rintro rfl
          simp at hm
        · rw [hm, List.append_assoc]
          rfl

theorem mem_stripSpace {value : Bytes} : ascii '\r' ∈ stripSpace value ↔ ascii '\r' ∈ value := by
  cases value with
  | nil => exact Iff.rfl
  | cons c value =>
    show ascii '\r' ∈ (if c = ascii ' ' then value else c :: value) ↔ _
    by_cases hspace : c = ascii ' '
    · rw [if_pos hspace, hspace, List.mem_cons, or_iff_right (by decide)]
    · rw [if_neg hspace]

theorem Says.cr {field value line : Bytes} (h : Says field value line)
    (hfield : ascii '\r' ∉ field) : ascii '\r' ∈ value ↔ ascii '\r' ∈ line := by
  rcases h.2 with ⟨rfl, rfl⟩ | ⟨rest, rfl, rfl⟩
  · exact ⟨fun hmem => (by cases hmem), fun hmem => absurd hmem hfield⟩
  · rw [mem_stripSpace, List.mem_append, List.mem_cons, or_iff_right hfield,
      or_iff_right (by decide)]

/-! ## The event of some lines -/

theorem foldl_gather_none (lines : List Bytes) (acc : Option Bytes × List Bytes) :
    ((lines.foldl gather acc).2 = [] ∧ (lines.foldl gather acc).1 = none) ↔
      (acc.2 = [] ∧ acc.1 = none) ∧ ∀ l ∈ lines, readLine l = .other := by
  induction lines generalizing acc with
  | nil => exact ⟨fun h => ⟨h, fun l hl => (by cases hl)⟩, fun h => h.1⟩
  | cons l lines ih =>
    rw [List.foldl_cons, ih, List.forall_mem_cons, ← and_assoc]
    refine and_congr_left fun _ => ?_
    unfold gather
    cases readLine l with
    | data value => simp
    | event value => simp
    | other => simp

/-- Nothing comes of lines that say nothing. -/
theorem eventOf_none {lines : List Bytes} :
    eventOf lines = none ↔ ∀ l ∈ lines, readLine l = .other := by
  have hfold := foldl_gather_none lines (none, [])
  unfold eventOf
  dsimp only
  constructor
  · intro h
    split at h
    · next hnone => exact (hfold.mp hnone).2
    · cases h
  · intro h
    rw [if_pos (hfold.mpr ⟨⟨rfl, rfl⟩, h⟩)]

end Sse

/-- A `\r` somewhere in it. -/
def SseEvent.HasCr (e : SseEvent) : Prop :=
  ascii '\r' ∈ e.data ∨ ∃ name, e.event = some name ∧ ascii '\r' ∈ name

namespace Sse

theorem foldl_gather_free {lines : List Bytes} (hlines : ∀ l ∈ lines, ascii '\r' ∉ l)
    {acc : Option Bytes × List Bytes}
    (hacc : (∀ v ∈ acc.2, ascii '\r' ∉ v) ∧ ∀ name, acc.1 = some name → ascii '\r' ∉ name) :
    (∀ v ∈ (lines.foldl gather acc).2, ascii '\r' ∉ v) ∧
      ∀ name, (lines.foldl gather acc).1 = some name → ascii '\r' ∉ name := by
  induction lines generalizing acc with
  | nil => exact hacc
  | cons l lines ih =>
    rw [List.foldl_cons]
    refine ih (fun c hc => hlines c (List.mem_cons_of_mem _ hc)) ?_
    have hl := hlines l List.mem_cons_self
    unfold gather
    rcases readLine_cases l with ⟨value, hread, htold⟩ | ⟨value, hread, htold⟩ | hread
    · rw [hread]
      refine ⟨fun v hv => ?_, hacc.2⟩
      rcases List.mem_append.mp hv with hv | hv
      · exact hacc.1 v hv
      · rw [List.mem_singleton.mp hv, htold.cr (by decide)]
        exact hl
    · rw [hread]
      refine ⟨hacc.1, fun name hname => ?_⟩
      cases hname
      rw [htold.cr (by decide)]
      exact hl
    · rw [hread]
      exact hacc

theorem mem_intercalate {c : UInt8} {sep : Bytes} {parts : List Bytes}
    (h : c ∈ sep.intercalate parts) : c ∈ sep ∨ ∃ p ∈ parts, c ∈ p := by
  induction parts with
  | nil => cases h
  | cons p parts ih =>
    cases parts with
    | nil => exact Or.inr ⟨p, List.mem_cons_self, by simpa using h⟩
    | cons q parts =>
      rw [List.intercalate_cons_cons, List.mem_append, List.mem_append] at h
      rcases h with (h | h) | h
      · exact Or.inr ⟨p, List.mem_cons_self, h⟩
      · exact Or.inl h
      · rcases ih h with h | ⟨x, hx, hc⟩
        · exact Or.inl h
        · exact Or.inr ⟨x, List.mem_cons_of_mem _ hx, hc⟩

theorem eventOf_free {lines : List Bytes} (hlines : ∀ l ∈ lines, ascii '\r' ∉ l) {e : SseEvent}
    (h : eventOf lines = some e) : ¬ e.HasCr := by
  have hfold := @foldl_gather_free lines hlines (none, [])
    ⟨fun v hv => (by cases hv), fun name hname => (by cases hname)⟩
  unfold eventOf at h
  dsimp only at h
  split at h
  · cases h
  · cases h
    rintro (hdata | ⟨name, hname, hcr⟩)
    · rcases mem_intercalate hdata with hsep | ⟨v, hv, hcr⟩
      · exact absurd hsep (by decide)
      · exact hfold.1 v hv hcr
    · exact hfold.2 name hname hcr

theorem eventOf_single {line : Bytes} (hline : ascii '\r' ∈ line) {e : SseEvent}
    (h : eventOf [line] = some e) : e.HasCr := by
  unfold eventOf at h
  rw [List.foldl_cons, List.foldl_nil] at h
  unfold gather at h
  rcases readLine_cases line with ⟨value, hread, htold⟩ | ⟨value, hread, htold⟩ | hread
  · rw [hread] at h
    cases h
    refine Or.inl ?_
    show ascii '\r' ∈ [ascii '\n'].intercalate [value]
    rw [List.intercalate_singleton, htold.cr (by decide)]
    exact hline
  · rw [hread] at h
    cases h
    exact Or.inr ⟨value, rfl, (htold.cr (by decide)).mpr hline⟩
  · rw [hread] at h
    cases h

/-- Blocks, up to the blank line that ends them. -/
def framing : Framing UInt8 Bytes := ⟨findEventBoundary, findEventBoundary_length,
  fun s h => findEventBoundary_append s h⟩

/-- `next_event`; a block without an event is skipped. -/
def nextEvent (buf : Bytes) : Option SseEvent × Bytes :=
  match _h : findEventBoundary buf with
  | none => (none, buf)
  | some (block, rest) =>
    match blockEvent block with
    | none => nextEvent rest
    | some e => (some e, rest)
termination_by buf.length
decreasing_by exact findEventBoundary_length _h

theorem nextEvent_none {buf : Bytes} (h : findEventBoundary buf = none) :
    nextEvent buf = (none, buf) := by
  rw [nextEvent]
  split
  · rfl
  · next hsome =>
    rw [h] at hsome
    cases hsome

theorem nextEvent_some {buf block rest : Bytes} (h : findEventBoundary buf = some (block, rest)) :
    nextEvent buf =
      match blockEvent block with
      | none => nextEvent rest
      | some e => (some e, rest) := by
  rw [nextEvent]
  split
  · next hnone =>
    rw [h] at hnone
    cases hnone
  · next hsome =>
    rw [h] at hsome
    cases hsome
    rfl

theorem nextEvent_length {buf rest : Bytes} {e : SseEvent} (h : nextEvent buf = (some e, rest)) :
    rest.length < buf.length := by
  rw [nextEvent] at h
  split at h
  · cases h
  · next block rest' hcut =>
    have hlt := findEventBoundary_length hcut
    split at h
    · have := nextEvent_length h
      omega
    · cases h
      exact hlt
termination_by buf.length

end Sse

structure SseParser where
  buffer : Bytes

namespace SseParser

open Sse

def new : SseParser := ⟨[]⟩

/-- The loop of `push`. -/
def takeEvents (buf : Bytes) : List SseEvent × Bytes :=
  match _h : nextEvent buf with
  | (none, rest) => ([], rest)
  | (some e, rest) => (e :: (takeEvents rest).1, (takeEvents rest).2)
termination_by buf.length
decreasing_by all_goals exact nextEvent_length _h

def push (p : SseParser) (chunk : Bytes) : List SseEvent × SseParser :=
  let (events, rest) := takeEvents (p.buffer ++ chunk)
  (events, ⟨rest⟩)

/-- The events of the chunks of a stream. -/
def events (p : SseParser) : List Bytes → List SseEvent
  | [] => []
  | chunk :: chunks => (p.push chunk).1 ++ (p.push chunk).2.events chunks

theorem takeEvents_none {buf rest : Bytes} (h : nextEvent buf = (none, rest)) :
    takeEvents buf = ([], rest) := by
  rw [takeEvents]
  split
  · next hnone =>
    rw [h] at hnone
    cases hnone
    rfl
  · next hsome =>
    rw [h] at hsome
    cases hsome

theorem takeEvents_some {buf rest : Bytes} {e : SseEvent} (h : nextEvent buf = (some e, rest)) :
    takeEvents buf = (e :: (takeEvents rest).1, (takeEvents rest).2) := by
  rw [takeEvents]
  split
  · next hnone =>
    rw [h] at hnone
    cases hnone
  · next hsome =>
    rw [h] at hsome
    cases hsome
    rfl

/-- The loops take the event of one block after another. -/
theorem takeEvents_eq (buf : Bytes) :
    takeEvents buf = ((framing.drain buf).1.filterMap blockEvent, (framing.drain buf).2) := by
  cases hcut : findEventBoundary buf with
  | none =>
    have hdrain : framing.drain buf = ([], buf) := Framing.drain_none hcut
    rw [hdrain, takeEvents_none (nextEvent_none hcut)]
    rfl
  | some p =>
    obtain ⟨block, rest⟩ := p
    have hlt := findEventBoundary_length hcut
    have hdrain : framing.drain buf = (block :: (framing.drain rest).1, (framing.drain rest).2) :=
      Framing.drain_some hcut
    have hnext := nextEvent_some hcut
    have hrest := takeEvents_eq rest
    rw [hdrain]
    cases he : blockEvent block with
    | none =>
      rw [he] at hnext
      dsimp only at hnext ⊢
      have hsame : takeEvents buf = takeEvents rest := by
        cases hr : nextEvent rest with
        | mk first rest' =>
          rw [hr] at hnext
          cases first with
          | none => rw [takeEvents_none hnext, takeEvents_none hr]
          | some e => rw [takeEvents_some hnext, takeEvents_some hr]
      rw [hsame, List.filterMap_cons_none he, hrest]
    | some e =>
      rw [he] at hnext
      dsimp only
      rw [takeEvents_some hnext, List.filterMap_cons_some he, hrest]
termination_by buf.length

/-- The events of a whole stream. -/
def streamEvents (stream : Bytes) : List SseEvent := (framing.drain stream).1.filterMap blockEvent

theorem events_feed (p : SseParser) (chunks : List Bytes) :
    p.events chunks = (framing.feed p.buffer chunks).1.filterMap blockEvent := by
  induction chunks generalizing p with
  | nil => rfl
  | cons chunk chunks ih =>
    have hpush : p.push chunk = ((takeEvents (p.buffer ++ chunk)).1, ⟨(takeEvents (p.buffer ++ chunk)).2⟩) :=
      rfl
    unfold events
    rw [ih, hpush, takeEvents_eq, Framing.feed, List.filterMap_append]

/-- Where the stream was cut makes no difference. -/
theorem events_chunks (chunks : List Bytes) : new.events chunks = streamEvents chunks.flatten := by
  have hempty : framing.cut [] = none := by
    show findEventBoundary [] = none
    rw [findEventBoundary]
  have hfeed : framing.feed [] chunks = framing.drain ([] ++ chunks.flatten) :=
    Framing.feed_eq_drain chunks hempty
  rw [events_feed]
  show (framing.feed [] chunks).1.filterMap _ = _
  rw [hfeed]
  rfl

end SseParser

end RapidRouter.Core
