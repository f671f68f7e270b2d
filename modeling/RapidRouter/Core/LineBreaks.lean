import RapidRouter.Core.Sse
import RapidRouter.Lib.Lists

/-!
# Line breaks of an event stream

A byte stream is lines, each with the line break that ends it, and what comes
after the last one (`lex`, `render`). A blank line ends a block of lines, and
`streamEvents_render` says that the parser finds these blocks whatever the
line breaks are, but for one: a blank line ended by a lone `\r` that is the
last byte there is.

What it makes of the lines of a block does depend on the line breaks. A lone
`\r` between two lines leaves them one line to `splitLines`, so the second is
part of the value of the first.
-/

namespace RapidRouter.Core.Sse

open Json (Bytes ascii utf8 fromUtf8? IsText)

/-! ## Lines -/

inductive Break where
  | lf
  | crlf
  | cr
  deriving DecidableEq

def Break.bytes : Break → Bytes
  | .lf => [ascii '\n']
  | .crlf => [ascii '\r', ascii '\n']
  | .cr => [ascii '\r']

structure Line where
  text : Bytes
  brk : Break
  deriving DecidableEq

/-- The lines of a stream, and what follows the last line break. -/
def lex : Bytes → List Line × Bytes
  | [] => ([], [])
  | c :: rest =>
    if c = ascii '\n' then (⟨[], .lf⟩ :: (lex rest).1, (lex rest).2)
    else if c = ascii '\r' then
      match rest with
      | [] => ([⟨[], .cr⟩], [])
      | d :: rest' =>
        if d = ascii '\n' then (⟨[], .crlf⟩ :: (lex rest').1, (lex rest').2)
        else (⟨[], .cr⟩ :: (lex (d :: rest')).1, (lex (d :: rest')).2)
    else
      match lex rest with
      | ([], tail) => ([], c :: tail)
      | (l :: lines, tail) => (⟨c :: l.text, l.brk⟩ :: lines, tail)

def render (tail : Bytes) : List Line → Bytes
  | [] => tail
  | l :: lines => l.text ++ (l.brk.bytes ++ render tail lines)

/-! What a line break or any other byte adds. -/

theorem lex_lf (rest : Bytes) :
    lex (ascii '\n' :: rest) = (⟨[], .lf⟩ :: (lex rest).1, (lex rest).2) := by
  rw [lex.eq_def]
  exact if_pos rfl

theorem lex_crlf (rest : Bytes) : lex (ascii '\r' :: ascii '\n' :: rest) =
    (⟨[], .crlf⟩ :: (lex rest).1, (lex rest).2) := by
  rw [lex.eq_def]
  rfl

theorem lex_cr {d : UInt8} (hd : d ≠ ascii '\n') (rest : Bytes) : lex (ascii '\r' :: d :: rest) =
    (⟨[], .cr⟩ :: (lex (d :: rest)).1, (lex (d :: rest)).2) := by
  rw [lex.eq_def]
  exact if_neg hd

theorem lex_text {c : UInt8} (hlf : c ≠ ascii '\n') (hcr : c ≠ ascii '\r') (rest : Bytes) :
    lex (c :: rest) =
      match lex rest with
      | ([], tail) => ([], c :: tail)
      | (l :: lines, tail) => (⟨c :: l.text, l.brk⟩ :: lines, tail) := by
  rw [lex.eq_def]
  dsimp only
  rw [if_neg hlf, if_neg hcr]

theorem render_lex (stream : Bytes) : render (lex stream).2 (lex stream).1 = stream := by
  induction stream using lex.induct with
  | case1 => rfl
  | case2 rest ih =>
    rw [lex_lf]
    exact congrArg (ascii '\n' :: ·) ih
  | case3 => rfl
  | case4 rest _ ih =>
    rw [lex_crlf]
    exact congrArg (fun r => ascii '\r' :: ascii '\n' :: r) ih
  | case5 d rest hd _ ih =>
    rw [lex_cr hd]
    exact congrArg (ascii '\r' :: ·) ih
  | case6 c rest hlf hcr tail htail ih =>
    rw [lex_text hlf hcr, htail]
    rw [htail] at ih
    exact congrArg (c :: ·) ih
  | case7 c rest hlf hcr l lines tail hlines ih =>
    rw [lex_text hlf hcr, hlines]
    rw [hlines] at ih
    exact congrArg (c :: ·) ih

/-- No line break in it. -/
def Free (text : Bytes) : Prop := ascii '\n' ∉ text ∧ ascii '\r' ∉ text

/-- A `\r` that a `\n` follows is not a line break of its own. -/
def Canonical (tail : Bytes) : List Line → Prop
  | [] => Free tail
  | l :: lines =>
    Free l.text ∧ (l.brk = .cr → (render tail lines).head? ≠ some (ascii '\n')) ∧
      Canonical tail lines

theorem free_nil : Free [] := ⟨List.not_mem_nil, List.not_mem_nil⟩

theorem free_cons {c : UInt8} {text : Bytes} : Free (c :: text) ↔
    (c ≠ ascii '\n' ∧ c ≠ ascii '\r') ∧ Free text := by
  unfold Free
  rw [List.mem_cons, List.mem_cons, not_or, not_or]
  constructor
  · rintro ⟨⟨hlf, hlf'⟩, hcr, hcr'⟩
    exact ⟨⟨fun h => hlf h.symm, fun h => hcr h.symm⟩, hlf', hcr'⟩
  · rintro ⟨⟨hlf, hcr⟩, hlf', hcr'⟩
    exact ⟨⟨fun h => hlf h.symm, hlf'⟩, fun h => hcr h.symm, hcr'⟩

theorem canonical_lex (stream : Bytes) : Canonical (lex stream).2 (lex stream).1 := by
  induction stream using lex.induct with
  | case1 => exact free_nil
  | case2 rest ih =>
    rw [lex_lf]
    exact ⟨free_nil, fun h => (by cases h), ih⟩
  | case3 => exact ⟨free_nil, fun _ h => (by cases h), free_nil⟩
  | case4 rest _ ih =>
    rw [lex_crlf]
    exact ⟨free_nil, fun h => (by cases h), ih⟩
  | case5 d rest hd _ ih =>
    rw [lex_cr hd]
    refine ⟨free_nil, fun _ h => ?_, ih⟩
    rw [render_lex] at h
    exact hd (Option.some.inj h)
  | case6 c rest hlf hcr tail htail ih =>
    rw [lex_text hlf hcr, htail]
    rw [htail] at ih
    exact free_cons.mpr ⟨⟨hlf, hcr⟩, ih⟩
  | case7 c rest hlf hcr l lines tail hlines ih =>
    rw [lex_text hlf hcr, hlines]
    rw [hlines] at ih
    exact ⟨free_cons.mpr ⟨⟨hlf, hcr⟩, ih.1⟩, ih.2⟩

/-- The same lines, all ended alike. -/
def retag (b : Break) (lines : List Line) : List Line := lines.map fun l => ⟨l.text, b⟩

/-- Every line break of a stream replaced by one kind. -/
def reterminate (b : Break) (stream : Bytes) : Bytes :=
  render (lex stream).2 (retag b (lex stream).1)

theorem head?_of_free {text : Bytes} (h : Free text) : text.head? ≠ some (ascii '\n') := by
  cases text with
  | nil => exact fun h => by cases h
  | cons c text => exact fun hhead => (free_cons.mp h).1.1 (Option.some.inj hhead)

theorem canonical_retag {tail : Bytes} {lines : List Line} (b : Break)
    (h : Canonical tail lines) : Canonical tail (retag b lines) := by
  induction lines with
  | nil => exact h
  | cons l lines ih =>
    refine ⟨h.1, fun hcr => ?_, ih h.2.2⟩
    dsimp only at hcr
    subst hcr
    cases lines with
    | nil => exact head?_of_free h.2.2
    | cons m lines =>
      have hfree := h.2.2.1
      show (m.text ++ (ascii '\r' :: render tail (retag .cr lines))).head? ≠ _
      cases htext : m.text with
      | nil => exact fun hhead => by cases hhead
      | cons c text =>
        rw [htext] at hfree
        exact fun hhead => (free_cons.mp hfree).1.1 (Option.some.inj hhead)

/-! ## The scan over a line and its break -/

theorem lineBreakLen_text {text : Bytes} (h : Free text) (hne : text ≠ []) (s : Bytes) :
    lineBreakLen (text ++ s) = some 0 := by
  cases text with
  | nil => exact absurd rfl hne
  | cons c text =>
    obtain ⟨⟨hlf, hcr⟩, -⟩ := free_cons.mp h
    show (if c = ascii '\n' then _ else _) = _
    rw [if_neg hlf, if_neg hcr]

theorem lineBreakLen_free {text : Bytes} (h : Free text) : lineBreakLen text = some 0 := by
  cases text with
  | nil => rfl
  | cons c text =>
    have := lineBreakLen_text h (List.cons_ne_nil c text) []
    rwa [List.append_nil] at this

/-- A line break is recognised when it is known to be over. -/
theorem lineBreakLen_break {b : Break} {after : Bytes}
    (hafter : b = .cr → after.head? ≠ some (ascii '\n')) :
    lineBreakLen (b.bytes ++ after) =
      if b = .cr ∧ after = [] then none else some b.bytes.length := by
  cases b with
  | lf => rfl
  | crlf => rfl
  | cr =>
    cases after with
    | nil => rfl
    | cons d after =>
      have hd : d ≠ ascii '\n' := fun h => hafter rfl (congrArg some h)
      show (if d = ascii '\n' then some 2 else some 1) = _
      rw [if_neg hd, if_neg fun h => List.cons_ne_nil _ _ h.2]
      rfl

theorem findEventBoundary_text {text : Bytes} (h : Free text) (s : Bytes) :
    findEventBoundary (text ++ s) = (findEventBoundary s).map fun p => (text ++ p.1, p.2) := by
  induction text with
  | nil =>
    show findEventBoundary s = _
    exact Option.map_id.symm ▸ rfl
  | cons c text ih =>
    have hlen := lineBreakLen_text h (List.cons_ne_nil c text) s
    rw [List.cons_append] at hlen ⊢
    rw [findEventBoundary, hlen]
    dsimp only
    rw [ih (free_cons.mp h).2, Option.map_map]
    rfl

theorem findEventBoundary_free {text : Bytes} (h : Free text) : findEventBoundary text = none := by
  have hnil : findEventBoundary [] = none := by rw [findEventBoundary]
  have htext := findEventBoundary_text h []
  rw [List.append_nil, hnil] at htext
  exact htext

/-- After a line break: the end of the block, or its next line. -/
theorem findEventBoundary_break {b : Break} {after : Bytes}
    (hafter : b = .cr → after.head? ≠ some (ascii '\n')) :
    findEventBoundary (b.bytes ++ after) =
      if b = .cr ∧ after = [] then none
      else
        match lineBreakLen after with
        | none => none
        | some 0 => (findEventBoundary after).map fun p => (b.bytes ++ p.1, p.2)
        | some second => some ([], after.drop second) := by
  have hlen := lineBreakLen_break hafter
  cases b with
  | lf =>
    show findEventBoundary (ascii '\n' :: after) = _
    rw [findEventBoundary]
    rfl
  | crlf =>
    show findEventBoundary (ascii '\r' :: ascii '\n' :: after) = _
    rw [findEventBoundary]
    rfl
  | cr =>
    show findEventBoundary (ascii '\r' :: after) = _
    have hcons : [ascii '\r'] ++ after = ascii '\r' :: after := rfl
    have hbytes : [ascii '\r'] ++ after = Break.cr.bytes ++ after := rfl
    rw [findEventBoundary, ← hcons, hbytes, hlen]
    by_cases hend : Break.cr = .cr ∧ after = []
    · rw [if_pos hend, if_pos hend]
    · rw [if_neg hend, if_neg hend]
      rfl

/-! ## Blocks -/

/-- The lines up to the first blank line that is not the first line, the line
break of that blank line, and the lines after it. -/
def splitBlock : List Line → Option (List Line × Break × List Line)
  | [] => none
  | [_] => none
  | l :: m :: lines =>
    if m.text = [] then some ([l], m.brk, lines)
    else (splitBlock (m :: lines)).map fun p => (l :: p.1, p.2.1, p.2.2)

/-- The text of a block: its lines, without the break of the last one. -/
def joined : List Line → Bytes
  | [] => []
  | [l] => l.text
  | l :: m :: lines => l.text ++ (l.brk.bytes ++ joined (m :: lines))

theorem render_eq_nil {tail : Bytes} {lines : List Line} :
    render tail lines = [] ↔ lines = [] ∧ tail = [] := by
  cases lines with
  | nil => exact ⟨fun h => ⟨rfl, h⟩, fun h => h.2⟩
  | cons l lines =>
    refine ⟨fun h => ?_, fun h => by cases h.1⟩
    have hbreak : l.brk.bytes ≠ [] := by cases l.brk <;> exact List.cons_ne_nil _ _
    exact absurd (List.append_eq_nil_iff.mp (List.append_eq_nil_iff.mp h).2).1 hbreak

theorem splitBlock_append {lines block rest : List Line} {close : Break}
    (h : splitBlock lines = some (block, close, rest)) : lines = block ++ ⟨[], close⟩ :: rest := by
  induction lines generalizing block with
  | nil => cases h
  | cons l lines ih =>
    cases lines with
    | nil => cases h
    | cons m lines =>
      rw [splitBlock] at h
      split at h
      · next hblank =>
        cases h
        rw [← hblank]
        rfl
      · obtain ⟨⟨block', close', rest'⟩, hp, heq⟩ := Option.map_eq_some_iff.mp h
        cases heq
        rw [ih hp]
        rfl

theorem splitBlock_length {lines block rest : List Line} {close : Break}
    (h : splitBlock lines = some (block, close, rest)) : rest.length < lines.length := by
  rw [splitBlock_append h, List.length_append, List.length_cons]
  omega

/-- The parser finds the end of the block. -/
theorem findEventBoundary_render {tail : Bytes} {lines : List Line} (h : Canonical tail lines) :
    findEventBoundary (render tail lines) =
      match splitBlock lines with
      | none => none
      | some (block, close, rest) =>
        if close = .cr ∧ render tail rest = [] then none else some (joined block, render tail rest) := by
  induction lines with
  | nil => exact findEventBoundary_free h
  | cons l lines ih =>
    show findEventBoundary (l.text ++ (l.brk.bytes ++ render tail lines)) = _
    rw [findEventBoundary_text h.1, findEventBoundary_break h.2.1]
    cases lines with
    | nil =>
      show Option.map _ (if l.brk = .cr ∧ tail = [] then none else _) = none
      by_cases hend : l.brk = .cr ∧ tail = []
      · rw [if_pos hend]
        rfl
      · rw [if_neg hend]
        show Option.map _ (match lineBreakLen tail with
          | none => none
          | some 0 => _
          | some second => _) = none
        have htail : findEventBoundary (render tail []) = none := findEventBoundary_free h.2.2
        rw [lineBreakLen_free h.2.2, htail]
        rfl
    | cons m lines =>
      have hsome : ¬ (l.brk = .cr ∧ render tail (m :: lines) = []) := by
        rw [render_eq_nil]
        exact fun hend => List.cons_ne_nil _ _ hend.2.1
      rw [if_neg hsome, splitBlock]
      by_cases hblank : m.text = []
      · -- the blank line ends the block
        rw [if_pos hblank]
        have hafter : render tail (m :: lines) = m.brk.bytes ++ render tail lines := by
          show m.text ++ _ = _
          rw [hblank]
          rfl
        rw [hafter, lineBreakLen_break h.2.2.2.1]
        show _ = if m.brk = .cr ∧ render tail lines = [] then none
          else some (l.text, render tail lines)
        by_cases hend : m.brk = .cr ∧ render tail lines = []
        · rw [if_pos hend, if_pos hend]
          rfl
        · rw [if_neg hend, if_neg hend]
          have hdrop : (m.brk.bytes ++ render tail lines).drop m.brk.bytes.length =
              render tail lines := List.drop_left
          cases hbrk : m.brk <;> rw [hbrk] at hdrop <;>
            exact congrArg some (Prod.ext (List.append_nil l.text) hdrop)
      · rw [if_neg hblank]
        have htext : lineBreakLen (render tail (m :: lines)) = some 0 :=
          lineBreakLen_text h.2.2.1 hblank _
        rw [htext, ih h.2.2]
        cases hblock : splitBlock (m :: lines) with
        | none => rfl
        | some p =>
          obtain ⟨block, close, rest⟩ := p
          dsimp only [Option.map_some]
          by_cases hend : close = .cr ∧ render tail rest = []
          · rw [if_pos hend, if_pos hend]
            rfl
          · rw [if_neg hend, if_neg hend]
            have hjoined : joined (l :: block) = l.text ++ (l.brk.bytes ++ joined block) := by
              cases block with
              | nil =>
                have happend := splitBlock_append hblock
                rw [List.nil_append, List.cons.injEq] at happend
                exact absurd (by rw [happend.1]) hblank
              | cons b block => rfl
            rw [hjoined]
            rfl

/-! ## What the blocks say -/

structure Block where
  lines : List Line
  close : Break
  /-- Nothing follows its blank line. -/
  last : Bool

def blocks (tail : Bytes) (lines : List Line) : List Block :=
  match _h : splitBlock lines with
  | none => []
  | some (block, close, rest) => ⟨block, close, render tail rest = []⟩ :: blocks tail rest
termination_by lines.length
decreasing_by exact splitBlock_length _h

theorem blocks_none {tail : Bytes} {lines : List Line} (h : splitBlock lines = none) :
    blocks tail lines = [] := by
  rw [blocks]
  split
  · rfl
  · next hsome =>
    rw [h] at hsome
    cases hsome

theorem blocks_some {tail : Bytes} {lines block rest : List Line} {close : Break}
    (h : splitBlock lines = some (block, close, rest)) :
    blocks tail lines = ⟨block, close, render tail rest = []⟩ :: blocks tail rest := by
  rw [blocks]
  split
  · next hnone =>
    rw [h] at hnone
    cases hnone
  · next hsome =>
    rw [h] at hsome
    cases hsome
    rfl

/-- As the parser reads a block: a lone `\r` at the end of the stream might be
the half of a line break. -/
def Block.read (b : Block) : Option SseEvent :=
  if b.close = .cr ∧ b.last then none else blockEvent (joined b.lines)

/-- Line by line. -/
def Block.plain (b : Block) : Option SseEvent := eventOf ((b.lines.map (·.text)).filter (· ≠ []))

theorem canonical_rest {tail : Bytes} {block rest : List Line} {close : Break}
    (h : Canonical tail (block ++ ⟨[], close⟩ :: rest)) :
    (∀ l ∈ block, Free l.text) ∧ Canonical tail rest := by
  induction block with
  | nil => exact ⟨fun l hl => (by cases hl), h.2.2⟩
  | cons b block ih =>
    obtain ⟨hfree, hrest⟩ := ih h.2.2
    refine ⟨fun l hl => ?_, hrest⟩
    rcases List.mem_cons.mp hl with rfl | hl
    · exact h.1
    · exact hfree l hl

theorem streamEvents_render {tail : Bytes} {lines : List Line} (h : Canonical tail lines) :
    SseParser.streamEvents (render tail lines) = (blocks tail lines).filterMap Block.read := by
  have hcut := findEventBoundary_render h
  unfold SseParser.streamEvents
  cases hblock : splitBlock lines with
  | none =>
    rw [hblock] at hcut
    have hdrain : framing.drain (render tail lines) = ([], render tail lines) :=
      Framing.drain_none hcut
    rw [hdrain, blocks_none hblock]
    rfl
  | some p =>
    obtain ⟨block, close, rest⟩ := p
    have hlt := splitBlock_length hblock
    rw [splitBlock_append hblock] at h
    obtain ⟨-, hrest⟩ := canonical_rest h
    rw [hblock] at hcut
    dsimp only at hcut
    rw [blocks_some hblock]
    by_cases hend : close = .cr ∧ render tail rest = []
    · -- the last line break is not known to be over, and no block follows
      rw [if_pos hend] at hcut
      have hdrain : framing.drain (render tail lines) = ([], render tail lines) :=
        Framing.drain_none hcut
      have hread : Block.read ⟨block, close, render tail rest = []⟩ = none :=
        if_pos ⟨hend.1, decide_eq_true hend.2⟩
      have hnil : blocks tail rest = [] := by
        rw [(render_eq_nil.mp hend.2).1]
        exact blocks_none rfl
      rw [hdrain, List.filterMap_cons_none hread, hnil]
      rfl
    · rw [if_neg hend] at hcut
      have hdrain : framing.drain (render tail lines) =
          (joined block :: (framing.drain (render tail rest)).1,
            (framing.drain (render tail rest)).2) := Framing.drain_some hcut
      have hread : Block.read ⟨block, close, render tail rest = []⟩ = blockEvent (joined block) :=
        if_neg fun hc => hend ⟨hc.1, of_decide_eq_true hc.2⟩
      have hih := streamEvents_render hrest
      unfold SseParser.streamEvents at hih
      rw [hdrain, List.filterMap_cons, List.filterMap_cons, hread, hih]
termination_by lines.length

/-- The blocks of lines that are all ended alike. -/
def Block.retag (t : Break) (b : Block) : Block := ⟨Sse.retag t b.lines, t, b.last⟩

theorem splitBlock_retag (t : Break) (lines : List Line) :
    splitBlock (retag t lines) =
      (splitBlock lines).map fun p => (retag t p.1, t, retag t p.2.2) := by
  induction lines with
  | nil => rfl
  | cons l lines ih =>
    cases lines with
    | nil => rfl
    | cons m lines =>
      show (if m.text = [] then _ else _) = Option.map _ (if m.text = [] then _ else _)
      by_cases hblank : m.text = []
      · rw [if_pos hblank, if_pos hblank]
        rfl
      · rw [if_neg hblank, if_neg hblank]
        have hrest : splitBlock (⟨m.text, t⟩ :: retag t lines) =
            (splitBlock (m :: lines)).map fun p => (retag t p.1, t, retag t p.2.2) := ih
        rw [Option.map_map]
        show (splitBlock (⟨m.text, t⟩ :: retag t lines)).map _ = _
        rw [hrest, Option.map_map]
        rfl

theorem render_retag_eq_nil {tail : Bytes} {t : Break} {lines : List Line} :
    render tail (retag t lines) = [] ↔ render tail lines = [] := by
  rw [render_eq_nil, render_eq_nil]
  unfold retag
  rw [List.map_eq_nil_iff]

theorem blocks_retag (tail : Bytes) (t : Break) (lines : List Line) :
    blocks tail (retag t lines) = (blocks tail lines).map (Block.retag t) := by
  have hsplit := splitBlock_retag t lines
  cases hblock : splitBlock lines with
  | none =>
    rw [hblock] at hsplit
    rw [blocks_none hblock, blocks_none hsplit]
    rfl
  | some p =>
    obtain ⟨block, close, rest⟩ := p
    have hlt := splitBlock_length hblock
    rw [hblock] at hsplit
    rw [blocks_some hblock, blocks_some hsplit, blocks_retag tail t rest, List.map_cons]
    unfold Block.retag
    rw [List.cons.injEq, Block.mk.injEq]
    exact ⟨⟨rfl, rfl, decide_eq_decide.mpr render_retag_eq_nil⟩, rfl⟩
termination_by lines.length

/-- What the lines of a block are like. -/
structure Block.Sound (b : Block) : Prop where
  nonempty : b.lines ≠ []
  free : ∀ l ∈ b.lines, Free l.text
  rest : ∀ l ∈ b.lines.tail, l.text ≠ []

theorem splitBlock_rest {lines block rest : List Line} {close : Break}
    (h : splitBlock lines = some (block, close, rest)) :
    block ≠ [] ∧ ∀ l ∈ block.tail, l.text ≠ [] := by
  induction lines generalizing block with
  | nil => cases h
  | cons l lines ih =>
    cases lines with
    | nil => cases h
    | cons m lines =>
      rw [splitBlock] at h
      split at h
      · cases h
        exact ⟨List.cons_ne_nil _ _, fun l hl => by cases hl⟩
      · next hblank =>
        obtain ⟨⟨block', close', rest'⟩, hp, heq⟩ := Option.map_eq_some_iff.mp h
        cases heq
        obtain ⟨hne, htail⟩ := ih hp
        refine ⟨List.cons_ne_nil _ _, fun c hc => ?_⟩
        cases block' with
        | nil => exact absurd rfl hne
        | cons b block' =>
          have happend := splitBlock_append hp
          rw [List.cons_append, List.cons.injEq] at happend
          rcases List.mem_cons.mp hc with rfl | hc
          · rw [← happend.1]
            exact hblank
          · exact htail c hc

theorem sound_of_mem {tail : Bytes} {lines : List Line} (h : Canonical tail lines) {b : Block}
    (hb : b ∈ blocks tail lines) : b.Sound := by
  cases hblock : splitBlock lines with
  | none =>
    rw [blocks_none hblock] at hb
    cases hb
  | some p =>
    obtain ⟨block, close, rest⟩ := p
    have hlt := splitBlock_length hblock
    rw [splitBlock_append hblock] at h
    obtain ⟨hfree, hrest⟩ := canonical_rest h
    rw [blocks_some hblock] at hb
    rcases List.mem_cons.mp hb with rfl | hb
    · obtain ⟨hne, htail⟩ := splitBlock_rest hblock
      exact ⟨hne, hfree, htail⟩
    · exact sound_of_mem hrest hb
termination_by lines.length

/-! ## The lines of a block -/

/-- Every piece between two `\n` begins with a line, and a lone `\r` or the
half of a line break may follow it. -/
theorem mem_split_joined {lines : List Line} (hne : lines ≠ []) (hfree : ∀ l ∈ lines, Free l.text)
    {piece : Bytes} (h : piece ∈ split (joined lines)) :
    ∃ l ∈ lines, ∃ z, piece = l.text ++ z ∧ (z = [] ∨ z.head? = some (ascii '\r')) := by
  induction lines generalizing piece with
  | nil => exact absurd rfl hne
  | cons l lines ih =>
    have hl := hfree l List.mem_cons_self
    cases lines with
    | nil =>
      have hpiece : piece ∈ split l.text := h
      rw [split_free hl.1, List.mem_singleton] at hpiece
      exact ⟨l, List.mem_cons_self, [], by rw [hpiece, List.append_nil], Or.inl rfl⟩
    | cons m lines =>
      have hrest : ∀ {q : Bytes}, q ∈ split (joined (m :: lines)) → ∃ c ∈ l :: m :: lines,
          ∃ z, q = c.text ++ z ∧ (z = [] ∨ z.head? = some (ascii '\r')) := by
        intro q hq
        obtain ⟨c, hc, hz⟩ := ih (List.cons_ne_nil _ _)
          (fun c hc => hfree c (List.mem_cons_of_mem _ hc)) hq
        exact ⟨c, List.mem_cons_of_mem _ hc, hz⟩
      have hjoined : joined (l :: m :: lines) = l.text ++ (l.brk.bytes ++ joined (m :: lines)) := rfl
      rw [hjoined] at h
      cases hbrk : l.brk with
      | lf =>
        rw [hbrk] at h
        rw [show Break.lf.bytes ++ joined (m :: lines) = ascii '\n' :: joined (m :: lines) from rfl,
          split_append hl.1] at h
        rcases List.mem_cons.mp h with rfl | h
        · exact ⟨l, List.mem_cons_self, [], (List.append_nil _).symm, Or.inl rfl⟩
        · exact hrest h
      | crlf =>
        rw [hbrk] at h
        have htext : l.text ++ (Break.crlf.bytes ++ joined (m :: lines)) =
            (l.text ++ [ascii '\r']) ++ ascii '\n' :: joined (m :: lines) := by
          rw [List.append_assoc]
          rfl
        have hnolf : ascii '\n' ∉ l.text ++ [ascii '\r'] := by
          rw [List.mem_append, not_or]
          exact ⟨hl.1, by decide⟩
        rw [htext, split_append hnolf] at h
        rcases List.mem_cons.mp h with rfl | h
        · exact ⟨l, List.mem_cons_self, [ascii '\r'], rfl, Or.inr rfl⟩
        · exact hrest h
      | cr =>
        rw [hbrk] at h
        have htext : l.text ++ (Break.cr.bytes ++ joined (m :: lines)) =
            (l.text ++ [ascii '\r']) ++ joined (m :: lines) := by
          rw [List.append_assoc]
          rfl
        have hnolf : ascii '\n' ∉ l.text ++ [ascii '\r'] := by
          rw [List.mem_append, not_or]
          exact ⟨hl.1, by decide⟩
        cases hpieces : split (joined (m :: lines)) with
        | nil => exact absurd hpieces (split_ne_nil _)
        | cons q qs =>
          rw [htext, split_prefix hnolf hpieces] at h
          rcases List.mem_cons.mp h with rfl | h
          · exact ⟨l, List.mem_cons_self, ascii '\r' :: q, List.append_assoc _ _ _, Or.inr rfl⟩
          · exact hrest (hpieces ▸ List.mem_cons_of_mem _ h)

/-- The same of the lines the parser makes of the pieces. -/
theorem mem_splitLines_joined {lines : List Line} (hne : lines ≠ [])
    (hfree : ∀ l ∈ lines, Free l.text) {line : Bytes} (h : line ∈ splitLines (joined lines)) :
    ∃ l ∈ lines, ∃ z, line = l.text ++ z ∧ (z = [] ∨ z.head? = some (ascii '\r')) := by
  obtain ⟨piece, hpiece, rfl⟩ := List.mem_map.mp (List.mem_filter.mp h).1
  obtain ⟨l, hl, z, rfl, hz⟩ := mem_split_joined hne hfree hpiece
  refine ⟨l, hl, ?_⟩
  unfold stripCr
  split
  · rcases hz with rfl | hcr
    · next hlast =>
      rw [List.append_nil] at hlast
      exact absurd (List.mem_of_getLast? hlast) (hfree l hl).2
    · cases z with
      | nil => cases hcr
      | cons c z =>
        refine ⟨(c :: z).dropLast, List.dropLast_append_of_ne_nil (List.cons_ne_nil _ _), ?_⟩
        cases z with
        | nil => exact Or.inl rfl
        | cons d z => exact Or.inr hcr
  · exact ⟨z, rfl, hz⟩

/-- A block that says something says it in one of its lines. -/
theorem plain_of_read {b : Block} (hb : b.Sound) (h : b.read ≠ none) : b.plain ≠ none := by
  have hevent : blockEvent (joined b.lines) ≠ none := by
    unfold Block.read at h
    split at h
    · exact absurd rfl h
    · exact h
  unfold blockEvent at hevent
  rw [ne_eq, eventOf_none] at hevent
  push Not at hevent
  obtain ⟨line, hline, htold⟩ := hevent
  obtain ⟨l, hl, z, rfl, hz⟩ := mem_splitLines_joined hb.nonempty hb.free hline
  have hcut : l.text ≠ [] ∧ readLine l.text ≠ .other := by
    rcases readLine_cases (l.text ++ z) with ⟨value, -, hdata⟩ | ⟨value, -, hdata⟩ | hother
    · obtain ⟨hne, value', hsaid⟩ := hdata.cut (by decide) (by decide) hz
      exact ⟨hne, by rw [readLine_data hsaid]; simp⟩
    · obtain ⟨hne, value', hsaid⟩ := hdata.cut (by decide) (by decide) hz
      exact ⟨hne, by rw [readLine_event hsaid]; simp⟩
    · exact absurd hother htold
  unfold Block.plain
  rw [ne_eq, eventOf_none]
  intro hall
  refine hcut.2 (hall l.text ?_)
  exact List.mem_filter.mpr ⟨List.mem_map_of_mem hl, decide_eq_true hcut.1⟩

/-- A single line is read as it is. -/
theorem splitLines_free {text : Bytes} (h : Free text) :
    splitLines text = [text].filter (· ≠ []) := by
  unfold splitLines
  rw [split_free h.1, List.map_singleton, stripCr_free h.2]

theorem splitLines_break {text : Bytes} (h : Free text) {b : Break} (hb : b ≠ .cr) (s : Bytes) :
    splitLines (text ++ (b.bytes ++ s)) = [text].filter (· ≠ []) ++ splitLines s := by
  unfold splitLines
  cases b with
  | cr => exact absurd rfl hb
  | lf =>
    show ((split (text ++ ascii '\n' :: s)).map stripCr).filter _ = _
    rw [split_append h.1, List.map_cons, stripCr_free h.2, ← List.singleton_append, List.filter_append]
  | crlf =>
    have htext : text ++ (Break.crlf.bytes ++ s) = (text ++ [ascii '\r']) ++ ascii '\n' :: s := by
      rw [List.append_assoc]
      rfl
    have hnolf : ascii '\n' ∉ text ++ [ascii '\r'] := by
      rw [List.mem_append, not_or]
      exact ⟨h.1, by decide⟩
    rw [htext, split_append hnolf, List.map_cons, stripCr_append, ← List.singleton_append,
      List.filter_append]

theorem splitLines_retag {t : Break} (ht : t ≠ .cr) {lines : List Line}
    (hfree : ∀ l ∈ lines, Free l.text) :
    splitLines (joined (retag t lines)) = (lines.map (·.text)).filter (· ≠ []) := by
  induction lines with
  | nil => rfl
  | cons l lines ih =>
    have hl := hfree l List.mem_cons_self
    cases lines with
    | nil => exact splitLines_free hl
    | cons m lines =>
      have hrest := ih fun c hc => hfree c (List.mem_cons_of_mem _ hc)
      show splitLines (l.text ++ (t.bytes ++ joined (retag t (m :: lines)))) = _
      rw [splitLines_break hl ht, hrest, ← List.filter_append]
      rfl

/-- With line breaks that `splitLines` knows. -/
theorem read_retag {t : Break} (ht : t ≠ .cr) {b : Block} (hb : b.Sound) :
    (b.retag t).read = b.plain := by
  unfold Block.read Block.plain blockEvent
  rw [if_neg fun h => ht h.1]
  show eventOf (splitLines (joined (Sse.retag t b.lines))) = _
  rw [splitLines_retag ht hb.free]

/-- A block of one line, with a byte after it. -/
theorem read_single {b : Block} (hb : b.Sound) (hone : b.lines.length = 1) (hlast : b.last = false) :
    b.read = b.plain := by
  obtain ⟨l, hl⟩ := List.length_eq_one_iff.mp hone
  have hfree := hb.free l (by rw [hl]; exact List.mem_cons_self)
  unfold Block.read Block.plain blockEvent
  rw [if_neg fun h => (by rw [hlast] at h; cases h.2), hl]
  show eventOf (splitLines l.text) = _
  rw [splitLines_free hfree]
  rfl

/-- With lone `\r`, a block is one piece. -/
theorem joined_cr {lines : List Line} (hne : lines ≠ []) (hfree : ∀ l ∈ lines, Free l.text)
    (hrest : ∀ l ∈ lines.tail, l.text ≠ []) :
    ascii '\n' ∉ joined (retag .cr lines) ∧
      (joined (retag .cr lines)).getLast? ≠ some (ascii '\r') ∧
      (2 ≤ lines.length → ascii '\r' ∈ joined (retag .cr lines)) := by
  induction lines with
  | nil => exact absurd rfl hne
  | cons l lines ih =>
    have hl := hfree l List.mem_cons_self
    cases lines with
    | nil =>
      refine ⟨hl.1, fun hlast => hl.2 (List.mem_of_getLast? hlast), fun hlength => ?_⟩
      rw [List.length_singleton] at hlength
      omega
    | cons m lines =>
      have hm : m.text ≠ [] := hrest m List.mem_cons_self
      obtain ⟨hlf, hlast, -⟩ := ih (List.cons_ne_nil _ _)
        (fun c hc => hfree c (List.mem_cons_of_mem _ hc))
        (fun c hc => hrest c (List.mem_cons_of_mem _ hc))
      have hjoined : joined (retag .cr (l :: m :: lines)) =
          l.text ++ (ascii '\r' :: joined (retag .cr (m :: lines))) := rfl
      have hsome : joined (retag .cr (m :: lines)) ≠ [] := by
        intro hnil
        cases lines with
        | nil => exact hm hnil
        | cons c lines => exact hm (List.append_eq_nil_iff.mp hnil).1
      rw [hjoined]
      refine ⟨?_, ?_, fun _ => List.mem_append_right _ List.mem_cons_self⟩
      · rw [List.mem_append, List.mem_cons, not_or, not_or]
        exact ⟨hl.1, by decide, hlf⟩
      · rw [← List.singleton_append, ← List.append_assoc, List.getLast?_append_of_ne_nil _ hsome]
        exact hlast

theorem read_cr {b : Block} (hb : b.Sound) (hmany : 2 ≤ b.lines.length) {e : SseEvent}
    (h : (b.retag .cr).read = some e) : e.HasCr := by
  obtain ⟨hlf, hlast, hcr⟩ := joined_cr hb.nonempty hb.free hb.rest
  have hevent : blockEvent (joined (retag .cr b.lines)) = some e := by
    unfold Block.read at h
    split at h
    · cases h
    · exact h
  have hsome : joined (retag .cr b.lines) ≠ [] := List.ne_nil_of_mem (hcr hmany)
  have hlines : splitLines (joined (retag .cr b.lines)) = [joined (retag .cr b.lines)] := by
    unfold splitLines
    rw [split_free hlf, List.map_singleton, stripCr, if_neg hlast]
    exact List.filter_eq_self.mpr fun l hl => decide_eq_true (List.mem_singleton.mp hl ▸ hsome)
  unfold blockEvent at hevent
  rw [hlines] at hevent
  exact eventOf_single (hcr hmany) hevent

/-! ## The law -/

/-- The blocks of a stream, whatever its line breaks are. -/
def streamBlocks (stream : Bytes) : List Block := blocks (lex stream).2 (lex stream).1

theorem streamEvents_blocks (stream : Bytes) :
    SseParser.streamEvents stream = (streamBlocks stream).filterMap Block.read := by
  have hrender := streamEvents_render (canonical_lex stream)
  rw [render_lex] at hrender
  exact hrender

theorem streamEvents_reterminate (t : Break) (stream : Bytes) :
    SseParser.streamEvents (reterminate t stream) =
      (streamBlocks stream).filterMap fun b => (b.retag t).read := by
  unfold reterminate streamBlocks
  rw [streamEvents_render (canonical_retag t (canonical_lex stream)), blocks_retag,
    List.filterMap_map]
  rfl

theorem Block.Sound.retag {b : Block} (hb : b.Sound) (t : Break) : (b.retag t).Sound := by
  obtain ⟨hne, hfree, hrest⟩ := hb
  have hmem : ∀ {lines : List Line} {l : Line}, l ∈ Sse.retag t lines → ∃ c ∈ lines, c.text = l.text := by
    intro lines l hl
    obtain ⟨c, hc, rfl⟩ := List.mem_map.mp hl
    exact ⟨c, hc, rfl⟩
  refine ⟨fun hnil => hne (List.map_eq_nil_iff.mp hnil), fun l hl => ?_, fun l hl => ?_⟩
  · obtain ⟨c, hc, htext⟩ := hmem hl
    exact htext ▸ hfree c hc
  · have htail : (Block.retag t b).lines.tail = Sse.retag t b.lines.tail := by
      show (b.lines.map _).tail = b.lines.tail.map _
      rw [List.map_tail]
    rw [htail] at hl
    obtain ⟨c, hc, htext⟩ := hmem hl
    exact htext ▸ hrest c hc

theorem plain_retag (t : Break) (b : Block) : (b.retag t).plain = b.plain := by
  unfold Block.plain Block.retag Sse.retag
  rw [List.map_map]
  rfl

/-- Every block with something to say has one line, and a byte follows it. -/
def SingleLined (stream : Bytes) : Prop :=
  ∀ b ∈ streamBlocks stream, b.plain ≠ none → b.lines.length = 1 ∧ b.last = false

/-- The events of a stream are the same with any kind of line break. -/
def SameBreaks (stream : Bytes) : Prop :=
  ∀ t, SseParser.streamEvents (reterminate t stream) = SseParser.streamEvents stream

theorem sameBreaks_iff (stream : Bytes) : SameBreaks stream ↔ SingleLined stream := by
  have hsound : ∀ b ∈ streamBlocks stream, b.Sound := fun b hb =>
    sound_of_mem (canonical_lex stream) hb
  constructor
  · intro hsame b hb hplain
    -- with `\n` the lines are read one by one, so with `\r` they must be too
    have hcr : (streamBlocks stream).filterMap (fun b => (b.retag .cr).read) =
        (streamBlocks stream).filterMap Block.plain := by
      have hlf : (streamBlocks stream).filterMap (fun b => (b.retag .lf).read) =
          (streamBlocks stream).filterMap Block.plain :=
        List.filterMap_congr fun b hb => read_retag (by decide) (hsound b hb)
      rw [← hlf, ← streamEvents_reterminate, ← streamEvents_reterminate, hsame, hsame]
    have hevery := Lists.eq_of_filterMap_eq (fun b hb hread => by
      have hplain := plain_of_read ((hsound b hb).retag .cr) hread
      rwa [plain_retag] at hplain) hcr b hb
    obtain ⟨e, he⟩ := Option.ne_none_iff_exists'.mp hplain
    rw [he] at hevery
    refine ⟨?_, ?_⟩
    · by_contra hone
      have hnonempty := List.length_pos_of_ne_nil (hsound b hb).nonempty
      have hhas := read_cr (hsound b hb) (by omega) hevery
      refine eventOf_free (fun l hl => ?_) he hhas
      obtain ⟨c, hc, rfl⟩ := List.mem_map.mp (List.mem_filter.mp hl).1
      exact ((hsound b hb).free c hc).2
    · by_contra hlast
      rw [Bool.not_eq_false] at hlast
      have hnone : (b.retag .cr).read = none := if_pos ⟨rfl, hlast⟩
      rw [hnone] at hevery
      cases hevery
  · intro hsingle
    have hplain : ∀ b ∈ streamBlocks stream, ∀ c : Block, c.Sound → c.plain = b.plain →
        c.lines.length = b.lines.length → c.last = b.last → c.read = b.plain := by
      intro b hb c hc htold hlength hlast
      by_cases hnone : b.plain = none
      · by_contra hread
        rw [hnone] at hread htold
        exact plain_of_read hc hread htold
      · obtain ⟨hone, hmore⟩ := hsingle b hb hnone
        rw [← htold]
        exact read_single hc (hlength.trans hone) (hlast.trans hmore)
    have hstream : SseParser.streamEvents stream = (streamBlocks stream).filterMap Block.plain := by
      rw [streamEvents_blocks]
      exact List.filterMap_congr fun b hb => hplain b hb b (hsound b hb) rfl rfl rfl
    intro t
    rw [hstream, streamEvents_reterminate]
    refine List.filterMap_congr fun b hb => ?_
    exact hplain b hb _ ((hsound b hb).retag t) (plain_retag t b) (List.length_map _) rfl

/-- What is claimed of a stream: neither where it is cut nor how its lines end
makes a difference. -/
structure SseLaw (stream : Bytes) : Prop where
  chunks : ∀ cs cs' : List Bytes, cs.flatten = stream → cs'.flatten = stream →
    SseParser.new.events cs = SseParser.new.events cs'
  breaks : ∀ (t : Break) (cs cs' : List Bytes), cs.flatten = stream →
    cs'.flatten = reterminate t stream → SseParser.new.events cs' = SseParser.new.events cs

theorem SseLaw.sameBreaks {stream : Bytes} (h : SseLaw stream) : SameBreaks stream := by
  intro t
  have hsame := h.breaks t [stream] [reterminate t stream] List.flatten_singleton
    List.flatten_singleton
  rw [SseParser.events_chunks, SseParser.events_chunks, List.flatten_singleton,
    List.flatten_singleton] at hsame
  exact hsame

/-- Of every stream. -/
theorem sse_law (stream : Bytes) : SseLaw stream ↔ SingleLined stream := by
  rw [← sameBreaks_iff]
  refine ⟨SseLaw.sameBreaks, fun hsame => ⟨fun cs cs' hcs hcs' => ?_, fun t cs cs' hcs hcs' => ?_⟩⟩
  · rw [SseParser.events_chunks, SseParser.events_chunks, hcs, hcs']
  · rw [SseParser.events_chunks, SseParser.events_chunks, hcs, hcs']
    exact hsame t

/-- Two data lines: with lone `\r` the second is part of the first one's
value. -/
theorem two_data_lines : ¬ ∀ stream, SseLaw stream := by
  intro hlaw
  let stream := utf8 "data: a\ndata: b\n\n"
  have hlex : lex stream = ([⟨utf8 "data: a", .lf⟩, ⟨utf8 "data: b", .lf⟩, ⟨[], .lf⟩], []) := by
    decide
  have hblocks : streamBlocks stream =
      ⟨[⟨utf8 "data: a", .lf⟩, ⟨utf8 "data: b", .lf⟩], .lf, true⟩ :: blocks [] [] := by
    have hsplit : splitBlock [⟨utf8 "data: a", .lf⟩, ⟨utf8 "data: b", .lf⟩, ⟨[], .lf⟩] =
        some ([⟨utf8 "data: a", .lf⟩, ⟨utf8 "data: b", .lf⟩], .lf, []) := by decide
    unfold streamBlocks
    rw [hlex, blocks_some hsplit]
    rfl
  have hread : readLine (utf8 "data: a") = .data [ascii 'a'] :=
    readLine_data ⟨⟨"data: a", rfl⟩, Or.inr ⟨[ascii ' ', ascii 'a'], by decide, rfl⟩⟩
  have hsingle := (sameBreaks_iff stream).mp (hlaw stream).sameBreaks _
    (hblocks ▸ List.mem_cons_self) fun hnone => by
      have hother := eventOf_none.mp hnone (utf8 "data: a") (by decide)
      rw [hread] at hother
      cases hother
  exact absurd hsingle.1 (by decide)

end RapidRouter.Core.Sse
