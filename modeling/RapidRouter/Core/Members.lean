import RapidRouter.Core.Tokens
import RapidRouter.Lib.Json.Text

/-!
# The members of a body

A probe that succeeds has cut the body into members (`Walk`): the content of
each key and the text of each value, with the white space around them. The
machine reads the body member by member, and needs no more of one than these
two (`run_render`), so a text that is exchanged for another leaves the others
as they were. That is what splicing a model relies on.
-/

namespace RapidRouter.Core.Scanner

open Json

def Blank (s : Bytes) : Prop := ∀ c ∈ s, isWs c = true

/-- A member as the scanner delimits it. -/
structure Entry where
  before : Bytes
  key : Bytes
  middle : Bytes
  after : Bytes
  text : Bytes
  trail : Bytes

namespace Entry

/-- What stands in front of the value. -/
def lead (e : Entry) : Bytes := e.before ++ (quoted e.key ++ (e.middle ++ ascii ':' :: e.after))

def bytes (e : Entry) : Bytes := e.lead ++ (e.text ++ e.trail)

/-- What the machine makes of it. -/
def read (e : Entry) : Option (Bytes × Raw) :=
  if contentOk 0 e.key then (parse e.text).map fun v => (e.key, v) else none

/-- Only what the scanner has looked at is known of a member. -/
structure Cut (e : Entry) : Prop where
  before : Blank e.before
  key : ∃ s rest, Within s e.key rest
  unescaped : ascii '\\' ∉ e.key
  middle : Blank e.middle
  after : Blank e.after
  text : Reads e.text
  trail : Blank e.trail

end Entry

/-- Members with their commas, up to the closing brace. -/
def render : List Entry → Bytes
  | [] => []
  | [e] => e.bytes ++ [ascii '}']
  | e :: es => e.bytes ++ ascii ',' :: render es

/-- All members, when each can be read. -/
def readAll : List Entry → Option (List (Bytes × Raw))
  | [] => some []
  | e :: es => e.read.bind fun m => (readAll es).map (m :: ·)

theorem render_cons {e : Entry} {es : List Entry} (h : es ≠ []) :
    render (e :: es) = e.bytes ++ ascii ',' :: render es := by
  cases es with
  | nil => exact absurd rfl h
  | cons e' es => rfl

/-! ## The machine over a member -/

/-- White space makes no difference here. -/
def Waits (st : State) : Prop := ∀ c, isWs c = true → step st c = some st

theorem waits_key (done : List (Bytes × Raw)) (stack : List Frame) : Waits ⟨.key done, stack⟩ :=
  fun _ hc => if_pos hc

theorem waits_colon (done : List (Bytes × Raw)) (key : Bytes) (stack : List Frame) :
    Waits ⟨.colon done key, stack⟩ := fun _ hc => if_pos hc

theorem waits_value (stack : List Frame) : Waits ⟨.value, stack⟩ := fun _ hc => if_pos hc

theorem waits_after (v : Raw) (stack : List Frame) : Waits ⟨.after v, stack⟩ :=
  fun _ hc => if_pos hc

theorem Waits.run {st : State} (h : Waits st) {w : Bytes} (hw : Blank w) (s : Bytes) :
    Json.run st (w ++ s) = Json.run st s := by
  induction w with
  | nil => rfl
  | cons c w ih =>
    rw [List.cons_append, run_cons, h c (hw c List.mem_cons_self), Option.bind_some]
    exact ih fun d hd => hw d (List.mem_cons_of_mem _ hd)

theorem isNumberByte_ws {c : UInt8} (h : isWs c = true) : isNumberByte c = false := by
  simp only [isWs, Bool.or_eq_true, decide_eq_true_eq] at h
  rcases h with ((rfl | rfl) | rfl) | rfl <;> decide

/-- A value's text with white space behind it. -/
theorem run_trail {text trail : Bytes} (h : Reads text) (htrail : Blank trail) {c : UInt8}
    (hc : isNumberByte c = false) (rest : Bytes) (stack : List Frame) :
    run ⟨.value, stack⟩ (text ++ (trail ++ c :: rest)) =
      (parse text).bind fun v => run ⟨.after v, stack⟩ (c :: rest) := by
  cases trail with
  | nil => exact h.run hc rest stack
  | cons d trail =>
    have hd := htrail d List.mem_cons_self
    rw [List.cons_append, h.run (isNumberByte_ws hd)]
    congr 1
    funext v
    exact (waits_after v stack).run htrail (c :: rest)

/-- The machine from in front of a key to in front of its value. -/
theorem Entry.Cut.run_lead {e : Entry} (h : e.Cut) (done : List (Bytes × Raw)) (stack : List Frame)
    (s : Bytes) : run ⟨.key done, stack⟩ (e.lead ++ s) =
      if contentOk 0 e.key then run ⟨.value, .members done e.key :: stack⟩ s else none := by
  obtain ⟨s', rest, hwithin⟩ := h.key
  have hkey := (hwithin.other (e.middle ++ ascii ':' :: (e.after ++ s))).run (some done) stack 0 []
  have hsplit : e.lead ++ s =
      e.before ++ ascii '"' :: (e.key ++ ascii '"' :: (e.middle ++ ascii ':' :: (e.after ++ s))) := by
    unfold Entry.lead
    rw [List.append_assoc, List.append_assoc, quoted_append, List.append_assoc, List.cons_append]
  rw [hsplit, (waits_key done stack).run h.before, run_cons]
  show run ⟨inString (some done) [] 0, stack⟩ _ = _
  rw [hkey, List.append_nil]
  split_ifs
  · show run ⟨.colon done e.key.reverse.reverse, stack⟩ _ = _
    rw [List.reverse_reverse, (waits_colon done e.key stack).run h.middle]
    exact (waits_value _).run h.after s
  · rfl

theorem Entry.Cut.run_bytes {e : Entry} (h : e.Cut) (done : List (Bytes × Raw))
    (stack : List Frame) {c : UInt8} (hc : isNumberByte c = false) (rest : Bytes) :
    run ⟨.key done, stack⟩ (e.bytes ++ c :: rest) =
      e.read.bind fun m => run ⟨.after m.2, .members done m.1 :: stack⟩ (c :: rest) := by
  unfold Entry.bytes Entry.read
  rw [List.append_assoc, List.append_assoc, h.run_lead, run_trail h.text h.trail hc]
  split_ifs
  · rw [Option.bind_map]
    rfl
  · rfl

/-- The machine over an object's members. -/
theorem run_render {es : List Entry} (hne : es ≠ []) (hcut : ∀ e ∈ es, e.Cut)
    (done : List (Bytes × Raw)) (stack : List Frame) (rest : Bytes) :
    run ⟨.key done, stack⟩ (render es ++ rest) = (readAll es).bind fun ms =>
      run ⟨.after (.object (done.reverse ++ ms)), stack⟩ rest := by
  induction es generalizing done with
  | nil => exact absurd rfl hne
  | cons e es ih =>
    have he := hcut e List.mem_cons_self
    by_cases hlast : es = []
    · subst hlast
      unfold render readAll readAll
      rw [List.append_assoc, List.singleton_append, he.run_bytes done stack (by decide)]
      cases e.read with
      | none => rfl
      | some m =>
        show run ⟨.after (.object (m :: done).reverse), stack⟩ rest = _
        rw [List.reverse_cons]
        rfl
    · unfold readAll
      rw [render_cons hlast, List.append_assoc, List.cons_append,
        he.run_bytes done stack (by decide)]
      cases e.read with
      | none => rfl
      | some m =>
        show run ⟨.key (m :: done), stack⟩ (render es ++ rest) = _
        rw [ih hlast (fun e' he' => hcut e' (List.mem_cons_of_mem _ he')), Option.bind_some,
          Option.bind_map]
        congr 1
        funext ms
        show _ = run ⟨.after (.object (done.reverse ++ m :: ms)), stack⟩ rest
        rw [List.reverse_cons, List.append_assoc]
        rfl

/-- A body of these members, white space around them. -/
def bodyOf (start inner : Bytes) (es : List Entry) (trail : Bytes) : Bytes :=
  start ++ ascii '{' :: (inner ++ (render es ++ trail))

theorem parse_bodyOf {start inner trail : Bytes} {es : List Entry} (hstart : Blank start)
    (hinner : Blank inner) (hne : es ≠ []) (hcut : ∀ e ∈ es, e.Cut) (htrail : Blank trail) :
    parse (bodyOf start inner es trail) = (readAll es).map .object := by
  unfold parse bodyOf State.init
  rw [(waits_value []).run hstart, run_cons]
  show (run ⟨.key [], []⟩ _).bind State.finish = _
  rw [(waits_key [] []).run hinner, run_render hne hcut]
  cases readAll es with
  | none => rfl
  | some ms =>
    have hrest := (waits_after (.object ms) []).run htrail []
    rw [List.append_nil] at hrest
    show (run ⟨.after (.object ms), []⟩ trail).bind State.finish = _
    rw [hrest]
    rfl

/-! ## The scanner over the members -/

/-- What the scanner has seen of a value, with what is left after it. -/
inductive Told (e : Entry) (rest : Bytes) : Field → Prop where
  | model (t : Token) (hkey : e.key = utf8 "model") (hstart : t.start = e.text ++ rest)
    (hstop : t.stop = rest) (content : Bytes) (hcontent : ∃ s rest, Within s content rest)
    (hquoted : e.text = quoted content) : Told e rest (.model t)
  | stream (b : Option Bool) (hkey : e.key = utf8 "stream")
    (hparse : parse e.text = some (b.elim .null .bool)) : Told e rest (.stream b)
  | other (hmodel : e.key ≠ utf8 "model") (hstream : e.key ≠ utf8 "stream") : Told e rest .other

/-- The loop of `probe` over the members. -/
inductive Walk : Found → Bytes → List Entry → Found → Bytes → Prop where
  | last {found : Found} {e : Entry} {f : Field} {rest : Bytes} (hcut : e.Cut)
    (htold : Told e (e.trail ++ ascii '}' :: rest) f) :
    Walk found (e.bytes ++ ascii '}' :: rest) [e] (found.add f) rest
  | next {found found' : Found} {e : Entry} {es : List Entry} {f : Field} {s rest : Bytes}
    (hcut : e.Cut) (htold : Told e (e.trail ++ ascii ',' :: s) f)
    (h : Walk (found.add f) s es found' rest) :
    Walk found (e.bytes ++ ascii ',' :: s) (e :: es) found' rest

theorem ws_split (s : Bytes) : ∃ w, Blank w ∧ s = w ++ ws s :=
  ⟨s.takeWhile isWs, fun _ hc => List.mem_takeWhile_imp hc, List.takeWhile_append_dropWhile.symm⟩

theorem stringToken_split {s content rest : Bytes} (h : stringToken s = some (content, rest)) :
    s = quoted content ++ rest ∧ ∃ s', Within s' content rest := by
  cases s with
  | nil => cases h
  | cons c s =>
    by_cases hquote : c = ascii '"'
    · have hwithin := within_of_stringRest ((if_pos hquote).symm.trans h)
      refine ⟨?_, s, hwithin⟩
      rw [quoted_append, hquote]
      exact congrArg _ hwithin.eq
    · cases (if_neg hquote).symm.trans h

theorem token_split {s : Bytes} {t : Token} (h : token s = some t) : t.start = s ∧
    ∃ content, s = quoted content ++ t.stop ∧ ∃ s', Within s' content t.stop := by
  unfold token at h
  split at h
  · cases h
  · next content rest hs =>
    cases h
    exact ⟨rfl, content, stringToken_split hs⟩

theorem streamValue_split {s rest : Bytes} {b : Option Bool} (h : streamValue s = some (b, rest)) :
    ∃ text, s = text ++ rest ∧ Reads text ∧ parse text = some (b.elim .null .bool) := by
  unfold streamValue at h
  cases hhead : s.head? with
  | none =>
    rw [hhead] at h
    cases h
  | some c =>
    rw [hhead] at h
    dsimp only at h
    split_ifs at h
    · obtain ⟨rest', hp, hpair⟩ := Option.map_eq_some_iff.mp h
      cases hpair
      exact ⟨_, literal_split hp, reads_literal run_true, parse_literal run_true⟩
    · obtain ⟨rest', hp, hpair⟩ := Option.map_eq_some_iff.mp h
      cases hpair
      exact ⟨_, literal_split hp, reads_literal run_false, parse_literal run_false⟩
    · obtain ⟨rest', hp, hpair⟩ := Option.map_eq_some_iff.mp h
      cases hpair
      exact ⟨_, literal_split hp, reads_literal run_null, parse_literal run_null⟩

/-- One member, but for the white space behind it. -/
theorem member_split {s rest : Bytes} {f : Field} (h : member s = some (f, rest)) :
    ∃ e : Entry, s = e.lead ++ (e.text ++ rest) ∧
      ∀ trail, Blank trail → ({ e with trail := trail } : Entry).Cut ∧
        Told { e with trail := trail } rest f := by
  obtain ⟨before, hbefore, hs⟩ := ws_split s
  unfold member at h
  obtain ⟨⟨key, s₁⟩, hkey, h⟩ := Option.bind_eq_some_iff.mp h
  obtain ⟨hsplit, s', hwithin⟩ := stringToken_split hkey
  obtain ⟨middle, hmiddle, hs₁⟩ := ws_split s₁
  dsimp only at h
  split at h
  · cases h
  · next hescape =>
    have hunescaped : ascii '\\' ∉ key := by
      intro hmem
      exact hescape (List.contains_iff_mem.mpr hmem)
    cases hcolon : ws s₁ with
    | nil =>
      rw [hcolon] at h
      cases h
    | cons c s₂ =>
      obtain ⟨after, hafter, hs₂⟩ := ws_split s₂
      rw [hcolon] at h hs₁
      dsimp only [bind, Option.bind] at h
      by_cases hc : c = ascii ':'
      · subst hc
        rw [if_neg (not_not_intro rfl)] at h
        -- whatever the value is, the member is made of the same pieces
        have hcut : ∀ {text : Bytes}, Reads text → ∀ trail, Blank trail →
            (⟨before, key, middle, after, text, trail⟩ : Entry).Cut := by
          intro text htext trail htrail
          exact ⟨hbefore, ⟨s', s₁, hwithin⟩, hunescaped, hmiddle, hafter, htext, htrail⟩
        have hbytes : ∀ {text : Bytes}, ws s₂ = text ++ rest → s =
            (⟨before, key, middle, after, text, []⟩ : Entry).lead ++ (text ++ rest) := by
          intro text htext
          rw [hs, hsplit, hs₁, hs₂, htext]
          unfold Entry.lead
          simp only [List.append_assoc, List.cons_append]
        split_ifs at h with hmodel hstream
        · obtain ⟨t, ht, h⟩ := Option.bind_eq_some_iff.mp h
          cases h
          obtain ⟨hstart, content, hquoted, s'', hcontent⟩ := token_split ht
          refine ⟨⟨before, key, middle, after, quoted content, []⟩, hbytes hquoted, ?_⟩
          intro trail htrail
          exact ⟨hcut (reads_string hcontent) trail htrail,
            .model t hmodel (hstart.trans hquoted) rfl content ⟨s'', t.stop, hcontent⟩ rfl⟩
        · obtain ⟨⟨b, rest'⟩, hp, h⟩ := Option.bind_eq_some_iff.mp h
          cases h
          obtain ⟨text, hsplit', hreads, hparse⟩ := streamValue_split hp
          refine ⟨⟨before, key, middle, after, text, []⟩, hbytes hsplit', ?_⟩
          intro trail htrail
          exact ⟨hcut hreads trail htrail, .stream b hstream hparse⟩
        · obtain ⟨rest', hp, h⟩ := Option.bind_eq_some_iff.mp h
          cases h
          obtain ⟨text, hsplit', hreads⟩ := reads_skipValue hp
          refine ⟨⟨before, key, middle, after, text, []⟩, hbytes hsplit', ?_⟩
          intro trail htrail
          exact ⟨hcut hreads trail htrail, .other hmodel hstream⟩
      · rw [if_pos hc] at h
        cases h

theorem walk_of_members {found found' : Found} {s rest : Bytes}
    (h : members found s = some (found', rest)) : ∃ es, Walk found s es found' rest := by
  rw [members] at h
  split at h
  · cases h
  · next f rest₁ hmember =>
    obtain ⟨e, hs, hknown⟩ := member_split hmember
    obtain ⟨trail, htrail, hrest⟩ := ws_split rest₁
    obtain ⟨hcut, htold⟩ := hknown trail htrail
    split at h
    · cases h
    · next c rest₂ hws =>
      have hbytes : s = ({ e with trail := trail } : Entry).bytes ++ c :: rest₂ := by
        rw [hs, hrest, hws]
        unfold Entry.bytes Entry.lead
        simp only [List.append_assoc, List.cons_append]
      rw [hrest, hws] at htold
      have hlt := member_length hmember
      have hle := ws_length rest₁
      rw [hws, List.length_cons] at hle
      split_ifs at h with hcomma hbrace
      · have hshorter : rest₂.length < s.length := by omega
        obtain ⟨es, hwalk⟩ := walk_of_members h
        subst hcomma
        rw [hbytes]
        exact ⟨_, .next hcut htold hwalk⟩
      · cases h
        subst hbrace
        rw [hbytes]
        exact ⟨_, .last hcut htold⟩
termination_by s.length
decreasing_by exact hshorter

theorem Walk.cut {found found' : Found} {s rest : Bytes} {es : List Entry}
    (h : Walk found s es found' rest) : es ≠ [] ∧ (∀ e ∈ es, e.Cut) ∧ s = render es ++ rest := by
  induction h with
  | last hcut htold =>
    refine ⟨List.cons_ne_nil _ _, fun e he => ?_, ?_⟩
    · rw [List.mem_singleton.mp he]
      exact hcut
    · unfold render
      rw [List.append_assoc]
      rfl
  | next hcut htold h ih =>
    obtain ⟨hne, hall, hs⟩ := ih
    refine ⟨List.cons_ne_nil _ _, fun e' he' => ?_, ?_⟩
    · rcases List.mem_cons.mp he' with rfl | he'
      · exact hcut
      · exact hall e' he'
    · rw [render_cons hne, List.append_assoc, List.cons_append, ← hs]

end RapidRouter.Core.Scanner
