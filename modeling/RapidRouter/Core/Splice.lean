import RapidRouter.Core.Members

/-!
# Splicing the model

`splice_model` writes a new string over the model's token. The span a probe
reports is that of the last `model` among the body's members (`Walk.model`), so
to the full parser the spliced body is the old one with its model replaced
(`fromSlice_splice`): the new text is one string whatever the name is, and the
other members are read as before.
-/

namespace RapidRouter.Core

open Json

namespace Scanner

/-! ## Where the model stands -/

/-- Everything up to the value of a member, after these. -/
def front : List Entry → Entry → Bytes
  | [], e => e.lead
  | e' :: es, e => e'.bytes ++ ascii ',' :: front es e

def Entry.withText (e : Entry) (text : Bytes) : Entry := { e with text := text }

/-- A member whose value stands between these two. -/
structure Located (es : List Entry) (rest : Bytes) (t : Token) : Prop where
  found : ∃ es₁ e es₂, es = es₁ ++ e :: es₂ ∧ e.key = utf8 "model" ∧
    (∀ e' ∈ es₂, e'.key ≠ utf8 "model") ∧
    (∃ content s rest', e.text = quoted content ∧ Within s content rest') ∧
    t.start = e.text ++ t.stop ∧
    ∀ text, render (es₁ ++ e.withText text :: es₂) ++ rest = front es₁ e ++ (text ++ t.stop)

theorem Located.cons {es : List Entry} {rest : Bytes} {t : Token} (h : Located es rest t)
    (e' : Entry) : Located (e' :: es) rest t := by
  obtain ⟨es₁, e, es₂, hes, hkey, hlater, hcontent, hstart, hrender⟩ := h.found
  refine ⟨e' :: es₁, e, es₂, by rw [hes]; rfl, hkey, hlater, hcontent, hstart, fun text => ?_⟩
  have hne : es₁ ++ e.withText text :: es₂ ≠ [] := by simp
  show _ = (e'.bytes ++ ascii ',' :: front es₁ e) ++ (text ++ t.stop)
  rw [List.cons_append, render_cons hne, List.append_assoc, List.cons_append, hrender text,
    List.append_assoc, List.cons_append]

/-- The model the loop ends with is that of the last member of this key, or
was there before. -/
theorem Walk.model {found found' : Found} {s rest : Bytes} {es : List Entry}
    (h : Walk found s es found' rest) {t : Token} (ht : found'.model = some t) :
    Located es rest t ∨ (found.model = some t ∧ ∀ e ∈ es, e.key ≠ utf8 "model") := by
  induction h with
  | @last found e f rest hcut htold =>
    cases htold with
    | model t' hkey hstart hstop content hcontent hquoted =>
      cases ht
      obtain ⟨s', rest', hwithin⟩ := hcontent
      refine Or.inl ⟨[], e, [], rfl, hkey, (fun _ h => nomatch h),
        ⟨content, s', rest', hquoted, hwithin⟩, by rw [hstart, hstop], fun text => ?_⟩
      rw [hstop]
      unfold render front Entry.bytes Entry.withText
      simp only [List.append_assoc, Entry.lead, List.nil_append, List.cons_append]
    | stream b hkey hparse =>
      refine Or.inr ⟨ht, fun e' he' => ?_⟩
      rw [List.mem_singleton.mp he', hkey]
      decide
    | other hmodel hstream =>
      refine Or.inr ⟨ht, fun e' he' => ?_⟩
      rw [List.mem_singleton.mp he']
      exact hmodel
  | @next found found' e es f s rest hcut htold hwalk ih =>
    rcases ih ht with hlocated | ⟨hfound, hnone⟩
    · exact Or.inl (hlocated.cons e)
    · cases htold with
      | model t' hkey hstart hstop content hcontent hquoted =>
        cases hfound
        obtain ⟨s', rest', hwithin⟩ := hcontent
        obtain ⟨hne, -, hs⟩ := hwalk.cut
        refine Or.inl ⟨[], e, es, rfl, hkey, hnone, ⟨content, s', rest', hquoted, hwithin⟩,
          by rw [hstart, hstop], fun text => ?_⟩
        rw [hstop, List.nil_append, render_cons hne, hs]
        unfold front Entry.bytes Entry.withText
        simp only [List.append_assoc, Entry.lead, List.cons_append]
      | stream b hkey hparse =>
        refine Or.inr ⟨hfound, fun e' he' => ?_⟩
        rcases List.mem_cons.mp he' with rfl | he'
        · rw [hkey]
          decide
        · exact hnone e' he'
      | other hmodel hstream =>
        refine Or.inr ⟨hfound, fun e' he' => ?_⟩
        rcases List.mem_cons.mp he' with rfl | he'
        · exact hmodel
        · exact hnone e' he'

/-! ## A body that was probed -/

/-- The members of a body, and the token of its model. -/
structure Probed (body : Bytes) (p : Probe) where
  start : Bytes
  inner : Bytes
  entries : List Entry
  trail : Bytes
  found : Found
  token : Token
  body_eq : body = bodyOf start inner entries trail
  blank_start : Blank start
  blank_inner : Blank inner
  blank_trail : Blank trail
  walk : Walk ⟨none, none⟩ (render entries ++ trail) entries found trail
  model : found.model = some token
  span : p.modelSpan = (body.length - token.start.length, body.length - token.stop.length)
  text : stringFromSlice ((body.take p.modelSpan.2).drop p.modelSpan.1) = some p.model
  stream : p.stream = found.stream

theorem probed_of_probe {body : Bytes} {p : Probe} (h : probe body = some p) :
    Nonempty (Probed body p) := by
  obtain ⟨start, hstart, hbody⟩ := ws_split body
  unfold probe at h
  dsimp only at h
  split at h
  · cases h
  · next hbrace =>
    rw [not_not] at hbrace
    obtain ⟨inner, hinner, hrest⟩ := ws_split (ws body).tail
    split at h
    · cases h
    · obtain ⟨⟨found, rest⟩, hmembers, h⟩ := Option.bind_eq_some_iff.mp h
      dsimp only at h
      split at h
      · cases h
      · next htrail =>
        rw [not_not] at htrail
        obtain ⟨trail, hblank, htrail'⟩ := ws_split rest
        rw [htrail, List.append_nil] at htrail'
        subst htrail'
        obtain ⟨t, hmodel, h⟩ := Option.bind_eq_some_iff.mp h
        obtain ⟨model, htext, h⟩ := Option.bind_eq_some_iff.mp h
        cases h
        obtain ⟨es, hwalk⟩ := walk_of_members hmembers
        obtain ⟨-, -, hs⟩ := hwalk.cut
        have hsplit : ws body = ascii '{' :: (ws body).tail :=
          (List.cons_head?_tail (Option.mem_def.mpr hbrace)).symm
        refine ⟨start, inner, es, rest, found, t, ?_, hstart, hinner, hblank, ?_, hmodel, rfl, htext,
          rfl⟩
        · conv_lhs => rw [hbody, hsplit, hrest, hs]
          rfl
        · rw [← hs]
          exact hwalk

namespace Probed

variable {body : Bytes} {p : Probe} (h : Probed body p)

include h

theorem located : Located h.entries h.trail h.token := by
  rcases h.walk.model h.model with hlocated | ⟨hnone, -⟩
  · exact hlocated
  · cases hnone

theorem parse : Json.parse body = (readAll h.entries).map .object := by
  obtain ⟨hne, hcut, -⟩ := h.walk.cut
  have hbody := parse_bodyOf h.blank_start h.blank_inner hne hcut h.blank_trail
  rw [← h.body_eq] at hbody
  exact hbody

end Probed

/-! ## A member read with another text -/

theorem readAll_cons (e : Entry) (es : List Entry) :
    readAll (e :: es) = e.read.bind fun m => (readAll es).map (m :: ·) := rfl

theorem readAll_append (es₁ es₂ : List Entry) : readAll (es₁ ++ es₂) =
    (readAll es₁).bind fun ms₁ => (readAll es₂).map (ms₁ ++ ·) := by
  induction es₁ with
  | nil =>
    show readAll es₂ = (readAll es₂).map fun ms₂ => ms₂
    exact Option.map_id'.symm
  | cons e es₁ ih =>
    rw [List.cons_append, readAll_cons, readAll_cons, ih]
    cases e.read with
    | none => rfl
    | some m =>
      cases readAll es₁ with
      | none => rfl
      | some ms₁ =>
        cases readAll es₂ with
        | none => rfl
        | some ms₂ => rfl

theorem readAll_keys : ∀ {es : List Entry} {ms : List (Bytes × Raw)}, readAll es = some ms →
    ∀ m ∈ ms, ∃ e ∈ es, e.key = m.1
  | [], ms, h => by
    cases h
    exact fun _ hm => nomatch hm
  | e :: es, ms, h => by
    unfold readAll at h
    obtain ⟨m, hm, h⟩ := Option.bind_eq_some_iff.mp h
    obtain ⟨ms', hms', rfl⟩ := Option.map_eq_some_iff.mp h
    intro m' hm'
    rcases List.mem_cons.mp hm' with rfl | hm'
    · refine ⟨e, List.mem_cons_self, ?_⟩
      unfold Entry.read at hm
      split at hm
      · obtain ⟨v, -, rfl⟩ := Option.map_eq_some_iff.mp hm
        rfl
      · cases hm
    · obtain ⟨e', he', hkey⟩ := readAll_keys hms' m' hm'
      exact ⟨e', List.mem_cons_of_mem _ he', hkey⟩

theorem run_printString (stack : List Frame) (m : String) :
    run ⟨.value, stack⟩ (printString m) = some ⟨.after (.string (escape m)), stack⟩ := by
  show run ⟨.string none [], stack⟩ (escape m ++ [ascii '"']) = _
  rw [run_string_tail]
  show some (⟨.after (.string (escape m).reverse.reverse), stack⟩ : State) = _
  rw [List.reverse_reverse]

/-! ## The value the parser builds -/

theorem unescape_plain : ∀ {b : Bytes}, ascii '\\' ∉ b → unescape b = some b
  | [], _ => rfl
  | c :: b, h => by
    have hc : c ≠ ascii '\\' := fun hc => h (by rw [hc]; exact List.mem_cons_self)
    have hb := unescape_plain (b := b) fun hmem => h (List.mem_cons_of_mem _ hmem)
    unfold unescape
    rw [if_pos hc, hb]
    rfl

theorem utf8_of_fromUtf8 {b : Bytes} {s : String} (h : fromUtf8? b = some s) : b = utf8 s := by
  obtain ⟨s', rfl⟩ := isText_of_fromUtf8 (by rw [h]; rfl)
  rw [fromUtf8?_utf8] at h
  rw [Option.some.inj h]

/-- A key without escapes is what it says. -/
theorem decodeString_plain {b : Bytes} (h : ascii '\\' ∉ b) {s : String} :
    decodeString b = some s ↔ b = utf8 s := by
  unfold decodeString
  rw [unescape_plain h, Option.bind_some]
  constructor
  · exact utf8_of_fromUtf8
  · rintro rfl
    exact fromUtf8?_utf8 s

theorem toMembers_cons {depth : Nat} (acc : List (String × Value)) (k : Bytes) (r : Raw)
    (ms : List (Bytes × Raw)) : Raw.toMembers depth acc ((k, r) :: ms) =
      (decodeString k).bind fun key => (r.toValue depth).bind fun v =>
        Raw.toMembers depth (Entries.insert key v acc) ms := by
  rw [Raw.toMembers]
  rfl

/-- A member written over, before others of other keys. -/
theorem toMembers_insert {depth : Nat} {k : String} {v : Value} (w : Value)
    {ms : List (Bytes × Raw)} (hms : ∀ m ∈ ms, decodeString m.1 ≠ some k)
    (acc : OrdMap String Value) {vs : List (String × Value)}
    (h : Raw.toMembers depth (acc.insert k v).entries ms = some vs) :
    Raw.toMembers depth (acc.insert k w).entries ms = some (Entries.insert k w vs) := by
  induction ms generalizing acc with
  | nil =>
    cases h
    exact congrArg (fun m => some m.entries) (acc.insert_insert_self k v w).symm
  | cons m ms ih =>
    obtain ⟨k', r⟩ := m
    rw [toMembers_cons] at h ⊢
    obtain ⟨key, hkey, h⟩ := Option.bind_eq_some_iff.mp h
    obtain ⟨v', hv', h⟩ := Option.bind_eq_some_iff.mp h
    have hne : k ≠ key := by
      intro hk
      exact hms (k', r) List.mem_cons_self (hkey.trans (congrArg some hk.symm))
    have hswap : ∀ u, Entries.insert key v' (acc.insert k u).entries =
        ((acc.insert key v').insert k u).entries :=
      fun u => congrArg OrdMap.entries (acc.insert_comm hne u v')
    rw [hswap] at h
    have hrest := ih (fun m hm => hms m (List.mem_cons_of_mem _ hm)) _ h
    rw [hkey, Option.bind_some, hv', Option.bind_some, hswap]
    exact hrest

theorem toMembers_append {depth : Nat} (ms₁ ms₂ : List (Bytes × Raw)) (acc : List (String × Value)) :
    Raw.toMembers depth acc (ms₁ ++ ms₂) =
      (Raw.toMembers depth acc ms₁).bind fun acc => Raw.toMembers depth acc ms₂ := by
  induction ms₁ generalizing acc with
  | nil => rfl
  | cons m ms₁ ih =>
    obtain ⟨k, r⟩ := m
    rw [List.cons_append, toMembers_cons, toMembers_cons]
    cases decodeString k with
    | none => rfl
    | some key =>
      cases r.toValue depth with
      | none => rfl
      | some v => exact ih _

/-- An object with one member's text replaced by a string's. -/
theorem toValue_replace {depth : Nat} {ms₁ ms₂ : List (Bytes × Raw)} {k : Bytes} {key : String}
    {r r' : Raw} {w : Value} {vs : List (String × Value)} (hk : decodeString k = some key)
    (hms₂ : ∀ m ∈ ms₂, decodeString m.1 ≠ some key) (hr' : r'.toValue depth = some w)
    (h : Raw.toMembers depth [] (ms₁ ++ (k, r) :: ms₂) = some vs) :
    Raw.toMembers depth [] (ms₁ ++ (k, r') :: ms₂) = some (Entries.insert key w vs) := by
  rw [toMembers_append] at h ⊢
  obtain ⟨acc, hacc, h⟩ := Option.bind_eq_some_iff.mp h
  rw [hacc, Option.bind_some]
  have hsorted := (Raw.toMembers_wf List.Pairwise.nil trivial hacc).1
  rw [toMembers_cons] at h ⊢
  obtain ⟨key', hkey', h⟩ := Option.bind_eq_some_iff.mp h
  obtain ⟨v, hv, h⟩ := Option.bind_eq_some_iff.mp h
  rw [hk] at hkey'
  cases hkey'
  rw [hk, Option.bind_some, hr', Option.bind_some]
  exact toMembers_insert w hms₂ ⟨acc, hsorted⟩ h

/-! ## A body scanned -/

theorem members_eq {found : Found} {s rest rest' : Bytes} {f : Field} {c : UInt8}
    (h : member s = some (f, rest)) (hws : ws rest = c :: rest') :
    members found s = if c = ascii ',' then members (found.add f) rest'
      else if c = ascii '}' then some (found.add f, rest') else none := by
  rw [members]
  split
  · next hnone =>
    rw [h] at hnone
    cases hnone
  · next hsome =>
    rw [h] at hsome
    cases hsome
    split
    · next hnil =>
      rw [hws] at hnil
      cases hnil
    · next hcons =>
      rw [hws] at hcons
      cases hcons
      rfl

theorem members_comma {found : Found} {s rest rest' : Bytes} {f : Field}
    (h : member s = some (f, rest)) (hws : ws rest = ascii ',' :: rest') :
    members found s = members (found.add f) rest' := by
  rw [members_eq h hws]
  exact if_pos rfl

theorem members_brace {found : Found} {s rest rest' : Bytes} {f : Field}
    (h : member s = some (f, rest)) (hws : ws rest = ascii '}' :: rest') :
    members found s = some (found.add f, rest') := by
  rw [members_eq h hws, if_neg (by decide)]
  exact if_pos rfl

end Scanner

open Scanner

/-- Every body that is a JSON object, on which a probe succeeds, and every new
name: the full parser reads the spliced body as the old one with its model
replaced, and outside the span nothing is touched. -/
theorem fromSlice_splice {body : Bytes} {p : Probe} {members : List (String × Value)}
    (hvalid : fromSlice body = some (.object members)) (hprobe : probe body = some p)
    (newModel : String) :
    ∃ spliced, spliceModel body p.modelSpan newModel = some spliced ∧
      fromSlice spliced = some (.object (Entries.insert "model" (.string newModel) members)) ∧
      spliced.take p.modelSpan.1 = body.take p.modelSpan.1 ∧
      spliced.drop (p.modelSpan.1 + (printString newModel).length) = body.drop p.modelSpan.2 := by
  obtain ⟨h⟩ := probed_of_probe hprobe
  obtain ⟨es₁, e, es₂, hes, hkey, hlater, -, hstart, hrender⟩ := h.located.found
  obtain ⟨hne, hcut, -⟩ := h.walk.cut
  -- the body around the model's text
  obtain ⟨left, hleft⟩ : ∃ left, left = h.start ++ ascii '{' :: (h.inner ++ front es₁ e) := ⟨_, rfl⟩
  obtain ⟨right, hright⟩ : ∃ right, right = h.token.stop := ⟨_, rfl⟩
  have hbody : ∀ text, bodyOf h.start h.inner (es₁ ++ e.withText text :: es₂) h.trail =
      left ++ (text ++ right) := by
    intro text
    unfold bodyOf
    rw [hrender text, hleft, hright]
    simp only [List.append_assoc, List.cons_append]
  have hsame : body = left ++ (e.text ++ right) := by
    rw [← hbody e.text]
    conv_lhs => rw [h.body_eq, hes]
    rfl
  have hspan : p.modelSpan = (left.length, left.length + e.text.length) := by
    have hlen := congrArg List.length hsame
    have hstart' := congrArg List.length hstart
    rw [List.length_append, List.length_append] at hlen
    rw [List.length_append, ← hright] at hstart'
    rw [h.span, ← hright, Prod.mk.injEq]
    omega
  have htake : body.take p.modelSpan.1 = left := by
    rw [hspan, hsame]
    exact List.take_left
  have hdrop : body.drop p.modelSpan.2 = right := by
    rw [hspan, hsame, ← List.append_assoc]
    exact List.drop_left' List.length_append
  have hle := probe_span_le hprobe
  refine ⟨left ++ (printString newModel ++ right), ?_, ?_, ?_, ?_⟩
  · unfold spliceModel
    rw [if_pos hle, htake, hdrop, List.append_assoc]
  · have hcut' : ∀ e' ∈ es₁ ++ e.withText (printString newModel) :: es₂, e'.Cut := by
      intro e' he'
      have he := hcut e (by rw [hes]; exact List.mem_append_right _ List.mem_cons_self)
      rcases List.mem_append.mp he' with he' | he'
      · exact hcut e' (by rw [hes]; exact List.mem_append_left _ he')
      · rcases List.mem_cons.mp he' with rfl | he'
        · exact { he with text := reads_literal fun stack => run_printString stack newModel }
        · exact hcut e' (by rw [hes]; exact List.mem_append_right _ (List.mem_cons_of_mem _ he'))
    have hparse' : parse (left ++ (printString newModel ++ right)) =
        (readAll (es₁ ++ e.withText (printString newModel) :: es₂)).map .object := by
      rw [← hbody]
      exact parse_bodyOf h.blank_start h.blank_inner (by simp) hcut' h.blank_trail
    have hmodel : contentOk 0 e.key = true := by rw [hkey]; decide
    have hdecode : decodeString e.key = some "model" := by rw [hkey]; decide
    unfold fromSlice at hvalid ⊢
    rw [h.parse, hes, readAll_append] at hvalid
    rw [hparse', readAll_append]
    obtain ⟨raw, hraw, hvalue⟩ := Option.bind_eq_some_iff.mp hvalid
    obtain ⟨ms, hms, rfl⟩ := Option.map_eq_some_iff.mp hraw
    obtain ⟨ms₁, hms₁, hms⟩ := Option.bind_eq_some_iff.mp hms
    obtain ⟨ms', hms', rfl⟩ := Option.map_eq_some_iff.mp hms
    rw [readAll_cons] at hms'
    obtain ⟨m, hm, hms'⟩ := Option.bind_eq_some_iff.mp hms'
    obtain ⟨ms₂, hms₂, rfl⟩ := Option.map_eq_some_iff.mp hms'
    obtain ⟨k, r⟩ := m
    have hk : k = e.key := by
      unfold Entry.read at hm
      rw [if_pos hmodel] at hm
      obtain ⟨v, -, hpair⟩ := Option.map_eq_some_iff.mp hm
      exact (congrArg Prod.fst hpair).symm
    have hread : (e.withText (printString newModel)).read = some (k, .string (escape newModel)) := by
      unfold Entry.read Entry.withText
      rw [if_pos hmodel, parse_literal fun stack => run_printString stack newModel, hk]
      rfl
    have hother : ∀ m ∈ ms₂, decodeString m.1 ≠ some "model" := by
      intro m hm hdecoded
      obtain ⟨e', he', hkey'⟩ := readAll_keys hms₂ m hm
      have hcut'' := hcut e' (by rw [hes]; exact List.mem_append_right _ (List.mem_cons_of_mem _ he'))
      rw [← hkey', decodeString_plain hcut''.unescaped] at hdecoded
      exact hlater e' he' hdecoded
    have hstring : Raw.toValue (depthLimit - 1) (.string (escape newModel)) =
        some (.string newModel) := by
      unfold Raw.toValue
      rw [decodeString_escape]
      rfl
    rw [hms₁, Option.bind_some]
    rw [readAll_cons, hread, Option.bind_some, hms₂]
    show Raw.toValue depthLimit (.object (ms₁ ++ (k, .string (escape newModel)) :: ms₂)) = _
    unfold Raw.toValue at hvalue ⊢
    rw [if_neg (by decide)] at hvalue ⊢
    obtain ⟨vs, hvs, hobject⟩ := Option.map_eq_some_iff.mp hvalue
    cases hobject
    rw [toValue_replace (hk ▸ hdecode) hother hstring hvs]
    rfl
  · rw [htake, hspan]
    exact List.take_left
  · rw [hdrop, hspan, ← List.append_assoc]
    exact List.drop_left' List.length_append

/-- A body that gives its model twice. -/
def twice : Bytes := utf8 "\x7b\"model\":\"a\",\"model\" : \"b\" \x7d"

theorem probe_twice : probe twice = some ⟨"b", (23, 26), none⟩ := by
  have h : members ⟨none, none⟩ (ws (ws twice).tail) =
      some (⟨some ⟨utf8 "\"b\" \x7d", utf8 " \x7d", by decide⟩, none⟩, []) := by
    rw [members_comma rfl rfl, members_brace rfl rfl]
    rfl
  unfold probe
  rw [if_neg (by decide)]
  dsimp only
  rw [if_neg (by decide), h]
  rfl

/-- A name that would end the string, were it not escaped. -/
theorem fromSlice_splice_twice : ∃ spliced, spliceModel twice (23, 26) "\",\"n\":\"" = some spliced ∧
    fromSlice spliced = some (.object [("model", .string "\",\"n\":\"")]) := by
  have hvalid : fromSlice twice = some (.object [("model", .string "b")]) := rfl
  obtain ⟨spliced, hspliced, hparsed, -⟩ := fromSlice_splice hvalid probe_twice "\",\"n\":\""
  exact ⟨spliced, hspliced, hparsed⟩

end RapidRouter.Core
