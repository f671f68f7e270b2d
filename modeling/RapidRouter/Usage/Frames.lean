import RapidRouter.Providers.Render
import RapidRouter.Usage.Extract

/-!
# Metering rendered frames

What the scanner of `usage.rs` reads of a stream the gateway wrote itself. A
frame is whole lines and its data is one line, so the scanner sees each
frame's data as a value again, unless it is nested deeper than its reader
follows (`SseFrame.usage`); the stream's counts are the largest of its frames'
(`extractStream_frames`).
-/

namespace RapidRouter.Usage

open Json Providers

/-! ## A value that reports something says "usage" -/

theorem contains_of_infix {body body' : Bytes} {needle : String} (h : body <:+: body')
    (hb : contains body needle = true) : contains body' needle = true :=
  decide_eq_true ((of_decide_eq_true hb).trans h)

theorem contains_of_get? {v x : Value} {k needle : String} (h : v.get? k = some x)
    (hk : contains (printString k) needle = true) : contains v.print needle = true :=
  contains_of_infix ((List.prefix_append _ _).isInfix.trans (Value.infix_of_get? h)) hk

theorem contains_of_index {v : Value} {k : String} (h : contains (v.index k).print "usage" = true) :
    contains v.print "usage" = true := by
  unfold Value.index at h
  cases hx : v.get? k with
  | none =>
    rw [hx] at h
    exact absurd h (by decide)
  | some x =>
    rw [hx] at h
    exact contains_of_infix ((List.suffix_append_of_suffix (List.suffix_cons _ _)).isInfix.trans
      (Value.infix_of_get? hx)) h

theorem index_eq_null {v : Value} {k : String} (hk : contains (printString k) "usage" = true)
    (h : contains v.print "usage" = false) : v.index k = .null := by
  unfold Value.index
  cases hx : v.get? k with
  | none => rfl
  | some x =>
    rw [contains_of_get? hx hk] at h
    cases h

theorem usageFromValue_of_not_contains {dialect : Dialect} {v : Value}
    (h : contains v.print "usage" = false) : usageFromValue dialect v = .zero := by
  have hinner : ∀ k, contains (v.index k).print "usage" = false := by
    intro k
    by_contra hk
    rw [contains_of_index (Bool.not_eq_false _ ▸ hk)] at h
    cases h
  have husage : ∀ w : Value, contains w.print "usage" = false → w.index "usage" = .null :=
    fun w hw => index_eq_null (by decide) hw
  have hmetadata : v.index "usageMetadata" = .null := index_eq_null (by decide) h
  unfold usageFromValue
  cases dialect <;> simp only [husage _ h, husage _ (hinner _), hmetadata] <;> rfl

theorem onEventData_print {dialect : Dialect} {v : Value} (h : v.WF) :
    ((StreamUsageScanner.new dialect).onEventData v.print).usage =
      if v.depth < depthLimit then usageFromValue dialect v else .zero := by
  unfold StreamUsageScanner.onEventData
  have hmerge : ∀ usage : TokenUsage, TokenUsage.zero.mergeMax usage = usage := by
    intro usage
    exact TokenUsage.ext_get fun f => by simp
  split
  · next hnot =>
    rw [Bool.and_eq_true, Bool.not_eq_true', Bool.not_eq_true'] at hnot
    rw [usageFromValue_of_not_contains hnot.1, ite_self]
    rfl
  · rw [fromSlice_print h]
    by_cases hdepth : v.depth < depthLimit
    · rw [if_pos hdepth, if_pos hdepth]
      exact hmerge _
    · rw [if_neg hdepth, if_neg hdepth]
      rfl

/-! ## Lines -/

theorem splitInclusive_line {a : Bytes} (ha : ∀ c ∈ a, 0x20 ≤ c.toNat) (rest : Bytes) :
    splitInclusive (a ++ ascii '\n' :: rest) = (a ++ [ascii '\n']) :: splitInclusive rest := by
  induction a with
  | nil =>
    show (if ascii '\n' = ascii '\n' then _ else _) = _
    rw [if_pos rfl]
    rfl
  | cons c a ih =>
    have hc : c ≠ ascii '\n' := by
      rintro rfl
      exact absurd (ha _ List.mem_cons_self) (by decide)
    have ih := ih fun d hd => ha d (List.mem_cons_of_mem _ hd)
    rw [List.cons_append]
    conv_lhs => unfold splitInclusive
    rw [if_neg hc, ih]
    rfl

theorem stripTerminator_line {a : Bytes} (ha : ∀ c ∈ a, 0x20 ≤ c.toNat) :
    stripTerminator (a ++ [ascii '\n']) = a := by
  unfold stripTerminator
  rw [List.getLast?_concat, if_pos rfl, List.dropLast_concat]
  dsimp only
  split
  · next hlast =>
    exact absurd (ha _ (List.mem_of_getLast? hlast)) (by decide)
  · rfl

theorem lines_line {a : Bytes} (ha : ∀ c ∈ a, 0x20 ≤ c.toNat) (rest : Bytes) :
    lines (a ++ ascii '\n' :: rest) = a :: lines rest := by
  unfold lines
  rw [splitInclusive_line ha, List.map_cons, stripTerminator_line ha]

/-- A printed value does not begin with white space. -/
theorem print_begins (v : Value) : ∃ c rest, v.print = c :: rest ∧ 0x20 < c ∧ c < 0x80 := by
  have hnat : ∀ n, ∃ c rest, printNat n = c :: rest ∧ 0x20 < c ∧ c < 0x80 := by
    intro n
    cases hn : printNat n with
    | nil =>
      rw [printNat_eq] at hn
      split at hn <;> simp at hn
    | cons c rest =>
      refine ⟨c, rest, rfl, ?_⟩
      have hdigit := isDigit_of_mem_printNat n c (hn ▸ List.mem_cons_self)
      simp only [isDigit, Bool.and_eq_true, decide_eq_true_eq, UInt8.le_iff_toNat_le] at hdigit
      have h0 : (ascii '0').toNat = 48 := rfl
      have h9 : (ascii '9').toNat = 57 := rfl
      rw [UInt8.lt_iff_toNat_lt, UInt8.lt_iff_toNat_lt]
      show 32 < c.toNat ∧ c.toNat < 128
      omega
  cases v with
  | null => exact ⟨_, _, rfl, by decide, by decide⟩
  | bool b => cases b <;> exact ⟨_, _, rfl, by decide, by decide⟩
  | number n =>
    cases n with
    | posInt n _ => exact hnat n
    | negInt n _ _ => exact ⟨_, _, rfl, by decide, by decide⟩
    | float neg mantissa exponent _ =>
      cases neg with
      | true => exact ⟨_, _, rfl, by decide, by decide⟩
      | false =>
        obtain ⟨c, rest, hprint, hc⟩ := hnat mantissa
        cases exponent with
        | ofNat e =>
          show ∃ c rest, printNat mantissa ++ _ = c :: rest ∧ _
          rw [hprint]
          exact ⟨_, _, rfl, hc⟩
        | negSucc e =>
          show ∃ c rest, printNat mantissa ++ _ = c :: rest ∧ _
          rw [hprint]
          exact ⟨_, _, rfl, hc⟩
  | string s => exact ⟨_, _, rfl, by decide, by decide⟩
  | array items => cases items <;> exact ⟨_, _, rfl, by decide, by decide⟩
  | object members => cases members <;> exact ⟨_, _, rfl, by decide, by decide⟩

theorem trimStart_print (v : Value) : trimStart (ascii ' ' :: v.print) = v.print := by
  obtain ⟨c, rest, hprint, hlow, hhigh⟩ := print_begins v
  rw [UInt8.lt_iff_toNat_lt] at hlow hhigh
  change 32 < c.toNat at hlow
  change c.toNat < 128 at hhigh
  have hblank : ((0x09 ≤ c && c ≤ 0x0D) || c = 0x20) = false := by
    rw [Bool.or_eq_false_iff, Bool.and_eq_false_iff]
    refine ⟨Or.inr (decide_eq_false ?_), decide_eq_false ?_⟩
    · rw [UInt8.le_iff_toNat_le]
      show ¬ c.toNat ≤ 13
      omega
    · rintro rfl
      exact absurd hlow (by decide)
  have hne : ∀ d : UInt8, 128 ≤ d.toNat → c ≠ d := by
    rintro d hd rfl
    omega
  have hspace : trimStart (ascii ' ' :: v.print) = trimStart v.print := by
    conv_lhs => unfold trimStart
    rfl
  rw [hspace, hprint]
  unfold trimStart
  rw [if_neg (by rw [hblank]; decide)]
  split
  · exact absurd rfl (hne 0xC2 (by decide))
  · exact absurd rfl (hne 0xE1 (by decide))
  · exact absurd rfl (hne 0xE2 (by decide))
  · exact absurd rfl (hne 0xE2 (by decide))
  · exact absurd rfl (hne 0xE3 (by decide))
  · rfl

/-! ## Frames -/

/-- A frame the renderers write: an event's name is printed on one line, and
the data is a value as a reader builds it. -/
def WellFormed : SseFrame → Prop
  | .event name v => OneLine (utf8 name) ∧ v.WF
  | .data v => v.WF
  | .done => True

/-- What the scanner reads of a value that was written. -/
def scanned (dialect : Dialect) (v : Value) : TokenUsage :=
  if v.depth < depthLimit then usageFromValue dialect v else .zero

/-- What the scanner reads of a frame. -/
def frameUsage (dialect : Dialect) : SseFrame → TokenUsage
  | .event _ v => scanned dialect v
  | .data v => scanned dialect v
  | .done => .zero

def frameLines : SseFrame → List Bytes
  | .event name v => [utf8 "event: " ++ utf8 name, utf8 "data: " ++ v.print, []]
  | .data v => [utf8 "data: " ++ v.print, []]
  | .done => [utf8 "data: [DONE]", []]

theorem oneLine_data (v : Value) : OneLine (utf8 "data: " ++ v.print) :=
  (oneLine_ascii (by decide)).append (oneLine_print v)

theorem lines_text {frame : SseFrame} (h : WellFormed frame) (rest : Bytes) :
    lines (frame.text ++ rest) = frameLines frame ++ lines rest := by
  have hdata : ∀ v : Value, lines (utf8 "data: " ++ (v.print ++ utf8 "\n\n") ++ rest) =
      (utf8 "data: " ++ v.print) :: [] :: lines rest := by
    intro v
    have hsplit : utf8 "data: " ++ (v.print ++ utf8 "\n\n") ++ rest =
        (utf8 "data: " ++ v.print) ++ ascii '\n' :: ([] ++ ascii '\n' :: rest) := by
      rw [List.append_assoc, List.append_assoc, ← List.append_assoc]
      rfl
    rw [hsplit, lines_line (oneLine_data v).printable, lines_line (fun c hc => by cases hc)]
  cases frame with
  | event name v =>
    have hname : OneLine (utf8 "event: " ++ utf8 name) := (oneLine_ascii (by decide)).append h.1
    have hsplit : (SseFrame.event name v).text ++ rest = (utf8 "event: " ++ utf8 name) ++
        ascii '\n' :: (utf8 "data: " ++ (v.print ++ utf8 "\n\n") ++ rest) := by
      unfold SseFrame.text
      rw [List.append_assoc, List.append_assoc, List.append_assoc]
      rfl
    rw [hsplit, lines_line hname.printable, hdata]
    rfl
  | data v => exact hdata v
  | done =>
    have hsplit : SseFrame.done.text ++ rest = utf8 "data: [DONE]" ++ ascii '\n' :: ([] ++ ascii '\n' :: rest) :=
      rfl
    rw [hsplit, lines_line (by decide), lines_line (fun c hc => by cases hc)]
    rfl

theorem isText_text {frame : SseFrame} (h : WellFormed frame) : IsText frame.text := by
  have hdata : ∀ v : Value, IsText (utf8 "data: " ++ (v.print ++ utf8 "\n\n")) := fun v =>
    .append ⟨_, rfl⟩ (.append (oneLine_print v).isText ⟨_, rfl⟩)
  cases frame with
  | event name v =>
    exact .append ⟨_, rfl⟩ (.append h.1.isText (.cons (by decide) (hdata v)))
  | data v => exact hdata v
  | done => exact ⟨_, rfl⟩

theorem reported_data {dialect : Dialect} {v : Value} (h : v.WF) :
    reported dialect (utf8 "data: " ++ v.print) = scanned dialect v := by
  have hstrip : stripData (utf8 "data: " ++ v.print) = some (ascii ' ' :: v.print) := by
    unfold stripData
    have hsplit : utf8 "data: " ++ v.print = utf8 "data:" ++ ascii ' ' :: v.print := rfl
    rw [hsplit, if_pos (List.prefix_append _ _)]
    rfl
  unfold reported onLine StreamUsageScanner.finish
  rw [hstrip]
  dsimp only
  rw [trimStart_print]
  exact onEventData_print h

theorem reported_event (dialect : Dialect) (name : String) :
    reported dialect (utf8 "event: " ++ utf8 name) = .zero := by
  have hstrip : stripData (utf8 "event: " ++ utf8 name) = none := by
    unfold stripData
    refine if_neg ?_
    rintro ⟨rest, hrest⟩
    injection hrest with hfirst _
    exact absurd hfirst (by decide)
  unfold reported onLine
  rw [hstrip]
  rfl

/-- The lines of a frame report what its data does. -/
theorem reported_frameLines {dialect : Dialect} {frame : SseFrame} (h : WellFormed frame) (f : Count)
    (n : Nat) : (∀ line ∈ frameLines frame, (reported dialect line).get f ≤ n) ↔
      (frameUsage dialect frame).get f ≤ n := by
  have hempty : reported dialect [] = .zero := rfl
  have hdone : reported dialect (utf8 "data: [DONE]") = .zero := rfl
  cases frame with
  | event name v =>
    unfold frameLines frameUsage
    rw [List.forall_mem_cons, List.forall_mem_cons, List.forall_mem_singleton, reported_event,
      reported_data h.2, hempty, TokenUsage.get_zero]
    exact ⟨fun hall => hall.2.1, fun hle => ⟨Nat.zero_le _, hle, Nat.zero_le _⟩⟩
  | data v =>
    unfold frameLines frameUsage
    rw [List.forall_mem_cons, List.forall_mem_singleton, reported_data h, hempty, TokenUsage.get_zero]
    exact and_iff_left (Nat.zero_le _)
  | done =>
    unfold frameLines frameUsage
    rw [List.forall_mem_cons, List.forall_mem_singleton, hdone, hempty, TokenUsage.get_zero]
    exact and_iff_left (Nat.zero_le _)

theorem lines_flatMap_text : ∀ {frames : List SseFrame}, (∀ frame ∈ frames, WellFormed frame) →
    lines (frames.flatMap SseFrame.text) = frames.flatMap frameLines
  | [], _ => rfl
  | frame :: rest, h => by
    rw [List.flatMap_cons, List.flatMap_cons, lines_text (h frame List.mem_cons_self),
      lines_flatMap_text fun other hother => h other (List.mem_cons_of_mem _ hother)]

/-- The counts of a rendered stream are the largest of its frames'. -/
theorem extractStream_frames {dialect : Dialect} {frames : List SseFrame}
    (h : ∀ frame ∈ frames, WellFormed frame) (f : Count) (n : Nat) :
    (extractStream dialect (frames.flatMap SseFrame.text)).get f ≤ n ↔
      ∀ frame ∈ frames, (frameUsage dialect frame).get f ≤ n := by
  rw [extractStream_le_iff (IsText.flatMap fun frame hframe => isText_text (h frame hframe)).fromUtf8,
    lines_flatMap_text h]
  constructor
  · intro hall frame hframe
    refine (reported_frameLines (h frame hframe) f n).mp fun line hline => ?_
    exact hall line (List.mem_flatMap.mpr ⟨frame, hframe, hline⟩)
  · intro hall line hline
    obtain ⟨frame, hframe, hline⟩ := List.mem_flatMap.mp hline
    exact (reported_frameLines (h frame hframe) f n).mpr (hall frame hframe) line hline

/-- A stream in which nothing else is reported. -/
theorem extractStream_of_only {dialect : Dialect} {frames : List SseFrame} {usage : TokenUsage}
    (h : ∀ frame ∈ frames, WellFormed frame)
    (honly : ∀ frame ∈ frames, frameUsage dialect frame = .zero ∨ frameUsage dialect frame = usage)
    (hsome : usage = .zero ∨ ∃ frame ∈ frames, frameUsage dialect frame = usage) :
    extractStream dialect (frames.flatMap SseFrame.text) = usage := by
  refine TokenUsage.ext_get fun f => le_antisymm ?_ ?_
  · rw [extractStream_frames h]
    intro frame hframe
    rcases honly frame hframe with hzero | heq
    · rw [hzero, TokenUsage.get_zero]
      exact Nat.zero_le _
    · rw [heq]
  · rcases hsome with rfl | ⟨frame, hframe, heq⟩
    · rw [TokenUsage.get_zero]
      exact Nat.zero_le _
    · rw [← heq]
      exact (extractStream_frames h f _).mp le_rfl frame hframe

end RapidRouter.Usage
