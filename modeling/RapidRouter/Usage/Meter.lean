import Mathlib.Data.List.DropRight
import RapidRouter.Lib.Json.Lexical
import RapidRouter.Lib.Json.Text
import RapidRouter.Usage.Extract

/-!
# Metering a response body

`MeteredBody` of `router-server/src/usage.rs`: the body is passed through
chunk by chunk, and when it ends, fails or is dropped, the tokens are read
out of what was retained of it and reported once.

What is retained is the last 256 KiB, whatever the chunks (`tail_foldl`), "because
providers place usage in the final JSON object or final stream event". A
plain response is one JSON object, though, and its end alone is not one: by
`parse_suffix` a longer body is metered only when all that was cut off is
white space. Of a stream the cut takes whole events, and the one it falls
into; `Retained` says when nothing is lost by that, and `usage_iff` that it
is exactly then that the tokens are those of the whole body.
-/

namespace RapidRouter.Usage

open Json Providers

/-- `USAGE_TAIL_CAP`. -/
@[irreducible] def usageTailCap : Nat := 256 * 1024

/-- What `complete_with_body` is told about a response. -/
structure Completion where
  status : Nat
  usage : TokenUsage
  /-- The head of the body, for the log drawer. -/
  output : Bytes

structure UsageHook where
  stream : Bool

structure MeteredBody where
  hook : Option UsageHook
  dialect : Dialect
  status : Nat
  tail : Bytes
  captured : Bytes
  captureLimit : Nat

/-- What the inner body answers to a poll, and the end of the wrapper. -/
inductive Poll where
  | data (chunk : Bytes)
  | trailers
  | pending
  | failed
  | ended
  | dropped

namespace Poll

def chunk : Poll → Bytes
  | data chunk => chunk
  | _ => []

/-- The body goes on. -/
def Continues : Poll → Prop
  | data _ | trailers | pending => True
  | _ => False

end Poll

/-- The body the polls deliver. -/
def bodyOf (polls : List Poll) : Bytes := polls.flatMap Poll.chunk

/-- What is retained of a body. -/
def retained (body : Bytes) : Bytes := body.rtake usageTailCap

namespace MeteredBody

/-- `meter_response`. -/
def meterResponse (hook : UsageHook) (dialect : Dialect) (status captureLimit : Nat) :
    MeteredBody :=
  ⟨some hook, dialect, status, [], [], captureLimit⟩

def observe (self : MeteredBody) (data : Bytes) : MeteredBody :=
  let captured :=
    if self.captured.length < self.captureLimit then
      let room := self.captureLimit - self.captured.length
      self.captured ++ data.take (min room data.length)
    else self.captured
  if usageTailCap ≤ data.length then
    { self with captured, tail := data.drop (data.length - usageTailCap) }
  else
    let overflow := self.tail.length + data.length - usageTailCap
    { self with captured, tail := self.tail.drop overflow ++ data }

def complete (self : MeteredBody) : MeteredBody × Option Completion :=
  match self.hook with
  | none => (self, none)
  | some hook =>
    let usage := extract hook.stream self.dialect self.tail
    ({ self with hook := none, captured := [] }, some ⟨self.status, usage, self.captured⟩)

/-- `poll_frame`, and `drop`. -/
def poll (self : MeteredBody) : Poll → MeteredBody × Option Completion
  | .data chunk => (self.observe chunk, none)
  | .trailers | .pending => (self, none)
  | .failed | .ended | .dropped => self.complete

/-- What is reported over a run. -/
def run (self : MeteredBody) : List Poll → List Completion
  | [] => []
  | p :: rest => (self.poll p).2.toList ++ (self.poll p).1.run rest

/-! ## What is retained does not depend on the chunks -/

theorem rtake_rtake_append {α : Type} (n : Nat) (a b : List α) :
    (a.rtake n ++ b).rtake n = (a ++ b).rtake n := by
  unfold List.rtake
  by_cases h : a.length ≤ n
  · rw [Nat.sub_eq_zero_of_le h, List.drop_zero]
  · have hlen : (List.drop (a.length - n) a ++ b).length - n = b.length := by
      rw [List.length_append, List.length_drop]
      omega
    have hsplit : (a ++ b).length - n = a.length - n + b.length := by
      rw [List.length_append]
      omega
    have hcut : (a ++ b).drop (a.length - n) = a.drop (a.length - n) ++ b :=
      List.drop_append_of_le_length (by omega)
    rw [hlen, hsplit, ← List.drop_drop, hcut]

theorem rtake_append_of_le {α : Type} {n : Nat} {a b : List α} (h : n ≤ b.length) :
    (a ++ b).rtake n = b.rtake n := by
  unfold List.rtake
  have hsplit : (a ++ b).length - n = a.length + (b.length - n) := by
    rw [List.length_append]
    omega
  rw [hsplit, ← List.drop_drop, List.drop_left]

theorem tail_observe (self : MeteredBody) (data : Bytes) :
    (self.observe data).tail = retained (self.tail ++ data) := by
  unfold observe retained
  dsimp only
  by_cases hlong : usageTailCap ≤ data.length
  · rw [if_pos hlong, rtake_append_of_le hlong]
    rfl
  · rw [if_neg hlong]
    show self.tail.drop (self.tail.length + data.length - usageTailCap) ++ data = _
    unfold List.rtake
    rw [List.length_append, List.drop_append_of_le_length (by omega)]

theorem captured_observe (self : MeteredBody) (data : Bytes)
    (h : self.captured.length ≤ self.captureLimit) :
    (self.observe data).captured = (self.captured ++ data).take self.captureLimit := by
  have hcaptured : (self.observe data).captured =
      if self.captured.length < self.captureLimit then
        self.captured ++ data.take (min (self.captureLimit - self.captured.length) data.length)
      else self.captured := by
    unfold observe
    dsimp only
    split <;> rfl
  rw [hcaptured, List.take_append, List.take_of_length_le h]
  by_cases hroom : self.captured.length < self.captureLimit
  · rw [if_pos hroom, ← List.take_eq_take_min]
  · rw [if_neg hroom, Nat.sub_eq_zero_of_le (by omega), List.take_zero, List.append_nil]

/-- The wrapper has seen `body` and not reported yet. -/
structure Watching (m : MeteredBody) (hook : UsageHook) (body : Bytes) : Prop where
  hook : m.hook = some hook
  tail : m.tail = retained body
  captured : m.captured = body.take m.captureLimit

theorem Watching.observe {self : MeteredBody} {hook : UsageHook} {body : Bytes}
    (h : self.Watching hook body) (data : Bytes) :
    (self.observe data).Watching hook (body ++ data) := by
  have hlimit : (self.observe data).captureLimit = self.captureLimit := by
    unfold MeteredBody.observe
    dsimp only
    split <;> rfl
  have hhook : (self.observe data).hook = self.hook := by
    unfold MeteredBody.observe
    dsimp only
    split <;> rfl
  have hcaptured : self.captured.length ≤ self.captureLimit := by
    rw [h.captured]
    exact List.length_take_le _ _
  refine ⟨hhook.trans h.hook, ?_, ?_⟩
  · rw [tail_observe self data, h.tail]
    exact rtake_rtake_append usageTailCap body data
  · rw [captured_observe self data hcaptured, hlimit, h.captured, List.take_append,
      List.take_append, List.take_take, Nat.min_self, List.length_take]
    congr 2
    omega

theorem poll_continues {self : MeteredBody} {hook : UsageHook} {body : Bytes}
    (h : self.Watching hook body) {p : Poll} (hp : p.Continues) :
    (self.poll p).2 = none ∧ (self.poll p).1.Watching hook (body ++ p.chunk) ∧
      (self.poll p).1.dialect = self.dialect ∧ (self.poll p).1.status = self.status ∧
      (self.poll p).1.captureLimit = self.captureLimit := by
  cases p with
  | data chunk =>
    refine ⟨rfl, h.observe chunk, ?_⟩
    show (self.observe chunk).dialect = _ ∧ (self.observe chunk).status = _ ∧
      (self.observe chunk).captureLimit = _
    unfold MeteredBody.observe
    dsimp only
    split <;> exact ⟨rfl, rfl, rfl⟩
  | trailers | pending =>
    refine ⟨rfl, ?_, rfl, rfl, rfl⟩
    show self.Watching hook (body ++ [])
    rw [List.append_nil]
    exact h
  | failed | ended | dropped => exact hp.elim

/-- Nothing is reported a second time. -/
theorem run_reported : ∀ (polls : List Poll) (self : MeteredBody), self.hook = none →
    self.run polls = []
  | [], _, _ => rfl
  | p :: rest, self, h => by
    have hstep : (self.poll p).2 = none ∧ (self.poll p).1.hook = none := by
      cases p with
      | data chunk =>
        refine ⟨rfl, ?_⟩
        show (self.observe chunk).hook = none
        unfold MeteredBody.observe
        dsimp only
        split <;> exact h
      | trailers | pending => exact ⟨rfl, h⟩
      | failed | ended | dropped =>
        show self.complete.2 = none ∧ self.complete.1.hook = none
        unfold complete
        rw [h]
        exact ⟨rfl, h⟩
    show (self.poll p).2.toList ++ (self.poll p).1.run rest = []
    rw [hstep.1, run_reported rest _ hstep.2]
    rfl

/-- A body that has come to its end, however it was divided and however it
ended, is reported once, by what is retained of it. -/
theorem run_eq {hook : UsageHook} {last : Poll} (hlast : ¬ last.Continues) (later : List Poll) :
    ∀ (polls : List Poll) (self : MeteredBody) (body : Bytes), (∀ p ∈ polls, p.Continues) →
      self.Watching hook body →
      self.run (polls ++ last :: later) =
        [⟨self.status,
          extract hook.stream self.dialect (retained (body ++ bodyOf polls)),
          (body ++ bodyOf polls).take self.captureLimit⟩]
  | [], self, body, _, h => by
    have hcomplete : self.poll last = ({ self with hook := none, captured := [] },
        some ⟨self.status, extract hook.stream self.dialect self.tail, self.captured⟩) := by
      cases last with
      | data | trailers | pending => exact absurd trivial hlast
      | failed | ended | dropped =>
        show self.complete = _
        unfold complete
        rw [h.hook]
    show (self.poll last).2.toList ++ (self.poll last).1.run later = _
    rw [hcomplete, run_reported later _ rfl, h.tail, h.captured]
    show _ = [Completion.mk self.status
      (extract hook.stream self.dialect (retained (body ++ [])))
      ((body ++ []).take self.captureLimit)]
    rw [List.append_nil body]
    rfl
  | p :: rest, self, body, hpolls, h => by
    obtain ⟨hnone, hwatching, hdialect, hstatus, hlimit⟩ :=
      poll_continues h (hpolls p List.mem_cons_self)
    have hrest := run_eq hlast later rest _ _
      (fun q hq => hpolls q (List.mem_cons_of_mem _ hq)) hwatching
    show (self.poll p).2.toList ++ (self.poll p).1.run (rest ++ last :: later) = _
    rw [hnone, hrest, hdialect, hstatus, hlimit, List.append_assoc]
    rfl

end MeteredBody

/-! ## What the cut loses -/

def cutOff (body : Bytes) : Bytes := body.take (body.length - usageTailCap)

theorem cutOff_append_retained (body : Bytes) : cutOff body ++ retained body = body :=
  List.take_append_drop _ body

theorem retained_eq {body : Bytes} (h : body.length ≤ usageTailCap) : retained body = body := by
  unfold retained List.rtake
  rw [Nat.sub_eq_zero_of_le h, List.drop_zero]

/-! ### One document -/

theorem index_of_not_object {v : Value} (h : v.isObject = false) (key : String) :
    v.index key = .null := by
  cases v with
  | object members => cases h
  | _ => rfl

theorem index_null (key : String) : Value.null.index key = .null := rfl

/-- Only an object reports anything. -/
theorem usageFromValue_of_not_object {dialect : Dialect} {v : Value} (h : v.isObject = false) :
    usageFromValue dialect v = .zero := by
  unfold usageFromValue
  simp only [index_of_not_object h, index_null, Value.isObject]
  cases dialect <;> rfl

theorem isObject_of_toValue {depth : Nat} {r : Raw} {v : Value} (h : r.toValue depth = some v)
    (hv : v.isObject = true) : r.IsObject := by
  cases r with
  | object members => trivial
  | null | bool b => cases h; cases hv
  | number n =>
    obtain ⟨_, _, rfl⟩ := Option.map_eq_some_iff.mp h
    cases hv
  | string s =>
    obtain ⟨_, _, rfl⟩ := Option.map_eq_some_iff.mp h
    cases hv
  | array items =>
    unfold Raw.toValue at h
    split at h
    · cases h
    · obtain ⟨_, _, rfl⟩ := Option.map_eq_some_iff.mp h
      cases hv

/-- A text that reports something is an object. -/
theorem parse_of_extractSync_ne {dialect : Dialect} {body : Bytes}
    (h : extractSync dialect body ≠ .zero) : ∃ r, parse body = some r ∧ r.IsObject := by
  unfold extractSync at h
  split at h
  · exact absurd rfl h
  · split at h
    · next v hv =>
      obtain ⟨r, hr, hrv⟩ := Option.bind_eq_some_iff.mp hv
      refine ⟨r, hr, isObject_of_toValue hrv ?_⟩
      by_contra hobject
      exact h (usageFromValue_of_not_object (Bool.not_eq_true _ ▸ hobject))
    · exact absurd rfl h

theorem contains_ws {c : UInt8} (hc : isWs c = true) {needle : String} {d : UInt8} {ds : Bytes}
    (hneedle : utf8 needle = d :: ds) (hd : isWs d = false) (body : Bytes) :
    contains (c :: body) needle = contains body needle := by
  unfold contains
  rw [hneedle]
  congr 1
  rw [List.infix_cons_iff, List.cons_prefix_cons]
  refine propext (or_iff_right ?_)
  rintro ⟨rfl, _⟩
  rw [hc] at hd
  cases hd

theorem extractSync_ws (dialect : Dialect) {c : UInt8} (hc : isWs c = true) (body : Bytes) :
    extractSync dialect (c :: body) = extractSync dialect body := by
  unfold extractSync fromSlice
  rw [contains_ws hc (show utf8 "usage" = ascii 'u' :: utf8 "sage" from rfl) rfl,
    contains_ws hc (show utf8 "usageMetadata" = ascii 'u' :: utf8 "sageMetadata" from rfl) rfl,
    parse_ws hc]

theorem extractSync_append_ws (dialect : Dialect) (body : Bytes) : ∀ {pre : Bytes},
    (∀ c ∈ pre, isWs c = true) → extractSync dialect (pre ++ body) = extractSync dialect body
  | [], _ => rfl
  | c :: pre, h => by
    rw [List.cons_append, extractSync_ws dialect (h c List.mem_cons_self)]
    exact extractSync_append_ws dialect body fun d hd => h d (List.mem_cons_of_mem _ hd)

theorem extractSync_retained_iff {dialect : Dialect} {body : Bytes}
    (hreports : extractSync dialect body ≠ .zero) :
    extractSync dialect (retained body) = extractSync dialect body ↔
      ∀ c ∈ cutOff body, isWs c = true := by
  constructor
  · intro heq
    obtain ⟨r, hr, hobject⟩ := parse_of_extractSync_ne hreports
    obtain ⟨r', hr', hobject'⟩ := parse_of_extractSync_ne (heq ▸ hreports)
    rw [← cutOff_append_retained body] at hr
    exact parse_suffix hr' hobject' hr hobject
  · intro hws
    have := extractSync_append_ws dialect (retained body) hws
    rw [cutOff_append_retained] at this
    exact this.symm

/-! ### A stream -/

/-- Only the first line of a text can be one the text before it was part
of. -/
theorem splitInclusive_tail_subset (body : Bytes) : ∀ (pre : Bytes) {line : Bytes},
    line ∈ (splitInclusive body).tail → line ∈ (splitInclusive (pre ++ body)).tail
  | [], _, h => h
  | c :: pre, line, h => by
    have ih := splitInclusive_tail_subset body pre h
    rw [List.cons_append]
    unfold splitInclusive
    split
    · exact List.mem_of_mem_tail ih
    · split
      · next hnil =>
        rw [hnil] at ih
        cases ih
      · next hcons =>
        rw [hcons] at ih
        exact ih

theorem mem_lines_append {pre body line : Bytes} (h : line ∈ (lines body).tail) :
    line ∈ lines (pre ++ body) := by
  unfold lines at h ⊢
  rw [← List.map_tail] at h
  obtain ⟨l, hl, rfl⟩ := List.mem_map.mp h
  exact List.mem_map_of_mem (List.mem_of_mem_tail (splitInclusive_tail_subset body pre hl))

/-- What is left of the line the cut falls into; nothing of any other line is
cut. -/
def cutLine (body : Bytes) : List Bytes := (lines (retained body)).take 1

theorem covers_retained {dialect : Dialect} {body : Bytes}
    (h : Covers dialect (lines body) (cutLine body)) :
    Covers dialect (lines body) (lines (retained body)) := by
  intro f line hline
  rw [← List.take_append_drop 1 (lines (retained body)), List.mem_append] at hline
  rcases hline with hfirst | hrest
  · exact h f line hfirst
  · rw [List.drop_one] at hrest
    have hmem := @mem_lines_append (cutOff body) _ _ hrest
    rw [cutOff_append_retained] at hmem
    exact Or.inr ⟨line, hmem, le_rfl⟩

theorem isSome_of_extractStream_ne {dialect : Dialect} {body : Bytes}
    (h : extractStream dialect body ≠ .zero) : (fromUtf8? body).isSome = true := by
  by_contra htext
  refine h ?_
  unfold extractStream
  dsimp only
  rw [if_neg htext]
  rfl

theorem extractStream_retained_iff {dialect : Dialect} {body : Bytes}
    (hreports : extractStream dialect body ≠ .zero) :
    extractStream dialect (retained body) = extractStream dialect body ↔
      (fromUtf8? (retained body)).isSome = true ∧
        Covers dialect (lines (retained body)) (lines body) ∧
        Covers dialect (lines body) (cutLine body) := by
  have htext := isSome_of_extractStream_ne hreports
  constructor
  · intro heq
    have htext' := isSome_of_extractStream_ne (heq ▸ hreports)
    refine ⟨htext', ?_, ?_⟩
    · rw [← extractStream_le_extractStream htext htext', heq]
      exact fun f => le_rfl
    · have hcovers : Covers dialect (lines body) (lines (retained body)) := by
        rw [← extractStream_le_extractStream htext' htext, heq]
        exact fun f => le_rfl
      exact fun f line hline => hcovers f line (List.mem_of_mem_take hline)
  · intro h
    obtain ⟨htext', hlost, hcut⟩ := h
    refine TokenUsage.ext_get fun f => le_antisymm ?_ ?_
    · exact (extractStream_le_extractStream htext' htext).mpr (covers_retained hcut) f
    · exact (extractStream_le_extractStream htext htext').mpr hlost f

/-! ## The tokens of the whole body -/

/-- The upstream reports its usage. -/
def Reports (stream : Bool) (dialect : Dialect) (body : Bytes) : Prop :=
  extract stream dialect body ≠ .zero

/-- The cut loses nothing of the usage, and makes nothing up: the body is
not longer than what is retained; or it is a document and all that is cut off
is white space; or it is a stream that is still text after the cut, every
count reported on a line cut off is reached by one on a line retained, and
the line the cut falls into does not report more than the stream did. -/
def Retained (stream : Bool) (dialect : Dialect) (body : Bytes) : Prop :=
  body.length ≤ usageTailCap ∨
    if stream then
      (fromUtf8? (retained body)).isSome = true ∧
        Covers dialect (lines (retained body)) (lines body) ∧
        Covers dialect (lines body) (cutLine body)
    else ∀ c ∈ cutOff body, isWs c = true

theorem extract_retained_iff {stream : Bool} {dialect : Dialect} {body : Bytes}
    (hreports : Reports stream dialect body) :
    extract stream dialect (retained body) = extract stream dialect body ↔
      Retained stream dialect body := by
  have hshort : body.length ≤ usageTailCap →
      extract stream dialect (retained body) = extract stream dialect body := by
    intro h
    rw [retained_eq h]
  unfold Reports extract at hreports
  unfold extract at hshort ⊢
  unfold Retained
  cases stream with
  | false =>
    simp only [Bool.false_eq_true, if_false] at hreports hshort ⊢
    have hiff := extractSync_retained_iff hreports
    exact ⟨fun h => Or.inr (hiff.mp h), fun h => h.elim hshort hiff.mpr⟩
  | true =>
    simp only [if_true] at hreports hshort ⊢
    have hiff := extractStream_retained_iff hreports
    exact ⟨fun h => Or.inr (hiff.mp h), fun h => h.elim hshort hiff.mpr⟩

namespace MeteredBody

theorem watching_meterResponse (hook : UsageHook) (dialect : Dialect) (status captureLimit : Nat) :
    (meterResponse hook dialect status captureLimit).Watching hook [] := by
  refine ⟨rfl, ?_, List.take_nil.symm⟩
  unfold retained
  rw [List.rtake_nil]
  rfl

/-- However a body is divided and however it ends, its usage is reported
once; the tokens are those of the whole body exactly when the cut loses
none. -/
theorem usage_iff (hook : UsageHook) (dialect : Dialect) (status captureLimit : Nat)
    (polls : List Poll) (last : Poll) (later : List Poll) (hpolls : ∀ p ∈ polls, p.Continues)
    (hlast : ¬ last.Continues) (hreports : Reports hook.stream dialect (bodyOf polls)) :
    ((meterResponse hook dialect status captureLimit).run (polls ++ last :: later)).map
        Completion.usage = [extract hook.stream dialect (bodyOf polls)] ↔
      Retained hook.stream dialect (bodyOf polls) := by
  rw [run_eq hlast later polls _ [] hpolls (watching_meterResponse hook dialect status captureLimit),
    List.map_singleton, List.nil_append, ← extract_retained_iff hreports]
  exact List.singleton_inj

/-- A stream in three chunks, the counts in two events. -/
def streamPolls : List Poll :=
  [.data (utf8 "data: \x7b\"message\":\x7b\"usage\":\x7b\"input_tokens\":7"),
    .data (utf8 "\x7d\x7d\x7d\n\ndata: \x7b\"usage\":\x7b\"output_tokens\":3\x7d\x7d"), .pending,
    .data (utf8 "\n\n")]

theorem usage_iff_two_events :
    ((meterResponse ⟨true⟩ .anthropic 200 0).run (streamPolls ++ [.ended, .dropped])).map
      Completion.usage = [⟨7, 3, 0⟩] := by
  have hextract : extract true .anthropic (bodyOf streamPolls) = ⟨7, 3, 0⟩ := by
    decide +kernel
  have hreports : Reports true .anthropic (bodyOf streamPolls) := by
    unfold Reports
    rw [hextract]
    decide
  have hpolls : ∀ p ∈ streamPolls, p.Continues := by
    intro p hp
    simp only [streamPolls, List.mem_cons, List.not_mem_nil, or_false] at hp
    rcases hp with rfl | rfl | rfl | rfl <;> trivial
  have hlength : (bodyOf streamPolls).length ≤ usageTailCap := by
    have hlen : (bodyOf streamPolls).length ≤ 100 := by decide +kernel
    unfold usageTailCap
    omega
  have h := (usage_iff ⟨true⟩ .anthropic 200 0 streamPolls .ended [.dropped] hpolls id
    hreports).mpr (Or.inl hlength)
  rw [hextract] at h
  exact h

/-- An answer of `n` bytes of text, and its usage. -/
def longAnswer (n : Nat) : Value :=
  .object [("id", .string (String.ofList (List.replicate n 'a'))),
    ("usage", .object [("completion_tokens", .number (.posInt 3 (by decide))),
      ("prompt_tokens", .number (.posInt 7 (by decide)))])]

theorem extract_longAnswer (n : Nat) : extract false .openAi (longAnswer n).print = ⟨7, 3, 0⟩ := by
  have hcontains : contains (longAnswer n).print "usage" = true := by
    refine decide_eq_true ?_
    have hkey : utf8 "usage" <:+: printString "usage" := ⟨[ascii '"'], [ascii '"'], rfl⟩
    exact (hkey.trans ⟨[], _, rfl⟩).trans (infix_print (List.mem_cons_of_mem _ List.mem_cons_self))
  have hwf : (longAnswer n).WF := by
    refine ⟨?_, trivial, ⟨?_, trivial, trivial, trivial⟩, trivial⟩
    · exact List.pairwise_pair.mpr (show "id" < "usage" by decide)
    · exact List.pairwise_pair.mpr (show "completion_tokens" < "prompt_tokens" by decide)
  have hread : fromSlice (longAnswer n).print = some (longAnswer n) := by
    rw [fromSlice_print hwf]
    rfl
  unfold extract extractSync
  rw [hcontains, hread]
  rfl

theorem length_longAnswer (n : Nat) : n < (longAnswer n).print.length := by
  have hescape : escape (String.ofList (List.replicate n 'a')) = List.replicate n (ascii 'a') := by
    unfold escape
    rw [utf8_ofList, List.flatMap_assoc]
    induction n with
    | zero => rfl
    | succ n ih =>
      rw [List.replicate_succ, List.flatMap_cons, ih]
      rfl
  have hstring : (printString (String.ofList (List.replicate n 'a'))).length = n + 2 := by
    unfold printString
    rw [hescape, List.length_cons, List.length_append, List.length_replicate]
    rfl
  unfold longAnswer
  rw [Value.print, Value.print, List.length_cons, List.length_append, List.length_cons,
    List.length_append, hstring]
  omega

/-- A plain response of more than 256 KiB is not metered. -/
theorem longAnswer_not_metered :
    ¬ ∀ (hook : UsageHook) (dialect : Dialect) (status captureLimit : Nat) (polls : List Poll)
      (last : Poll) (later : List Poll), (∀ p ∈ polls, p.Continues) → ¬ last.Continues →
      Reports hook.stream dialect (bodyOf polls) →
      ((meterResponse hook dialect status captureLimit).run (polls ++ last :: later)).map
        Completion.usage = [extract hook.stream dialect (bodyOf polls)] := by
  intro hclaim
  have hbody : bodyOf [.data (longAnswer usageTailCap).print] =
      (longAnswer usageTailCap).print := List.append_nil _
  have hreports : Reports false .openAi (longAnswer usageTailCap).print := by
    unfold Reports
    rw [extract_longAnswer]
    decide
  have hpolls : ∀ p ∈ [Poll.data (longAnswer usageTailCap).print], p.Continues := by
    intro p hp
    rw [List.mem_singleton] at hp
    subst hp
    trivial
  have hrun := hclaim ⟨false⟩ .openAi 200 0 [.data (longAnswer usageTailCap).print] .ended [] hpolls
    id (hbody.symm ▸ hreports)
  rw [run_eq id [] _ _ [] hpolls (watching_meterResponse ⟨false⟩ .openAi 200 0), List.map_singleton,
    List.nil_append, hbody, List.singleton_inj] at hrun
  have hretained := (extract_retained_iff hreports).mp hrun
  have hlength := length_longAnswer usageTailCap
  rcases hretained with hshort | hws
  · omega
  · have hopen : ascii '\x7b' ∈ cutOff (longAnswer usageTailCap).print := by
      obtain ⟨k, hk⟩ := Nat.exists_eq_add_of_lt hlength
      have hcut : (longAnswer usageTailCap).print.length - usageTailCap = k + 1 := by omega
      unfold cutOff
      rw [hcut]
      unfold longAnswer
      rw [Value.print, List.take_succ_cons]
      exact List.mem_cons_self
    exact absurd (hws _ hopen) (by decide)

end MeteredBody

end RapidRouter.Usage
