import RapidRouter.Usage.Frames

/-!
# Usage in a rendered stream

What is metered of a stream the gateway renders for its client, when the
upstream reports its usage in one of the chunks. The OpenAI stream passes the
report through, and the Responses stream repeats it at the end; Anthropic's
has written an input of nothing before it was known, and never corrects it
(`anthropic_scanned`); Gemini's writes it only when it comes with the
finishing chunk (`gemini_scanned`).
-/

namespace RapidRouter.Usage

open Json Providers Emit

/-! ## Chunks -/

/-- A chunk, or a whole answer, in OpenAI's shape, as the reader built it. -/
structure IsChunk (chunk : Value) : Prop where
  wf : chunk.WF
  depth : chunk.depth < depthLimit
  /-- It is not an event of the Responses API. -/
  response : chunk.get? "response" = none

/-- The chunk reports no usage. -/
def NoReport (chunk : Value) : Prop := chunk.index "usage" = .null

/-- The chunk reports this usage. -/
structure Reported (chunk : Value) (input output : Nat) : Prop where
  input : ((chunk.index "usage").index "prompt_tokens").asU64 = some input
  output : ((chunk.index "usage").index "completion_tokens").asU64 = some output
  total : ((chunk.index "usage").index "total_tokens").depth = 0
  /-- The counts go by the names of the chat API. -/
  chat : (chunk.index "usage").index "input_tokens" = .null ∧
    (chunk.index "usage").index "output_tokens" = .null

/-- The chunks of a stream of which one reports the usage. -/
structure Reporting (before : List Value) (report : Value) (after : List Value)
    (input output : Nat) : Prop where
  chunks : ∀ chunk ∈ before ++ report :: after, IsChunk chunk
  none_before : ∀ chunk ∈ before, NoReport chunk
  none_after : ∀ chunk ∈ after, NoReport chunk
  report : Reported report input output

theorem u_null : u .null = 0 := rfl

theorem u_ofU64 (n : Nat) : u (.ofU64 n) = n % 2 ^ 64 := rfl

theorem usageOf_noReport {chunk : Value} (h : NoReport chunk) : usageOf chunk = none := by
  unfold usageOf
  unfold NoReport Value.index at h
  cases hu : chunk.get? "usage" with
  | none => rfl
  | some usage =>
    rw [hu] at h
    change usage = .null at h
    rw [h]
    rfl

theorem index_of_asU64 {v : Value} {k : String} {n : Nat} (h : (v.index k).asU64 = some n) :
    v.isObject = true := by
  cases v with
  | object members => rfl
  | _ => cases h

theorem Reported.usageOf {chunk : Value} {input output : Nat} (h : Reported chunk input output) :
    usageOf chunk = some (chunk.index "usage") := by
  have hobject := index_of_asU64 h.input
  unfold Providers.usageOf
  unfold Value.index at hobject ⊢
  cases hu : chunk.get? "usage" with
  | none =>
    rw [hu] at hobject
    cases hobject
  | some usage =>
    rw [hu] at hobject
    change usage.isObject = true at hobject
    cases usage with
    | object members => rfl
    | _ => cases hobject

/-- The usage the renderers that keep it have after some chunks. -/
def latest (chunks : List Value) : Option Value :=
  chunks.foldl (fun usage chunk => (usageOf chunk).or usage) none

theorem foldl_noReport {chunks : List Value} (h : ∀ chunk ∈ chunks, NoReport chunk)
    (usage : Option Value) :
    chunks.foldl (fun usage chunk => (usageOf chunk).or usage) usage = usage := by
  induction chunks generalizing usage with
  | nil => rfl
  | cons chunk rest ih =>
    rw [List.foldl_cons, usageOf_noReport (h chunk List.mem_cons_self), Option.none_or]
    exact ih (fun c hc => h c (List.mem_cons_of_mem _ hc)) usage

theorem Reporting.latest {before after : List Value} {report : Value} {input output : Nat}
    (h : Reporting before report after input output) :
    latest (before ++ report :: after) = some (report.index "usage") := by
  unfold Usage.latest
  rw [List.foldl_append, List.foldl_cons, foldl_noReport h.none_before, foldl_noReport h.none_after,
    h.report.usageOf]
  rfl

theorem elements_wf {v : Value} (h : v.WF) : ∀ x ∈ elements v, x.WF := by
  intro x hx
  unfold elements at hx
  cases harray : v.asArray with
  | none =>
    rw [harray] at hx
    cases hx
  | some items =>
    rw [harray] at hx
    exact h.asArray harray x hx

/-! ## Frames that report nothing -/

def Quiet (dialect : Dialect) (frame : SseFrame) : Prop :=
  WellFormed frame ∧ frameUsage dialect frame = .zero

/-- Text an event's name is made of. -/
def PlainName (name : String) : Prop := ∀ c ∈ utf8 name, 0x20 ≤ c.toNat ∧ c.toNat < 0x80

instance (name : String) : Decidable (PlainName name) :=
  inferInstanceAs (Decidable (∀ c ∈ utf8 name, 0x20 ≤ c.toNat ∧ c.toNat < 0x80))

theorem scanned_zero {dialect : Dialect} {v : Value} (h : usageFromValue dialect v = .zero) :
    scanned dialect v = .zero := by
  unfold scanned
  rw [h, ite_self]

theorem quiet_event {dialect : Dialect} {name : String} (hname : PlainName name) {v : Value}
    (hwf : v.WF) (h : usageFromValue dialect v = .zero) : Quiet dialect (.event name v) :=
  ⟨⟨oneLine_ascii hname, hwf⟩, scanned_zero h⟩

theorem usageFromValue_null {dialect : Dialect} {v : Value} (husage : v.index "usage" = .null)
    (hmetadata : v.index "usageMetadata" = .null)
    (hmessage : (v.index "message").index "usage" = .null)
    (hresponse : (v.index "response").index "usage" = .null) :
    usageFromValue dialect v = .zero := by
  unfold usageFromValue
  cases dialect <;> simp only [husage, hmetadata, hmessage, hresponse] <;> rfl

/-- The members of an event that can carry no usage. -/
def Silent (members : List (String × Value)) : Prop :=
  ∀ m ∈ members, m.2.WF ∧ m.1 ≠ "usage" ∧ m.1 ≠ "usageMetadata" ∧ m.1 ≠ "message" ∧ m.1 ≠ "response"

theorem index_ofMembers_null {members : List (String × Value)} {k : String}
    (h : ∀ m ∈ members, m.1 ≠ k) : (Value.ofMembers members).index k = .null := by
  unfold Value.index
  rw [Value.get?_ofMembers_none h]
  rfl

theorem quiet_silent {dialect : Dialect} {name : String} (hname : PlainName name)
    {members : List (String × Value)} (h : Silent members) :
    Quiet dialect (.event name (.ofMembers members)) := by
  refine quiet_event hname (Value.wf_ofMembers fun m hm => (h m hm).1) (usageFromValue_null ?_ ?_ ?_ ?_)
  · exact index_ofMembers_null fun m hm => (h m hm).2.1
  · exact index_ofMembers_null fun m hm => (h m hm).2.2.1
  · rw [index_ofMembers_null fun m hm => (h m hm).2.2.2.1]
    rfl
  · rw [index_ofMembers_null fun m hm => (h m hm).2.2.2.2]
    rfl

/-! ## OpenAI -/

theorem usageFromValue_noReport {chunk : Value} (hchunk : IsChunk chunk) (h : NoReport chunk) :
    usageFromValue .openAi chunk = .zero := by
  have hresponse : chunk.index "response" = .null := by
    unfold Value.index
    rw [hchunk.response]
    rfl
  unfold usageFromValue
  unfold NoReport at h
  simp only [h, hresponse]
  rfl

theorem Reported.openAi {chunk : Value} {input output : Nat} (h : Reported chunk input output) :
    (usageFromValue .openAi chunk).input = input ∧ (usageFromValue .openAi chunk).output = output := by
  have hobject := index_of_asU64 h.input
  unfold usageFromValue
  simp only [hobject, if_true, h.chat.1, h.chat.2]
  unfold u
  rw [h.input, h.output]
  exact ⟨Nat.max_zero input, Nat.max_zero output⟩

theorem renderedFrames_openAi (chunks : List Value) :
    renderedFrames (.dialect .openAi) chunks = chunks.map .data ++ [.done] := by
  have hemit : emitAll InboundStream.onChunk .openAi chunks = (.openAi, chunks.map .data) := by
    induction chunks with
    | nil => rfl
    | cons chunk rest ih =>
      show ((emitAll InboundStream.onChunk .openAi rest).1,
        [SseFrame.data chunk] ++ (emitAll InboundStream.onChunk .openAi rest).2) = _
      rw [ih]
      rfl
  unfold renderedFrames
  show (emitAll InboundStream.onChunk .openAi chunks).2 ++
    (emitAll InboundStream.onChunk .openAi chunks).1.finishFrames = _
  rw [hemit]
  rfl

theorem openAi_scanned {before after : List Value} {report : Value} {input output : Nat}
    (h : Reporting before report after input output) :
    extractStream .openAi (renderedStream (.dialect .openAi) (before ++ report :: after)) =
      usageFromValue .openAi report := by
  have hscanned : ∀ chunk, IsChunk chunk → scanned .openAi chunk = usageFromValue .openAi chunk :=
    fun chunk hchunk => if_pos hchunk.depth
  have hreport : report ∈ before ++ report :: after := by simp
  unfold renderedStream
  rw [renderedFrames_openAi]
  refine extractStream_of_only ?_ ?_ (Or.inr ⟨.data report, ?_, hscanned report (h.chunks _ hreport)⟩)
  · intro frame hframe
    rcases List.mem_append.mp hframe with hframe | hframe
    · obtain ⟨chunk, hchunk, rfl⟩ := List.mem_map.mp hframe
      exact (h.chunks chunk hchunk).wf
    · rw [List.mem_singleton.mp hframe]
      trivial
  · intro frame hframe
    rcases List.mem_append.mp hframe with hframe | hframe
    · obtain ⟨chunk, hchunk, rfl⟩ := List.mem_map.mp hframe
      have hquiet : NoReport chunk → frameUsage .openAi (.data chunk) = .zero := fun hnone =>
        scanned_zero (usageFromValue_noReport (h.chunks chunk hchunk) hnone)
      rcases List.mem_append.mp hchunk with hbefore | hrest
      · exact Or.inl (hquiet (h.none_before chunk hbefore))
      · rcases List.mem_cons.mp hrest with rfl | hafter
        · exact Or.inr (hscanned _ (h.chunks _ hreport))
        · exact Or.inl (hquiet (h.none_after chunk hafter))
    · rw [List.mem_singleton.mp hframe]
      exact Or.inl rfl
  · exact List.mem_append_left _ (List.mem_map_of_mem hreport)

/-! ## Anthropic -/

namespace Anthropic

open OpenAiToAnthropicStream

/-- A step that leaves the usage alone and writes none. -/
def Keeps (self : OpenAiToAnthropicStream) (next : OpenAiToAnthropicStream × List SseFrame) : Prop :=
  next.1.usage = self.usage ∧ ∀ frame ∈ next.2, Quiet .anthropic frame

theorem closeOpenBlock_keeps (self : OpenAiToAnthropicStream) : Keeps self self.closeOpenBlock := by
  unfold closeOpenBlock
  split
  · refine ⟨rfl, fun frame hframe => ?_⟩
    rw [List.mem_singleton.mp hframe]
    exact quiet_silent (by decide) (by simp [Silent, Value.WF, Value.wf_ofU64])
  · exact ⟨rfl, fun frame hframe => by cases hframe⟩

theorem blockStart_quiet (index : Nat) {block : Value} (h : block.WF) :
    Quiet .anthropic (blockStart index block) :=
  quiet_silent (by decide) (by simp [Silent, Value.WF, Value.wf_ofU64, h])

theorem blockDelta_quiet (index : Nat) {delta : Value} (h : delta.WF) :
    Quiet .anthropic (blockDelta index delta) :=
  quiet_silent (by decide) (by simp [Silent, Value.WF, Value.wf_ofU64, h])

theorem messageStart_quiet {chunk : Value} (h : chunk.WF) : Quiet .anthropic (messageStart chunk) := by
  refine quiet_event (by decide) (Value.wf_ofMembers ?_) ?_
  · simp only [List.forall_mem_cons, List.not_mem_nil, false_imp_iff, implies_true, and_true]
    refine ⟨trivial, Value.wf_ofMembers ?_⟩
    simp only [List.forall_mem_cons, List.not_mem_nil, false_imp_iff, implies_true, and_true]
    refine ⟨h.index _, trivial, trivial, h.index _, trivial, trivial, Value.wf_ofMembers ?_⟩
    simp [Value.wf_ofU64]
  · simp [usageFromValue, Value.index_ofMembers, u_ofU64, u_null, TokenUsage.zero, Value.isObject]

theorem onText_keeps (self : OpenAiToAnthropicStream) (text : String) :
    Keeps self (self.onText text) := by
  have hdelta : ∀ index, Quiet .anthropic (blockDelta index
      (.ofMembers [("type", .string "text_delta"), ("text", .string text)])) := fun index =>
    blockDelta_quiet index (Value.wf_ofMembers (by simp [Value.WF]))
  unfold onText
  split
  · refine ⟨rfl, fun frame hframe => ?_⟩
    rw [List.mem_singleton.mp hframe]
    exact hdelta _
  · obtain ⟨husage, hclosed⟩ := closeOpenBlock_keeps self
    refine ⟨husage, fun frame hframe => ?_⟩
    rcases List.mem_append.mp hframe with hframe | hframe
    · exact hclosed frame hframe
    · rcases List.mem_cons.mp hframe with rfl | hframe
      · exact blockStart_quiet _ (Value.wf_ofMembers (by simp [Value.WF]))
      · rw [List.mem_singleton.mp hframe]
        exact hdelta _

theorem onContent_keeps (self : OpenAiToAnthropicStream) (content : Value) :
    Keeps self (self.onContent content) := by
  unfold onContent
  split
  · exact onText_keeps self _
  · exact ⟨rfl, fun frame hframe => by cases hframe⟩

theorem onName_keeps (self : OpenAiToAnthropicStream) {call : Value} (h : call.WF) :
    Keeps self (self.onName call) := by
  unfold onName
  split
  · obtain ⟨husage, hclosed⟩ := closeOpenBlock_keeps self
    refine ⟨husage, fun frame hframe => ?_⟩
    rcases List.mem_append.mp hframe with hframe | hframe
    · exact hclosed frame hframe
    · rw [List.mem_singleton.mp hframe]
      refine blockStart_quiet _ (Value.wf_ofMembers ?_)
      simp only [List.forall_mem_cons, List.not_mem_nil, false_imp_iff, implies_true, and_true]
      exact ⟨trivial, h.index _, trivial, List.Pairwise.nil, trivial⟩
  · exact ⟨rfl, fun frame hframe => by cases hframe⟩

theorem argumentDeltas_quiet (self : OpenAiToAnthropicStream) (call : Value) :
    ∀ frame ∈ self.argumentDeltas call, Quiet .anthropic frame := by
  intro frame hframe
  unfold argumentDeltas at hframe
  split at hframe
  · rw [List.mem_singleton.mp hframe]
    exact blockDelta_quiet _ (Value.wf_ofMembers (by simp [Value.WF]))
  · cases hframe

theorem onCall_keeps (self : OpenAiToAnthropicStream) {call : Value} (h : call.WF) :
    Keeps self (self.onCall call) := by
  obtain ⟨husage, hopened⟩ := onName_keeps self h
  refine ⟨husage, fun frame hframe => ?_⟩
  rcases List.mem_append.mp hframe with hframe | hframe
  · exact hopened frame hframe
  · exact argumentDeltas_quiet _ call frame hframe

theorem onChunk_usage (self : OpenAiToAnthropicStream) {chunk : Value} (h : chunk.WF) :
    (self.onChunk chunk).1.usage = (usageOf chunk).or self.usage ∧
      ∀ frame ∈ (self.onChunk chunk).2, Quiet .anthropic frame := by
  have hstarted : ∀ frame ∈ (if self.started then [] else [messageStart chunk]),
      Quiet .anthropic frame := by
    intro frame hframe
    split at hframe
    · cases hframe
    · rw [List.mem_singleton.mp hframe]
      exact messageStart_quiet h
  have hcalls := (((h.index "choices").at 0).index "delta").index "tool_calls"
  obtain ⟨husage, hcontent⟩ := onContent_keeps { self with started := true }
    (((firstChoice chunk).index "delta").index "content")
  obtain ⟨hcalls, hcallsQuiet⟩ := @emitAll_forall _ _ _ onCall (fun s => s.usage = self.usage)
    (Quiet .anthropic) (elements (((firstChoice chunk).index "delta").index "tool_calls"))
    (fun s call hcall hs => by
      obtain ⟨hcallUsage, hcallQuiet⟩ := onCall_keeps s (elements_wf hcalls call hcall)
      exact ⟨hcallUsage.trans hs, hcallQuiet⟩) _ husage
  refine ⟨congrArg (fun usage => (usageOf chunk).or usage) hcalls, fun frame hframe => ?_⟩
  rcases List.mem_append.mp hframe with hframe | hframe
  · rcases List.mem_append.mp hframe with hframe | hframe
    · exact hstarted frame hframe
    · exact hcontent frame hframe
  · exact hcallsQuiet frame hframe

theorem chunks_usage : ∀ {chunks : List Value} (self : OpenAiToAnthropicStream),
    (∀ chunk ∈ chunks, chunk.WF) →
    (emitAll onChunk self chunks).1.usage =
        chunks.foldl (fun usage chunk => (usageOf chunk).or usage) self.usage ∧
      ∀ frame ∈ (emitAll onChunk self chunks).2, Quiet .anthropic frame
  | [], _, _ => ⟨rfl, fun frame hframe => by cases hframe⟩
  | chunk :: rest, self, h => by
    obtain ⟨husage, hquiet⟩ := onChunk_usage self (h chunk List.mem_cons_self)
    obtain ⟨hlast, hrest⟩ := chunks_usage (self.onChunk chunk).1
      fun c hc => h c (List.mem_cons_of_mem _ hc)
    refine ⟨?_, fun frame hframe => ?_⟩
    · show (emitAll onChunk (self.onChunk chunk).1 rest).1.usage = _
      rw [hlast, husage]
      rfl
    · rcases List.mem_append.mp hframe with hframe | hframe
      · exact hquiet frame hframe
      · exact hrest frame hframe

theorem messageDelta_usage (finish : Option String) {output : Nat} (h : output < 2 ^ 64) :
    WellFormed (messageDelta finish output) ∧
      frameUsage .anthropic (messageDelta finish output) = ⟨0, output, 0⟩ := by
  refine ⟨⟨oneLine_ascii (by decide), Value.wf_ofMembers ?_⟩, ?_⟩
  · simp only [List.forall_mem_cons, List.not_mem_nil, false_imp_iff, implies_true, and_true]
    refine ⟨trivial, Value.wf_ofMembers ?_, Value.wf_ofMembers ?_⟩
    · simp [Value.WF]
    · simp [Value.wf_ofU64]
  · have hdepth : (Value.ofMembers [("type", .string "message_delta"),
        ("delta", .ofMembers [("stop_reason", .string (fromFinish finish)), ("stop_sequence", .null)]),
        ("usage", .ofMembers [("output_tokens", .ofU64 output)])]).depth ≤ 2 := by
      refine Value.depth_ofMembers_le (by decide) ?_
      simp only [List.forall_mem_cons, List.not_mem_nil, false_imp_iff, implies_true, and_true]
      refine ⟨by decide, ?_, ?_⟩
      · exact Nat.lt_succ_of_le (Value.depth_ofMembers_le (by decide) (by
          simp only [List.forall_mem_cons, List.not_mem_nil, false_imp_iff, implies_true, and_true]
          exact ⟨Nat.zero_lt_one, Nat.zero_lt_one⟩))
      · exact Nat.lt_succ_of_le (Value.depth_ofMembers_le (by decide) (by
          simp only [List.forall_mem_cons, List.not_mem_nil, false_imp_iff, implies_true, and_true]
          exact Nat.zero_lt_one))
    show scanned .anthropic _ = _
    unfold scanned
    rw [if_pos (lt_of_le_of_lt hdepth (by decide))]
    simpa [usageFromValue, Value.index_ofMembers, u_ofU64, u_null] using h

end Anthropic

theorem anthropic_scanned {before after : List Value} {report : Value} {input output : Nat}
    (h : Reporting before report after input output) :
    extractStream .anthropic (renderedStream (.dialect .anthropic) (before ++ report :: after)) =
      ⟨0, output, 0⟩ := by
  have hemit := @emitAll_wrap _ _ _ InboundStream.onChunk _ OpenAiToAnthropicStream.onChunk
    InboundStream.anthropic (fun _ _ => rfl) .new (before ++ report :: after)
  obtain ⟨husage, hquiet⟩ := Anthropic.chunks_usage .new fun chunk hchunk => (h.chunks chunk hchunk).wf
  generalize hlast : emitAll OpenAiToAnthropicStream.onChunk .new (before ++ report :: after) = last
    at hemit husage hquiet
  have hframes : renderedFrames (.dialect .anthropic) (before ++ report :: after) =
      last.2 ++ last.1.finishFrames := by
    unfold renderedFrames
    show (emitAll InboundStream.onChunk (.anthropic .new) _).2 ++
      (emitAll InboundStream.onChunk (.anthropic .new) _).1.finishFrames = _
    rw [hemit]
    rfl
  have hreport : last.1.usage = some (report.index "usage") := husage.trans h.latest
  obtain ⟨hclosed, hclosedQuiet⟩ := Anthropic.closeOpenBlock_keeps last.1
  have htokens : ((last.1.closeOpenBlock.1.usage.bind fun u => (u.index "completion_tokens").asU64).getD
      0) = output := by
    rw [hclosed, hreport, Option.bind_some, h.report.output]
    rfl
  obtain ⟨hdeltaWf, hdelta⟩ := Anthropic.messageDelta_usage last.1.closeOpenBlock.1.finish
    (Value.asU64_lt h.report.output)
  have hstop : Quiet .anthropic (.event "message_stop"
      (.ofMembers [("type", .string "message_stop")])) :=
    quiet_silent (by decide) (by simp [Silent, Value.WF])
  have hall : ∀ frame ∈ last.2 ++ last.1.finishFrames, WellFormed frame ∧
      (frameUsage .anthropic frame = .zero ∨ frameUsage .anthropic frame = ⟨0, output, 0⟩) := by
    intro frame hframe
    have hzero : Quiet .anthropic frame → WellFormed frame ∧ (frameUsage .anthropic frame = .zero ∨
        frameUsage .anthropic frame = ⟨0, output, 0⟩) := fun hq => ⟨hq.1, Or.inl hq.2⟩
    rcases List.mem_append.mp hframe with hframe | hframe
    · exact hzero (hquiet frame hframe)
    · unfold OpenAiToAnthropicStream.finishFrames at hframe
      dsimp only at hframe
      rw [htokens] at hframe
      rcases List.mem_append.mp hframe with hframe | hframe
      · exact hzero (hclosedQuiet frame hframe)
      · rcases List.mem_cons.mp hframe with rfl | hframe
        · exact ⟨hdeltaWf, Or.inr hdelta⟩
        · rw [List.mem_singleton.mp hframe]
          exact ⟨hstop.1, Or.inl hstop.2⟩
  unfold renderedStream
  rw [hframes]
  refine extractStream_of_only (fun frame hframe => (hall frame hframe).1)
    (fun frame hframe => (hall frame hframe).2) (Or.inr ⟨_, ?_, hdelta⟩)
  refine List.mem_append_right _ ?_
  unfold OpenAiToAnthropicStream.finishFrames
  dsimp only
  rw [htokens]
  exact List.mem_append_right _ List.mem_cons_self

/-! ## Responses -/

namespace Responses

open ChunksToResponses

/-- Items nested no deeper than the renderer makes them. -/
def Compact (items : List Value) : Prop := ∀ item ∈ items, item.WF ∧ item.depth ≤ 4

/-- A step that leaves the usage alone and writes none. -/
structure Keeps (s : ChunksToResponses) (next : ChunksToResponses × List SseFrame) : Prop where
  usage : next.1.usage = s.usage
  output : Compact s.output → Compact next.1.output
  quiet : ∀ frame ∈ next.2, Quiet .openAi frame

theorem Keeps.rfl {self : ChunksToResponses} : Keeps self (self, []) :=
  ⟨Eq.refl _, id, fun frame hframe => by cases hframe⟩

theorem Keeps.append {self : ChunksToResponses} {a b : ChunksToResponses × List SseFrame}
    (ha : Keeps self a) (hb : Keeps a.1 b) : Keeps self (b.1, a.2 ++ b.2) := by
  refine ⟨hb.usage.trans ha.usage, fun h => hb.output (ha.output h), fun frame hframe => ?_⟩
  rcases List.mem_append.mp hframe with hframe | hframe
  · exact ha.quiet frame hframe
  · exact hb.quiet frame hframe

theorem Keeps.andThen {self : ChunksToResponses} {a : ChunksToResponses × List SseFrame}
    {f : ChunksToResponses → ChunksToResponses × List SseFrame} (ha : Keeps self a)
    (hf : Keeps a.1 (f a.1)) : Keeps self (Emit.andThen a f) := ha.append hf

theorem event_keeps (self : ChunksToResponses) {name : String} (hname : PlainName name)
    {data : List (String × Value)} (h : Silent data) : Keeps self (self.event name data) := by
  refine ⟨Eq.refl _, id, fun frame hframe => ?_⟩
  rw [List.mem_singleton.mp hframe]
  refine quiet_silent hname fun m hm => ?_
  rcases List.mem_append.mp hm with hm | hm
  · exact h m hm
  · have hadded : Silent [("type", .string name), ("sequence_number", .ofU64 self.sequence)] := by
      simp [Silent, Value.WF, Value.wf_ofU64]
    exact hadded m hm

theorem events_keeps (self : ChunksToResponses) :
    ∀ {list : List (String × List (String × Value))},
      (∀ e ∈ list, PlainName e.1 ∧ Silent e.2) → Keeps self (self.events list)
  | [], _ => .rfl
  | e :: _, h =>
    (event_keeps self (h e List.mem_cons_self).1 (h e List.mem_cons_self).2).append
      (events_keeps _ fun e' he' => h e' (List.mem_cons_of_mem _ he'))

theorem outputText_wf (text : String) : (outputText text).WF :=
  Value.wf_ofMembers (by simp [Value.WF, Value.ItemsWF])

theorem depth_outputText (text : String) : (outputText text).depth ≤ 2 := by
  refine Value.depth_ofMembers_le (by decide) ?_
  simp only [List.forall_mem_cons, List.not_mem_nil, false_imp_iff, implies_true, and_true]
  exact ⟨Nat.zero_lt_two, Nat.zero_lt_two, Nat.one_lt_two⟩

theorem messageItem_wf (outputIndex : Nat) (status : String) {content : List Value}
    (h : ∀ v ∈ content, v.WF) : (messageItem outputIndex status content).WF :=
  Value.wf_ofMembers (by simp [Value.WF, Value.itemsWF_iff.mpr h])

theorem callItem_wf (index : Nat) (callId' name args status : String) :
    (callItem index callId' name args status).WF := Value.wf_ofMembers (by simp [Value.WF])

/-- A message item that is complete. -/
theorem compact_message (outputIndex : Nat) (text : String) :
    (messageItem outputIndex "completed" [outputText text]).depth ≤ 4 := by
  refine Value.depth_ofMembers_le (by decide) ?_
  simp only [List.forall_mem_cons, List.not_mem_nil, false_imp_iff, implies_true, and_true]
  refine ⟨by decide, ?_, by decide, by decide, Nat.lt_succ_of_le ?_⟩
  · exact Nat.zero_lt_succ 3
  · refine (Value.depth_array_le (by decide)).mpr fun v hv => ?_
    rw [List.mem_singleton.mp hv]
    exact Nat.lt_succ_of_le (depth_outputText text)

theorem compact_call (index : Nat) (callId' name args status : String) :
    (callItem index callId' name args status).depth ≤ 4 := by
  refine (Value.depth_ofMembers_le (n := 1) (by decide) ?_).trans (by decide)
  simp only [List.forall_mem_cons, List.not_mem_nil, false_imp_iff, implies_true, and_true]
  exact ⟨Nat.zero_lt_one, Nat.zero_lt_one, Nat.zero_lt_one, Nat.zero_lt_one, Nat.zero_lt_one,
    Nat.zero_lt_one⟩

theorem push_keeps {self : ChunksToResponses} {next : ChunksToResponses × List SseFrame}
    (h : Keeps self next) {item : Value} (hwf : item.WF) (hdepth : item.depth ≤ 4) :
    Keeps self (next.1.push item, next.2) := by
  refine ⟨h.usage, fun hself v hv => ?_, h.quiet⟩
  rcases List.mem_append.mp hv with hv | hv
  · exact h.output hself v hv
  · rw [List.mem_singleton.mp hv]
    exact ⟨hwf, hdepth⟩

theorem closeOpenItem_keeps (self : ChunksToResponses) : Keeps self self.closeOpenItem := by
  have hstart : ∀ (next : ChunksToResponses × List SseFrame) (text : Option String),
      Keeps { self with openItem := none, text := text } next → Keeps self next :=
    fun next text h => ⟨h.usage, h.output, h.quiet⟩
  unfold closeOpenItem
  dsimp only
  split
  · have hitem := @messageItem_wf self.outputIndex "completed" [outputText (self.text.getD "")]
      (by simp [outputText_wf])
    refine hstart _ none (push_keeps (events_keeps _ ?_) hitem (compact_message _ _))
    simp only [List.forall_mem_cons, List.not_mem_nil, false_imp_iff, implies_true, and_true]
    refine ⟨⟨by decide, ?_⟩, by decide, ?_⟩
    · simp [Silent, Value.WF, Value.wf_ofU64]
    · simp [Silent, Value.wf_ofU64, hitem]
  · split
    · next call name args hcall =>
      refine hstart _ self.text (push_keeps (events_keeps _ ?_) (callItem_wf _ call name args _)
        (compact_call _ _ _ _ _))
      simp only [List.forall_mem_cons, List.not_mem_nil, false_imp_iff, implies_true, and_true]
      refine ⟨⟨by decide, ?_⟩, by decide, ?_⟩
      · simp [Silent, Value.WF, Value.wf_ofU64]
      · simp [Silent, Value.wf_ofU64, callItem_wf]
    · exact hstart _ self.text .rfl
  · exact hstart _ self.text .rfl

theorem start_keeps (self : ChunksToResponses) (chunk : Value) : Keeps self (self.start chunk) := by
  unfold start
  split
  · exact .rfl
  · refine ⟨Eq.refl _, id, fun frame hframe => ?_⟩
    rw [List.mem_singleton.mp hframe]
    refine quiet_event (by decide) (Value.wf_ofMembers ?_) ?_
    · simp only [List.cons_append, List.nil_append, List.forall_mem_cons, List.not_mem_nil,
        false_imp_iff, implies_true, and_true]
      exact ⟨Value.wf_ofMembers (by simp [Value.WF, Value.ItemsWF]), trivial, trivial⟩
    · refine usageFromValue_null ?_ ?_ ?_ ?_
      · simp [Value.index_ofMembers]
      · simp [Value.index_ofMembers]
      · simp [Value.index_ofMembers]
      · simp [Value.index_ofMembers]

theorem openMessage_keeps (self : ChunksToResponses) : Keeps self self.openMessage := by
  unfold openMessage
  split
  · exact .rfl
  · refine (closeOpenItem_keeps self).andThen ?_
    have hopen : ∀ next, Keeps { self.closeOpenItem.1 with
        openItem := some .message, text := some "" } next → Keeps self.closeOpenItem.1 next :=
      fun next h => ⟨h.usage, h.output, h.quiet⟩
    refine hopen _ (events_keeps _ ?_)
    simp only [List.forall_mem_cons, List.not_mem_nil, false_imp_iff, implies_true, and_true]
    refine ⟨⟨by decide, ?_⟩, by decide, ?_⟩
    · simp [Silent, Value.wf_ofU64, messageItem_wf]
    · simp [Silent, Value.WF, Value.wf_ofU64, outputText_wf]

theorem onContent_keeps (self : ChunksToResponses) (content : Value) :
    Keeps self (self.onContent content) := by
  unfold onContent
  split
  · next text htext =>
    refine (openMessage_keeps self).andThen ?_
    have htext : ∀ next, Keeps { self.openMessage.1 with
        text := self.openMessage.1.text.map (· ++ text) } next → Keeps self.openMessage.1 next :=
      fun next h => ⟨h.usage, h.output, h.quiet⟩
    exact htext _ (event_keeps _ (by decide) (by simp [Silent, Value.WF, Value.wf_ofU64]))
  · exact .rfl

theorem onName_keeps (self : ChunksToResponses) (call : Value) : Keeps self (self.onName call) := by
  unfold onName
  split
  · next name hname =>
    refine (closeOpenItem_keeps self).andThen ?_
    have hopen : ∀ calls openItem next, Keeps { self.closeOpenItem.1 with
        calls := calls, openItem := openItem } next → Keeps self.closeOpenItem.1 next :=
      fun calls openItem next h => ⟨h.usage, h.output, h.quiet⟩
    exact hopen _ _ _ (event_keeps _ (by decide) (by simp [Silent, Value.wf_ofU64, callItem_wf]))
  · exact .rfl

theorem onArguments_keeps (self : ChunksToResponses) (call : Value) :
    Keeps self (self.onArguments call) := by
  unfold onArguments
  dsimp only
  split
  · have hcalls : ∀ calls next, Keeps { self with calls := calls } next → Keeps self next :=
      fun calls next h => ⟨h.usage, h.output, h.quiet⟩
    exact hcalls _ _ (event_keeps _ (by decide) (by simp [Silent, Value.WF, Value.wf_ofU64]))
  · exact .rfl

theorem onCall_keeps (self : ChunksToResponses) (call : Value) : Keeps self (self.onCall call) :=
  (onName_keeps self call).andThen (onArguments_keeps _ call)

theorem calls_keep : ∀ (calls : List Value) (self : ChunksToResponses),
    Keeps self (emitAll onCall self calls)
  | [], _ => .rfl
  | call :: rest, self => (onCall_keeps self call).append (calls_keep rest _)

/-- What a chunk does to the usage, and to the items. -/
theorem onChunk_usage (self : ChunksToResponses) (chunk : Value) :
    (self.onChunk chunk).1.usage = ((usageOf chunk).map responsesUsage).or self.usage ∧
      (Compact self.output → Compact (self.onChunk chunk).1.output) ∧
      ∀ frame ∈ (self.onChunk chunk).2, Quiet .openAi frame := by
  have hkeeps := ((start_keeps self chunk).append (onContent_keeps _
    (((firstChoice chunk).index "delta").index "content"))).append
      (calls_keep (elements (((firstChoice chunk).index "delta").index "tool_calls")) _)
  exact ⟨congrArg (fun usage => ((usageOf chunk).map responsesUsage).or usage) hkeeps.usage,
    hkeeps.output, hkeeps.quiet⟩

theorem chunks_usage : ∀ {chunks : List Value} (self : ChunksToResponses) (usage : Option Value),
    self.usage = usage.map responsesUsage → Compact self.output →
    (emitAll onChunk self chunks).1.usage =
        (chunks.foldl (fun usage chunk => (usageOf chunk).or usage) usage).map responsesUsage ∧
      Compact (emitAll onChunk self chunks).1.output ∧
      ∀ frame ∈ (emitAll onChunk self chunks).2, Quiet .openAi frame
  | [], _, _, husage, hcompact => ⟨husage, hcompact, fun frame hframe => by cases hframe⟩
  | chunk :: rest, self, usage, husage, hcompact => by
    obtain ⟨hnext, houtput, hquiet⟩ := onChunk_usage self chunk
    have hor : (self.onChunk chunk).1.usage = ((usageOf chunk).or usage).map responsesUsage := by
      rw [hnext, husage]
      cases usageOf chunk <;> rfl
    obtain ⟨hlast, hlastOutput, hrest⟩ := @chunks_usage rest (self.onChunk chunk).1
      ((usageOf chunk).or usage) hor (houtput hcompact)
    refine ⟨hlast, hlastOutput, fun frame hframe => ?_⟩
    rcases List.mem_append.mp hframe with hframe | hframe
    · exact hquiet frame hframe
    · exact hrest frame hframe

theorem responsesUsage_wf {usage : Value} (h : usage.WF) : (responsesUsage usage).WF := by
  refine Value.wf_ofMembers ?_
  simp only [List.forall_mem_cons, List.not_mem_nil, false_imp_iff, implies_true, and_true]
  exact ⟨h.index _, h.index _, h.index _⟩

theorem depth_responsesUsage {chunk : Value} {input output : Nat}
    (h : Reported chunk input output) : (responsesUsage (chunk.index "usage")).depth ≤ 1 := by
  refine Value.depth_ofMembers_le (by decide) ?_
  simp only [List.forall_mem_cons, List.not_mem_nil, false_imp_iff, implies_true, and_true]
  rw [Value.depth_of_asU64 h.input, Value.depth_of_asU64 h.output, h.total]
  exact ⟨Nat.zero_lt_one, Nat.zero_lt_one, Nat.zero_lt_one⟩

/-- The last event, which repeats the usage. -/
def completed (self : ChunksToResponses) : Value :=
  .ofMembers ([("id", .string self.responseId), ("object", .string "response"),
    ("status", .string (if self.finish = some "length" then "incomplete" else "completed")),
    ("model", .string self.model), ("output", .array self.output),
    ("usage", self.usage.getD .null)] ++
    if self.finish = some "length" then [("incomplete_details", incompleteDetails)] else [])

theorem index_completed (self : ChunksToResponses) :
    (completed self).index "usage" = self.usage.getD .null := by
  unfold completed
  split <;> simp [Value.index_ofMembers]

theorem completed_wf {self : ChunksToResponses} (houtput : Compact self.output)
    (husage : (self.usage.getD .null).WF) : (completed self).WF := by
  refine Value.wf_ofMembers fun m hm => ?_
  rcases List.mem_append.mp hm with hfirst | hlast
  · clear hm
    revert m
    simp only [List.forall_mem_cons, List.not_mem_nil, false_imp_iff, implies_true, and_true]
    exact ⟨trivial, trivial, trivial, trivial, Value.wf_array fun v hv => (houtput v hv).1, husage⟩
  · split at hlast
    · rw [List.mem_singleton.mp hlast]
      exact Value.wf_ofMembers (by simp [Value.WF])
    · cases hlast

theorem depth_completed {self : ChunksToResponses} (houtput : Compact self.output)
    (husage : (self.usage.getD .null).depth ≤ 1) : (completed self).depth ≤ 6 := by
  refine Value.depth_ofMembers_le (by decide) fun m hm => ?_
  rcases List.mem_append.mp hm with hfirst | hlast
  · clear hm
    revert m
    simp only [List.forall_mem_cons, List.not_mem_nil, false_imp_iff, implies_true, and_true]
    refine ⟨Nat.zero_lt_succ 5, Nat.zero_lt_succ 5, Nat.zero_lt_succ 5, Nat.zero_lt_succ 5, ?_, by omega⟩
    refine Nat.lt_succ_of_le ((Value.depth_array_le (by decide)).mpr fun v hv => ?_)
    exact Nat.lt_succ_of_le (houtput v hv).2
  · split at hlast
    · rw [List.mem_singleton.mp hlast]
      show incompleteDetails.depth < 6
      refine lt_of_le_of_lt (Value.depth_ofMembers_le (n := 1) (by decide) ?_) (by decide)
      simp only [List.forall_mem_cons, List.not_mem_nil, false_imp_iff, implies_true, and_true]
      exact Nat.zero_lt_one
    · cases hlast

/-- The event that repeats a report. -/
theorem completed_usage {self : ChunksToResponses} {chunk : Value} {input output : Nat}
    (hchunk : chunk.WF) (h : Reported chunk input output)
    (husage : self.usage = some (responsesUsage (chunk.index "usage")))
    (houtput : Compact self.output) :
    ∀ frame ∈ (self.event "response.completed" [("response", completed self)]).2,
      WellFormed frame ∧ frameUsage .openAi frame = ⟨input, output, 0⟩ := by
  intro frame hframe
  rw [List.mem_singleton.mp hframe]
  have hget : self.usage.getD .null = responsesUsage (chunk.index "usage") := by
    rw [husage]
    rfl
  have hwf := completed_wf houtput (hget ▸ responsesUsage_wf (hchunk.index "usage"))
  have hdepth := depth_completed houtput (hget ▸ depth_responsesUsage h)
  refine ⟨⟨oneLine_ascii (by decide), Value.wf_ofMembers ?_⟩, ?_⟩
  · simp only [List.cons_append, List.nil_append, List.forall_mem_cons, List.not_mem_nil,
      false_imp_iff, implies_true, and_true]
    exact ⟨hwf, trivial, trivial⟩
  · show scanned .openAi _ = _
    unfold scanned
    rw [if_pos]
    · have hinput : u ((responsesUsage (chunk.index "usage")).index "input_tokens") = input := by
        simp [responsesUsage, Value.index_ofMembers, u, h.input]
      have houtput : u ((responsesUsage (chunk.index "usage")).index "output_tokens") = output := by
        simp [responsesUsage, Value.index_ofMembers, u, h.output]
      have hnull : ∀ k, k ≠ "input_tokens" → k ≠ "output_tokens" → k ≠ "total_tokens" →
          (responsesUsage (chunk.index "usage")).index k = .null := by
        intro k h1 h2 h3
        simp [responsesUsage, Value.index_ofMembers, h1, h2, h3]
      have husage : ∀ members : List (String × Value),
          (Value.ofMembers ([("response", completed self)] ++ members)).index "usage" = .null →
          (Value.ofMembers ([("response", completed self)] ++ members)).index "response" =
            completed self →
          usageFromValue .openAi (.ofMembers ([("response", completed self)] ++ members)) =
            ⟨input, output, 0⟩ := by
        intro members hnone hresponse
        unfold usageFromValue
        simp only [hnone, hresponse, Value.isObject, index_completed, hget, hinput, houtput,
          hnull "prompt_tokens" (by decide) (by decide) (by decide),
          hnull "completion_tokens" (by decide) (by decide) (by decide),
          hnull "prompt_tokens_details" (by decide) (by decide) (by decide),
          hnull "input_tokens_details" (by decide) (by decide) (by decide), u_null,
          Value.index_null, Nat.zero_max, Bool.false_eq_true, if_false]
      exact husage _ (by simp [Value.index_ofMembers]) (by simp [Value.index_ofMembers])
    · refine lt_of_le_of_lt (Value.depth_ofMembers_le (n := 7) (by decide) ?_) (by decide)
      simp only [List.cons_append, List.nil_append, List.forall_mem_cons, List.not_mem_nil,
        false_imp_iff, implies_true, and_true]
      exact ⟨Nat.lt_succ_of_le hdepth, Nat.zero_lt_succ 6, Nat.zero_lt_succ 6⟩

end Responses

theorem responses_scanned {before after : List Value} {report : Value} {input output : Nat}
    (h : Reporting before report after input output) :
    extractStream .openAi (renderedStream .responses (before ++ report :: after)) =
      ⟨input, output, 0⟩ := by
  have hemit := @emitAll_wrap _ _ _ InboundStream.onChunk _ ChunksToResponses.onChunk
    InboundStream.responses (fun _ _ => rfl) .new (before ++ report :: after)
  obtain ⟨husage, hcompact, hquiet⟩ := @Responses.chunks_usage (before ++ report :: after) .new none rfl
    (fun item hitem => by cases hitem)
  generalize emitAll ChunksToResponses.onChunk .new (before ++ report :: after) = last
    at hemit husage hcompact hquiet
  have hframes : renderedFrames .responses (before ++ report :: after) =
      last.2 ++ last.1.finishFrames := by
    unfold renderedFrames
    show (emitAll InboundStream.onChunk (.responses .new) _).2 ++
      (emitAll InboundStream.onChunk (.responses .new) _).1.finishFrames = _
    rw [hemit]
    rfl
  have hclosed := Responses.closeOpenItem_keeps last.1
  have hreport : last.1.closeOpenItem.1.usage = some (responsesUsage (report.index "usage")) := by
    have hlatest := h.latest
    unfold latest at hlatest
    rw [hclosed.usage, husage, hlatest]
    rfl
  have hcompleted := Responses.completed_usage (h.chunks report (by simp)).wf h.report hreport
    (hclosed.output hcompact)
  have hfinish : last.1.finishFrames = last.1.closeOpenItem.2 ++ (last.1.closeOpenItem.1.event
    "response.completed" [("response", Responses.completed last.1.closeOpenItem.1)]).2 := rfl
  have hall : ∀ frame ∈ last.2 ++ last.1.finishFrames, WellFormed frame ∧
      (frameUsage .openAi frame = .zero ∨ frameUsage .openAi frame = ⟨input, output, 0⟩) := by
    intro frame hframe
    have hzero : Quiet .openAi frame → WellFormed frame ∧ (frameUsage .openAi frame = .zero ∨
        frameUsage .openAi frame = ⟨input, output, 0⟩) := fun hq => ⟨hq.1, Or.inl hq.2⟩
    rw [hfinish] at hframe
    rcases List.mem_append.mp hframe with hframe | hframe
    · exact hzero (hquiet frame hframe)
    · rcases List.mem_append.mp hframe with hframe | hframe
      · exact hzero (hclosed.quiet frame hframe)
      · exact ⟨(hcompleted frame hframe).1, Or.inr (hcompleted frame hframe).2⟩
  unfold renderedStream
  rw [hframes]
  refine extractStream_of_only (fun frame hframe => (hall frame hframe).1)
    (fun frame hframe => (hall frame hframe).2)
    (Or.inr ⟨_, ?_, (hcompleted _ (List.mem_singleton.mpr rfl)).2⟩)
  rw [hfinish]
  exact List.mem_append_right _ (List.mem_append_right _ (List.mem_singleton.mpr rfl))

end RapidRouter.Usage
