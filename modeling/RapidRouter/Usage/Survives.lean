import RapidRouter.Usage.Rendered

/-!
# Which reports survive rendering

Gemini's stream, and the result for all of them (`usage_survives_iff`).
Gemini's renderer holds a tool call back until its arguments are complete,
and writes it once, with the chunk that completes it. The usage comes with
the finishing chunk or not at all, and is lost there too when a call written
in the same frame nests deeper than the scanner's reader follows.
-/

namespace RapidRouter.Usage

open Json Providers Emit

/-! ## Gemini -/

namespace Gemini

open OpenAiToGeminiStream

/-- The tool calls of some chunks, in order. -/
def callsIn (chunks : List Value) : List Value :=
  chunks.flatMap fun chunk => elements (((firstChoice chunk).index "delta").index "tool_calls")

/-- What a piece of a call adds to its name and arguments. -/
def extend (entry : String × String) (call : Value) : String × String :=
  ((((call.index "function").index "name").asStr).getD entry.1,
    entry.2 ++ (((call.index "function").index "arguments").asStr).getD "")

/-- The name and the arguments the pieces of one call make. -/
def entryOf (i : Nat) (calls : List Value) : String × String :=
  (calls.filter fun call => toolIndex call = i).foldl extend ("", "")

/-- The call has a name, and its arguments are complete. -/
def Completes (i : Nat) (calls : List Value) (args : Value) : Prop :=
  (entryOf i calls).1 ≠ "" ∧ parsed (entryOf i calls).2 = some args

/-- The call is complete at some point. -/
def Written (i : Nat) (chunks : List Value) : Prop :=
  ∃ earlier, earlier <+: chunks ∧ ∃ args, Completes i (callsIn earlier) args

/-- The renderer's state after some chunks. -/
structure Follows (s : OpenAiToGeminiStream) (chunks : List Value) : Prop where
  pending : ∀ i, (s.pending.get? i).getD ("", "") = entryOf i (callsIn chunks)
  emitted : ∀ i, i ∈ s.emitted ↔ Written i chunks

theorem get?_foldl_buffer (i : Nat) : ∀ (calls : List Value) (pending : OrdMap Nat (String × String)),
    ((calls.foldl buffer pending).get? i).getD ("", "") =
      (calls.filter fun call => toolIndex call = i).foldl extend ((pending.get? i).getD ("", ""))
  | [], _ => rfl
  | call :: rest, pending => by
    rw [List.foldl_cons, get?_foldl_buffer i rest, List.filter_cons]
    unfold buffer
    dsimp only
    rw [OrdMap.get?_insert]
    by_cases hi : i = toolIndex call
    · subst hi
      rw [if_pos rfl, if_pos (decide_eq_true rfl)]
      rfl
    · rw [if_neg hi, if_neg (by simpa using fun h : toolIndex call = i => hi h.symm)]

theorem entryOf_concat (i : Nat) (chunks : List Value) (chunk : Value) :
    entryOf i (callsIn (chunks ++ [chunk])) =
      ((callsIn [chunk]).filter fun call => toolIndex call = i).foldl extend
        (entryOf i (callsIn chunks)) := by
  unfold entryOf callsIn
  rw [List.flatMap_append, List.filter_append, List.foldl_append]

/-! ### What is flushed -/

/-- An entry that is complete. -/
def Ready (entry : Nat × String × String) (args : Value) : Prop :=
  entry.2.1 ≠ "" ∧ parsed entry.2.2 = some args

theorem flushCall_cases (emitted : Finset Nat) (entry : Nat × String × String) :
    (∃ args, Ready entry args ∧ entry.1 ∉ emitted ∧
      flushCall emitted entry = (insert entry.1 emitted, [callPart entry.2.1 args])) ∨
    ((entry.1 ∈ emitted ∨ ∀ args, ¬ Ready entry args) ∧ flushCall emitted entry = (emitted, [])) := by
  obtain ⟨i, name, args⟩ := entry
  unfold flushCall
  dsimp only
  by_cases hskip : i ∈ emitted ∨ name = ""
  · rw [if_pos hskip]
    refine Or.inr ⟨hskip.imp_right fun hname v hready => hready.1 hname, rfl⟩
  · rw [if_neg hskip]
    rw [not_or] at hskip
    cases hparsed : parsed args with
    | some v => exact Or.inl ⟨v, ⟨hskip.2, hparsed⟩, hskip.1, rfl⟩
    | none =>
      refine Or.inr ⟨Or.inr fun v hready => ?_, rfl⟩
      have := hparsed.symm.trans hready.2
      cases this

/-- The entries flushed: those complete and not written before. -/
theorem flush_spec : ∀ {entries : List (Nat × String × String)} (emitted : Finset Nat),
    (entries.map Prod.fst).Nodup →
    (∀ i, i ∈ (emitAll flushCall emitted entries).1 ↔
      i ∈ emitted ∨ ∃ entry ∈ entries, entry.1 = i ∧ ∃ args, Ready entry args) ∧
    ∀ part, part ∈ (emitAll flushCall emitted entries).2 ↔
      ∃ entry ∈ entries, entry.1 ∉ emitted ∧ ∃ args, Ready entry args ∧
        part = callPart entry.2.1 args
  | [], emitted, _ => by simp [emitAll]
  | entry :: rest, emitted, hnodup => by
    rw [List.map_cons, List.nodup_cons] at hnodup
    obtain ⟨hfresh, hrest⟩ := hnodup
    obtain ⟨hmem, hparts⟩ := flush_spec (flushCall emitted entry).1 hrest
    have hother : ∀ e ∈ rest, e.1 ≠ entry.1 := fun e he heq =>
      hfresh (heq ▸ List.mem_map_of_mem he)
    have hstep : emitAll flushCall emitted (entry :: rest) =
        ((emitAll flushCall (flushCall emitted entry).1 rest).1,
          (flushCall emitted entry).2 ++ (emitAll flushCall (flushCall emitted entry).1 rest).2) := rfl
    rcases flushCall_cases emitted entry with ⟨args, hready, hnot, heq⟩ | ⟨hskip, heq⟩
    · rw [heq] at hmem hparts
      rw [hstep, heq]
      constructor
      · intro i
        rw [hmem i, Finset.mem_insert, List.exists_mem_cons_iff]
        constructor
        · rintro ((rfl | hi) | hi)
          · exact Or.inr (Or.inl ⟨rfl, args, hready⟩)
          · exact Or.inl hi
          · exact Or.inr (Or.inr hi)
        · rintro (hi | ⟨rfl, _⟩ | hi)
          · exact Or.inl (Or.inr hi)
          · exact Or.inl (Or.inl rfl)
          · exact Or.inr hi
      · intro part
        rw [List.mem_append, List.mem_singleton, hparts part, List.exists_mem_cons_iff]
        constructor
        · rintro (rfl | ⟨e, he, hnew, hpart⟩)
          · exact Or.inl ⟨hnot, args, hready, rfl⟩
          · exact Or.inr ⟨e, he, fun hi => hnew (Finset.mem_insert_of_mem hi), hpart⟩
        · rintro (⟨_, args', hready', rfl⟩ | ⟨e, he, hnew, hpart⟩)
          · have hsame := hready.2.symm.trans hready'.2
            cases hsame
            exact Or.inl rfl
          · refine Or.inr ⟨e, he, fun hi => ?_, hpart⟩
            rcases Finset.mem_insert.mp hi with hi | hi
            · exact hother e he hi
            · exact hnew hi
    · rw [heq] at hmem hparts
      rw [hstep, heq]
      constructor
      · intro i
        rw [hmem i, List.exists_mem_cons_iff]
        constructor
        · exact fun hi => hi.imp_right Or.inr
        · rintro (hi | ⟨rfl, args, hready⟩ | hi)
          · exact Or.inl hi
          · rcases hskip with hin | hnone
            · exact Or.inl hin
            · exact absurd hready (hnone args)
          · exact Or.inr hi
      · intro part
        rw [List.nil_append, hparts part, List.exists_mem_cons_iff]
        refine (or_iff_right ?_).symm
        rintro ⟨hnew, args, hready, _⟩
        rcases hskip with hin | hnone
        · exact hnew hin
        · exact hnone args hready

/-! ### One chunk -/

def buffered (s : OpenAiToGeminiStream) (chunk : Value) : OpenAiToGeminiStream :=
  { s with pending :=
      (elements (((firstChoice chunk).index "delta").index "tool_calls")).foldl buffer s.pending }

def finishOf (chunk : Value) : Option String :=
  ((firstChoice chunk).index "finish_reason").asStr.map geminiFinish

def partsOf (s : OpenAiToGeminiStream) (chunk : Value) : List Value :=
  ((nonEmptyStr (((firstChoice chunk).index "delta").index "content")).toList.map fun text =>
    Value.ofMembers [("text", .string text)]) ++ (buffered s chunk).flushCompleteCalls.2

theorem onChunk_eq (s : OpenAiToGeminiStream) (chunk : Value) :
    s.onChunk chunk = ((buffered s chunk).flushCompleteCalls.1,
      if (partsOf s chunk).isEmpty && (finishOf chunk).isNone then []
      else [.data (streamChunk (partsOf s chunk) chunk (finishOf chunk))]) := by
  show (if (partsOf s chunk).isEmpty && (finishOf chunk).isNone then
      ((buffered s chunk).flushCompleteCalls.1, [])
    else ((buffered s chunk).flushCompleteCalls.1,
      [SseFrame.data (streamChunk (partsOf s chunk) chunk (finishOf chunk))])) = _
  split <;> rfl

theorem buffered_pending {s : OpenAiToGeminiStream} {chunks : List Value} (h : Follows s chunks)
    (chunk : Value) (i : Nat) :
    ((buffered s chunk).pending.get? i).getD ("", "") = entryOf i (callsIn (chunks ++ [chunk])) := by
  rw [entryOf_concat, ← h.pending i]
  show (((elements _).foldl buffer s.pending).get? i).getD ("", "") = _
  rw [get?_foldl_buffer]
  unfold callsIn
  rw [List.flatMap_cons, List.flatMap_nil, List.append_nil]

theorem ready_iff_completes {s : OpenAiToGeminiStream} {chunks : List Value} (h : Follows s chunks)
    (chunk : Value) (i : Nat) (args : Value) :
    (∃ entry ∈ (buffered s chunk).pending.entries, entry.1 = i ∧ Ready entry args) ↔
      Completes i (callsIn (chunks ++ [chunk])) args := by
  have hpending := buffered_pending h chunk i
  unfold Completes
  constructor
  · rintro ⟨⟨j, name, text⟩, hmem, rfl, hready⟩
    rw [OrdMap.mem_entries.mp hmem] at hpending
    rw [← hpending]
    exact hready
  · intro hcomplete
    cases hget : (buffered s chunk).pending.get? i with
    | none =>
      rw [hget] at hpending
      rw [← hpending] at hcomplete
      exact absurd rfl hcomplete.1
    | some entry =>
      rw [hget] at hpending
      rw [← hpending] at hcomplete
      exact ⟨(i, entry), OrdMap.mem_entries.mpr hget, rfl, hcomplete⟩

theorem written_concat (i : Nat) (chunks : List Value) (chunk : Value) :
    Written i (chunks ++ [chunk]) ↔
      Written i chunks ∨ ∃ args, Completes i (callsIn (chunks ++ [chunk])) args := by
  unfold Written
  constructor
  · rintro ⟨earlier, hprefix, hcomplete⟩
    rcases List.prefix_concat_iff.mp hprefix with rfl | hprefix
    · exact Or.inr hcomplete
    · exact Or.inl ⟨earlier, hprefix, hcomplete⟩
  · rintro (⟨earlier, hprefix, hcomplete⟩ | hcomplete)
    · exact ⟨earlier, hprefix.trans (List.prefix_append _ _), hcomplete⟩
    · exact ⟨_, List.prefix_rfl, hcomplete⟩

theorem onChunk_follows {s : OpenAiToGeminiStream} {chunks : List Value} (h : Follows s chunks)
    (chunk : Value) : Follows (s.onChunk chunk).1 (chunks ++ [chunk]) := by
  rw [onChunk_eq]
  refine ⟨buffered_pending h chunk, fun i => ?_⟩
  show i ∈ (emitAll flushCall s.emitted (buffered s chunk).pending.entries).1 ↔ _
  rw [(flush_spec s.emitted (buffered s chunk).pending.nodup_keys).1 i, h.emitted, written_concat]
  refine or_congr_right ?_
  constructor
  · rintro ⟨entry, hmem, hi, args, hready⟩
    exact ⟨args, (ready_iff_completes h chunk i args).mp ⟨entry, hmem, hi, hready⟩⟩
  · rintro ⟨args, hcomplete⟩
    obtain ⟨entry, hmem, hi, hready⟩ := (ready_iff_completes h chunk i args).mpr hcomplete
    exact ⟨entry, hmem, hi, args, hready⟩

theorem emitAll_follows : ∀ (chunks : List Value) {s : OpenAiToGeminiStream} {before : List Value},
    Follows s before → Follows (emitAll onChunk s chunks).1 (before ++ chunks)
  | [], s, before, h => by
    rw [List.append_nil]
    exact h
  | chunk :: rest, s, before, h => by
    have hrest := emitAll_follows rest (onChunk_follows h chunk)
    rw [List.append_assoc] at hrest
    exact hrest

theorem new_follows : Follows .new [] := by
  refine ⟨fun i => rfl, fun i => ⟨fun hi => (by cases hi), ?_⟩⟩
  rintro ⟨earlier, hprefix, args, hcomplete⟩
  rw [List.prefix_nil.mp hprefix] at hcomplete
  exact absurd rfl hcomplete.1

/-- The calls written with a chunk are those it completes. -/
theorem mem_partsOf {s : OpenAiToGeminiStream} {chunks : List Value} (h : Follows s chunks)
    {chunk part : Value} (hpart : part ∈ partsOf s chunk) :
    (∃ text, part = .ofMembers [("text", .string text)]) ∨
      ∃ i name args, ¬ Written i chunks ∧ Completes i (callsIn (chunks ++ [chunk])) args ∧
        part = callPart name args := by
  rcases List.mem_append.mp hpart with hpart | hpart
  · obtain ⟨text, _, rfl⟩ := List.mem_map.mp hpart
    exact Or.inl ⟨text, rfl⟩
  · obtain ⟨entry, hmem, hnew, args, hready, rfl⟩ :=
      ((flush_spec s.emitted (buffered s chunk).pending.nodup_keys).2 part).mp hpart
    exact Or.inr ⟨entry.1, entry.2.1, args, fun hwritten => hnew ((h.emitted _).mpr hwritten),
      (ready_iff_completes h chunk entry.1 args).mp ⟨entry, hmem, rfl, hready⟩, rfl⟩

theorem callPart_mem {s : OpenAiToGeminiStream} {chunks : List Value} (h : Follows s chunks)
    {chunk : Value} {i : Nat} {args : Value} (hnew : ¬ Written i chunks)
    (hcomplete : Completes i (callsIn (chunks ++ [chunk])) args) :
    ∃ name, callPart name args ∈ partsOf s chunk := by
  obtain ⟨entry, hmem, rfl, hready⟩ := (ready_iff_completes h chunk i args).mpr hcomplete
  refine ⟨entry.2.1, List.mem_append_right _ ?_⟩
  refine ((flush_spec s.emitted (buffered s chunk).pending.nodup_keys).2 _).mpr ?_
  exact ⟨entry, hmem, fun hi => hnew ((h.emitted _).mp hi), args, hready, rfl⟩

/-! ### One frame -/

theorem completes_wf {i : Nat} {calls : List Value} {args : Value} (h : Completes i calls args) :
    args.WF := by
  have hparsed := h.2
  unfold parsed at hparsed
  split at hparsed
  · cases hparsed
  · obtain ⟨raw, _, hraw⟩ := Option.bind_eq_some_iff.mp hparsed
    exact Raw.toValue_wf hraw

theorem partsOf_wf {s : OpenAiToGeminiStream} {chunks : List Value} (h : Follows s chunks)
    (chunk : Value) : ∀ part ∈ partsOf s chunk, part.WF := by
  intro part hpart
  rcases mem_partsOf h hpart with ⟨text, rfl⟩ | ⟨i, name, args, _, hcomplete, rfl⟩
  · exact Value.wf_ofMembers (by simp [Value.WF])
  · refine Value.wf_ofMembers ?_
    simp only [List.forall_mem_cons, List.not_mem_nil, false_imp_iff, implies_true, and_true]
    refine Value.wf_ofMembers ?_
    simp only [List.forall_mem_cons, List.not_mem_nil, false_imp_iff, implies_true, and_true]
    exact ⟨trivial, completes_wf hcomplete⟩

theorem usageMetadata_wf {usage : Value} (h : usage.WF) : (usageMetadata usage).WF := by
  refine Value.wf_ofMembers ?_
  simp only [List.forall_mem_cons, List.not_mem_nil, false_imp_iff, implies_true, and_true]
  exact ⟨h.index _, h.index _, h.index _⟩

theorem streamChunk_wf {parts : List Value} {chunk : Value} (hparts : ∀ part ∈ parts, part.WF)
    (hchunk : chunk.WF) (finish : Option String) : (streamChunk parts chunk finish).WF := by
  have hcandidate : (Value.ofMembers ([
      ("content", .ofMembers [("role", .string "model"), ("parts", .array parts)]),
      ("index", .ofU64 0)] ++
        finish.toList.map fun finish => ("finishReason", .string finish))).WF := by
    refine Value.wf_ofMembers fun m hm => ?_
    rcases List.mem_append.mp hm with hfirst | hlast
    · clear hm
      revert m
      simp only [List.forall_mem_cons, List.not_mem_nil, false_imp_iff, implies_true, and_true]
      refine ⟨Value.wf_ofMembers ?_, trivial⟩
      simp only [List.forall_mem_cons, List.not_mem_nil, false_imp_iff, implies_true, and_true]
      exact ⟨trivial, Value.wf_array hparts⟩
    · obtain ⟨reason, _, rfl⟩ := List.mem_map.mp hlast
      trivial
  refine Value.wf_ofMembers fun m hm => ?_
  rcases List.mem_append.mp hm with hfirst | hlast
  · clear hm
    revert m
    simp only [List.forall_mem_cons, List.not_mem_nil, false_imp_iff, implies_true, and_true]
    refine ⟨Value.wf_array fun v hv => ?_, hchunk.index _⟩
    rw [List.mem_singleton.mp hv]
    exact hcandidate
  · obtain ⟨usage, husage, rfl⟩ := List.mem_map.mp hlast
    have hsome : usageOf chunk = some usage := by
      split at husage
      · exact Option.mem_toList.mp husage
      · cases husage
    exact usageMetadata_wf (hchunk.get? (Option.filter_eq_some_iff.mp hsome).1)

/-- A frame says what usage it has with its finish. -/
theorem index_streamChunk (parts : List Value) (chunk : Value) (finish : Option String) :
    (streamChunk parts chunk finish).index "usageMetadata" =
      ((if finish.isSome then usageOf chunk else none).map usageMetadata).getD .null := by
  unfold streamChunk
  dsimp only
  cases (if finish.isSome then usageOf chunk else none) <;> simp [Value.index_ofMembers]

theorem streamChunk_zero {parts : List Value} {chunk : Value} {finish : Option String}
    (h : finish = none ∨ usageOf chunk = none) :
    usageFromValue .gemini (streamChunk parts chunk finish) = .zero := by
  have hnone : (if finish.isSome then usageOf chunk else none) = none := by
    rcases h with rfl | h
    · rfl
    · rw [h, ite_self]
  unfold usageFromValue
  simp only [index_streamChunk, hnone]
  rfl

theorem streamChunk_usage {parts : List Value} {chunk : Value} {input output : Nat} {finish : String}
    (h : Reported chunk input output) :
    usageFromValue .gemini (streamChunk parts chunk (some finish)) = ⟨input, output, 0⟩ := by
  unfold usageFromValue
  simp only [index_streamChunk, h.usageOf]
  simp [usageMetadata, Value.index_ofMembers, u, h.input, h.output]

/-! ### How deep a frame is -/

/-- The frame a call is written in nests seven deeper than its arguments. -/
theorem depth_streamChunk_lt {parts : List Value} {name : String} {args : Value}
    (h : callPart name args ∈ parts) (chunk : Value) (finish : Option String) :
    args.depth + 7 ≤ (streamChunk parts chunk finish).depth := by
  have hargs : args.depth + 2 ≤ (callPart name args).depth := by
    have hinner := @Value.depth_lt_of_get? (.ofMembers [("name", .string name), ("args", args)]) args
      "args" (by simp [Value.get?_ofMembers])
    have houter := @Value.depth_lt_of_get? (callPart name args)
      (.ofMembers [("name", .string name), ("args", args)]) "functionCall"
      (by simp [callPart, Value.get?_ofMembers])
    omega
  have hparts := Value.depth_lt_of_mem h
  have hcontent := @Value.depth_lt_of_get?
    (.ofMembers [("role", .string "model"), ("parts", .array parts)]) (.array parts) "parts"
    (by simp [Value.get?_ofMembers])
  have hcandidate := @Value.depth_lt_of_get? (.ofMembers ([
      ("content", .ofMembers [("role", .string "model"), ("parts", .array parts)]),
      ("index", .ofU64 0)] ++
        finish.toList.map fun finish => ("finishReason", .string finish)))
    (.ofMembers [("role", .string "model"), ("parts", .array parts)]) "content"
    (by cases finish <;> simp [Value.get?_ofMembers])
  have harray := Value.depth_lt_of_mem (List.mem_singleton.mpr (Eq.refl (Value.ofMembers ([
      ("content", .ofMembers [("role", .string "model"), ("parts", .array parts)]),
      ("index", .ofU64 0)] ++
        finish.toList.map fun finish => ("finishReason", .string finish)))))
  have htop := @Value.depth_lt_of_get? (streamChunk parts chunk finish) (.array [.ofMembers ([
      ("content", .ofMembers [("role", .string "model"), ("parts", .array parts)]),
      ("index", .ofU64 0)] ++
        finish.toList.map fun finish => ("finishReason", .string finish))]) "candidates" (by
    unfold streamChunk
    dsimp only
    cases (if finish.isSome then usageOf chunk else none) <;> simp [Value.get?_ofMembers])
  omega

theorem depth_streamChunk_le {parts : List Value} {chunk : Value} {finish : Option String}
    (hparts : ∀ part ∈ parts, part.depth ≤ 122) (hchunk : chunk.depth < depthLimit)
    {input output : Nat} (hreport : Reported chunk input output) :
    (streamChunk parts chunk finish).depth < depthLimit := by
  have hcontent : (Value.ofMembers [("role", .string "model"), ("parts", .array parts)]).depth ≤ 124 := by
    refine Value.depth_ofMembers_le (by decide) ?_
    simp only [List.forall_mem_cons, List.not_mem_nil, false_imp_iff, implies_true, and_true]
    refine ⟨Nat.zero_lt_succ 123, Nat.lt_succ_of_le ?_⟩
    exact (Value.depth_array_le (by decide)).mpr fun part hpart => Nat.lt_succ_of_le (hparts part hpart)
  have hcandidate : (Value.ofMembers ([
      ("content", .ofMembers [("role", .string "model"), ("parts", .array parts)]),
      ("index", .ofU64 0)] ++
        finish.toList.map fun finish => ("finishReason", .string finish))).depth ≤ 125 := by
    refine Value.depth_ofMembers_le (by decide) fun m hm => ?_
    rcases List.mem_append.mp hm with hfirst | hlast
    · clear hm
      revert m
      simp only [List.forall_mem_cons, List.not_mem_nil, false_imp_iff, implies_true, and_true]
      exact ⟨Nat.lt_succ_of_le hcontent, Nat.zero_lt_succ 124⟩
    · obtain ⟨reason, _, rfl⟩ := List.mem_map.mp hlast
      exact Nat.zero_lt_succ 124
  have hmodel : (chunk.index "model").depth ≤ 126 := by
    unfold Value.index
    cases hget : chunk.get? "model" with
    | none => exact Nat.zero_le 126
    | some model =>
      have hlt := Value.depth_lt_of_get? hget
      unfold depthLimit at hchunk
      show model.depth ≤ 126
      omega
  refine Nat.lt_succ_of_le (Value.depth_ofMembers_le (n := 127) (by decide) fun m hm => ?_)
  rcases List.mem_append.mp hm with hfirst | hlast
  · clear hm
    revert m
    simp only [List.forall_mem_cons, List.not_mem_nil, false_imp_iff, implies_true, and_true]
    refine ⟨Nat.lt_succ_of_le ((Value.depth_array_le (by decide)).mpr fun v hv => ?_),
      Nat.lt_succ_of_le hmodel⟩
    rw [List.mem_singleton.mp hv]
    exact Nat.lt_succ_of_le hcandidate
  · obtain ⟨usage, husage, rfl⟩ := List.mem_map.mp hlast
    have hsame : usage = chunk.index "usage" := by
      split at husage
      · have hsome := (Option.mem_toList.mp husage).symm.trans hreport.usageOf
        exact Option.some.inj hsome
      · cases husage
    subst hsame
    have husage : (usageMetadata (chunk.index "usage")).depth ≤ 1 := by
      refine Value.depth_ofMembers_le (by decide) ?_
      simp only [List.forall_mem_cons, List.not_mem_nil, false_imp_iff, implies_true, and_true]
      rw [Value.depth_of_asU64 hreport.input, Value.depth_of_asU64 hreport.output, hreport.total]
      exact ⟨Nat.zero_lt_one, Nat.zero_lt_one, Nat.zero_lt_one⟩
    exact lt_of_le_of_lt husage (by decide)

/-- Calls the chunk completes, and no earlier one did, do not nest more than
120 deep. -/
def Shallow (before : List Value) (report : Value) : Prop :=
  ∀ i args, Completes i (callsIn (before ++ [report])) args → Written i before ∨ args.depth ≤ 120

theorem depth_callPart_le {name : String} {args : Value} (h : args.depth ≤ 120) :
    (callPart name args).depth ≤ 122 := by
  refine Value.depth_ofMembers_le (by decide) ?_
  simp only [List.forall_mem_cons, List.not_mem_nil, false_imp_iff, implies_true, and_true]
  refine Nat.lt_succ_of_le (Value.depth_ofMembers_le (by decide) ?_)
  simp only [List.forall_mem_cons, List.not_mem_nil, false_imp_iff, implies_true, and_true]
  exact ⟨Nat.zero_lt_succ 120, Nat.lt_succ_of_le h⟩

/-- The frame of a report is read back just when its calls are shallow. -/
theorem depth_report_iff {s : OpenAiToGeminiStream} {before : List Value} (h : Follows s before)
    {report : Value} (hreport : IsChunk report) {input output : Nat}
    (hcounts : Reported report input output) (finish : Option String) :
    (streamChunk (partsOf s report) report finish).depth < depthLimit ↔ Shallow before report := by
  constructor
  · intro hdepth i args hcomplete
    by_cases hwritten : Written i before
    · exact Or.inl hwritten
    · obtain ⟨name, hmem⟩ := callPart_mem h hwritten hcomplete
      have hle := depth_streamChunk_lt hmem report finish
      unfold depthLimit at hdepth
      exact Or.inr (by omega)
  · intro hshallow
    refine depth_streamChunk_le (fun part hpart => ?_) hreport.depth hcounts
    rcases mem_partsOf h hpart with ⟨text, rfl⟩ | ⟨i, name, args, hnew, hcomplete, rfl⟩
    · refine (Value.depth_ofMembers_le (n := 1) (by decide) ?_).trans (by decide)
      simp only [List.forall_mem_cons, List.not_mem_nil, false_imp_iff, implies_true, and_true]
      exact Nat.zero_lt_one
    · exact depth_callPart_le ((hshallow i args hcomplete).resolve_left hnew)

/-! ### The whole stream -/

theorem onChunk_quiet {s : OpenAiToGeminiStream} {before : List Value} (h : Follows s before)
    {chunk : Value} (hchunk : chunk.WF) (hnone : finishOf chunk = none ∨ usageOf chunk = none) :
    ∀ frame ∈ (s.onChunk chunk).2, Quiet .gemini frame := by
  intro frame hframe
  rw [onChunk_eq] at hframe
  dsimp only at hframe
  split at hframe
  · cases hframe
  · rw [List.mem_singleton.mp hframe]
    exact ⟨streamChunk_wf (partsOf_wf h chunk) hchunk _, scanned_zero (streamChunk_zero hnone)⟩

theorem emitAll_quiet : ∀ {chunks : List Value} {s : OpenAiToGeminiStream} {before : List Value},
    Follows s before → (∀ chunk ∈ chunks, IsChunk chunk) → (∀ chunk ∈ chunks, NoReport chunk) →
    ∀ frame ∈ (emitAll onChunk s chunks).2, Quiet .gemini frame
  | [], _, _, _, _, _ => fun frame hframe => by cases hframe
  | chunk :: rest, s, before, h, hchunks, hnone => by
    intro frame hframe
    rcases List.mem_append.mp hframe with hframe | hframe
    · exact onChunk_quiet h (hchunks chunk List.mem_cons_self).wf
        (Or.inr (usageOf_noReport (hnone chunk List.mem_cons_self))) frame hframe
    · exact emitAll_quiet (onChunk_follows h chunk)
        (fun c hc => hchunks c (List.mem_cons_of_mem _ hc))
        (fun c hc => hnone c (List.mem_cons_of_mem _ hc)) frame hframe

end Gemini

/-- The chunk has the finish reason. -/
def Finishes (chunk : Value) : Prop := ((firstChoice chunk).index "finish_reason").asStr.isSome

theorem gemini_scanned {before after : List Value} {report : Value} {input output : Nat}
    (h : Reporting before report after input output) :
    (Finishes report ∧ Gemini.Shallow before report →
      extractStream .gemini (renderedStream (.dialect .gemini) (before ++ report :: after)) =
        ⟨input, output, 0⟩) ∧
    (¬ (Finishes report ∧ Gemini.Shallow before report) →
      extractStream .gemini (renderedStream (.dialect .gemini) (before ++ report :: after)) = .zero) := by
  have hchunk : IsChunk report := h.chunks report (by simp)
  have hbefore := Gemini.emitAll_follows before Gemini.new_follows
  rw [List.nil_append] at hbefore
  have hquietBefore := Gemini.emitAll_quiet Gemini.new_follows
    (fun c hc => h.chunks c (List.mem_append_left _ hc)) h.none_before
  generalize hs : (emitAll OpenAiToGeminiStream.onChunk .new before).1 = s at hbefore
  have hquietAfter := Gemini.emitAll_quiet (Gemini.onChunk_follows hbefore report)
    (fun c hc => h.chunks c (List.mem_append_right _ (List.mem_cons_of_mem _ hc))) h.none_after
  -- The frames of the report are the only ones that may carry it.
  have hframes : renderedFrames (.dialect .gemini) (before ++ report :: after) =
      (emitAll OpenAiToGeminiStream.onChunk .new before).2 ++ ((s.onChunk report).2 ++
        (emitAll OpenAiToGeminiStream.onChunk (s.onChunk report).1 after).2) := by
    have hemit := @emitAll_wrap _ _ _ InboundStream.onChunk _ OpenAiToGeminiStream.onChunk
      InboundStream.gemini (fun _ _ => rfl) .new (before ++ report :: after)
    unfold renderedFrames
    show (emitAll InboundStream.onChunk (.gemini .new) _).2 ++
      (emitAll InboundStream.onChunk (.gemini .new) _).1.finishFrames = _
    rw [hemit]
    show (emitAll OpenAiToGeminiStream.onChunk .new (before ++ report :: after)).2 ++ [] = _
    rw [List.append_nil, emitAll_append, hs]
    rfl
  have hall : ∀ {usage : TokenUsage}, (∀ frame ∈ (s.onChunk report).2, WellFormed frame ∧
      frameUsage .gemini frame = usage) → ∀ frame ∈ renderedFrames (.dialect .gemini)
        (before ++ report :: after), WellFormed frame ∧
          (frameUsage .gemini frame = .zero ∨ frameUsage .gemini frame = usage) := by
    intro usage hreport frame hframe
    rw [hframes] at hframe
    rcases List.mem_append.mp hframe with hframe | hframe
    · exact ⟨(hquietBefore frame hframe).1, Or.inl (hquietBefore frame hframe).2⟩
    · rcases List.mem_append.mp hframe with hframe | hframe
      · exact ⟨(hreport frame hframe).1, Or.inr (hreport frame hframe).2⟩
      · exact ⟨(hquietAfter frame hframe).1, Or.inl (hquietAfter frame hframe).2⟩
  have hwf := fun finish => Gemini.streamChunk_wf (Gemini.partsOf_wf hbefore report) hchunk.wf finish
  have hdepth := Gemini.depth_report_iff hbefore hchunk h.report
  unfold renderedStream
  constructor
  · rintro ⟨hfinishes, hshallow⟩
    obtain ⟨reason, hreason⟩ := Option.isSome_iff_exists.mp hfinishes
    have hfinish : Gemini.finishOf report = some (geminiFinish reason) := by
      unfold Gemini.finishOf
      rw [hreason]
      rfl
    have hone : (s.onChunk report).2 = [.data (OpenAiToGeminiStream.streamChunk
        (Gemini.partsOf s report) report (some (geminiFinish reason)))] := by
      rw [Gemini.onChunk_eq, hfinish]
      dsimp only
      rw [Option.isNone_some, Bool.and_false]
      rfl
    have hloud : frameUsage .gemini (.data (OpenAiToGeminiStream.streamChunk
        (Gemini.partsOf s report) report (some (geminiFinish reason)))) = ⟨input, output, 0⟩ := by
      show scanned .gemini _ = _
      unfold scanned
      rw [if_pos ((hdepth _).mpr hshallow), Gemini.streamChunk_usage h.report]
    have hreport := hall fun frame hframe => by
      rw [hone, List.mem_singleton] at hframe
      rw [hframe]
      exact ⟨hwf _, hloud⟩
    refine extractStream_of_only (fun frame hframe => (hreport frame hframe).1)
      (fun frame hframe => (hreport frame hframe).2) (Or.inr ⟨_, ?_, hloud⟩)
    rw [hframes, hone]
    exact List.mem_append_right _ (List.mem_append_left _ (List.mem_singleton.mpr rfl))
  · intro hnot
    have hreport := @hall .zero fun frame hframe => by
      cases hfinish : Gemini.finishOf report with
      | none => exact Gemini.onChunk_quiet hbefore hchunk.wf (Or.inl hfinish) frame hframe
      | some finish =>
        rw [Gemini.onChunk_eq, hfinish] at hframe
        dsimp only at hframe
        rw [Option.isNone_some, Bool.and_false, if_neg (by decide), List.mem_singleton] at hframe
        rw [hframe]
        have hfinishes : Finishes report := by
          unfold Gemini.finishOf at hfinish
          obtain ⟨reason, hreason, _⟩ := Option.map_eq_some_iff.mp hfinish
          unfold Finishes
          rw [hreason]
          rfl
        refine ⟨hwf _, ?_⟩
        show scanned .gemini _ = _
        unfold scanned
        rw [if_neg fun hlt => hnot ⟨hfinishes, (hdepth _).mp hlt⟩]
    exact extractStream_of_only (fun frame hframe => (hreport frame hframe).1)
      (fun frame hframe => (hreport frame hframe).2) (Or.inl rfl)

/-! ## Whole answers -/

theorem extractSync_print {dialect : Dialect} {v : Value} (h : v.WF) :
    extractSync dialect v.print = scanned dialect v := by
  have hdata := @onEventData_print dialect v h
  unfold StreamUsageScanner.onEventData at hdata
  have hmerge : ∀ usage : TokenUsage, TokenUsage.zero.mergeMax usage = usage := by
    intro usage
    exact TokenUsage.ext_get fun f => by simp
  unfold extractSync scanned
  rw [← hdata]
  split
  · rfl
  · split
    · exact (hmerge _).symm
    · rfl

theorem argumentsOf_wf (call : Value) : (argumentsOf call).WF := by
  unfold argumentsOf
  cases h : (((call.index "function").index "arguments").asStr).bind fromStr with
  | none => exact ⟨List.Pairwise.nil, trivial⟩
  | some v =>
    obtain ⟨s, _, hs⟩ := Option.bind_eq_some_iff.mp h
    obtain ⟨raw, _, hraw⟩ := Option.bind_eq_some_iff.mp hs
    exact Raw.toValue_wf hraw

/-- The counts of a reading. -/
def Reads (usage : TokenUsage) (input output : Nat) : Prop :=
  usage.input = input ∧ usage.output = output

theorem openaiResponseToAnthropic_usage {body : Value} {input output : Nat} (h : body.WF)
    (hreport : Reported body input output) :
    (openaiResponseToAnthropic body).WF ∧
      Reads (usageFromValue .anthropic (openaiResponseToAnthropic body)) input output := by
  have hcalls := ((h.index "choices").at 0).index "message"
  constructor
  · refine Value.wf_ofMembers ?_
    simp only [List.forall_mem_cons, List.not_mem_nil, false_imp_iff, implies_true, and_true]
    refine ⟨h.index _, trivial, trivial, h.index _, Value.wf_array fun v hv => ?_, trivial, trivial,
      Value.wf_ofMembers ?_⟩
    · rcases List.mem_append.mp hv with hv | hv
      · obtain ⟨text, _, rfl⟩ := List.mem_map.mp hv
        exact Value.wf_ofMembers (by simp [Value.WF])
      · obtain ⟨call, hcall, rfl⟩ := List.mem_map.mp hv
        have hwf := elements_wf (hcalls.index "tool_calls") call hcall
        refine Value.wf_ofMembers ?_
        simp only [List.forall_mem_cons, List.not_mem_nil, false_imp_iff, implies_true, and_true]
        exact ⟨trivial, hwf.index _, (hwf.index _).index _, argumentsOf_wf call⟩
    · simp only [List.forall_mem_cons, List.not_mem_nil, false_imp_iff, implies_true, and_true]
      exact ⟨(h.index _).index _, (h.index _).index _⟩
  · unfold Reads
    simp [usageFromValue, openaiResponseToAnthropic, Value.index_ofMembers, u, hreport.input,
      hreport.output]

theorem openaiResponseToGemini_usage {body : Value} {input output : Nat} (h : body.WF)
    (hreport : Reported body input output) :
    (openaiResponseToGemini body).WF ∧
      Reads (usageFromValue .gemini (openaiResponseToGemini body)) input output := by
  have hcalls := ((h.index "choices").at 0).index "message"
  constructor
  · refine Value.wf_ofMembers ?_
    simp only [List.forall_mem_cons, List.not_mem_nil, false_imp_iff, implies_true, and_true]
    refine ⟨Value.wf_array fun v hv => ?_, Gemini.usageMetadata_wf (h.index _), h.index _⟩
    rw [List.mem_singleton.mp hv]
    refine Value.wf_ofMembers ?_
    simp only [List.forall_mem_cons, List.not_mem_nil, false_imp_iff, implies_true, and_true]
    refine ⟨Value.wf_ofMembers ?_, trivial, trivial⟩
    simp only [List.forall_mem_cons, List.not_mem_nil, false_imp_iff, implies_true, and_true]
    refine ⟨trivial, Value.wf_array fun v hv => ?_⟩
    rcases List.mem_append.mp hv with hv | hv
    · obtain ⟨text, _, rfl⟩ := List.mem_map.mp hv
      exact Value.wf_ofMembers (by simp [Value.WF])
    · obtain ⟨call, hcall, rfl⟩ := List.mem_map.mp hv
      have hwf := elements_wf (hcalls.index "tool_calls") call hcall
      refine Value.wf_ofMembers ?_
      simp only [List.forall_mem_cons, List.not_mem_nil, false_imp_iff, implies_true, and_true]
      refine Value.wf_ofMembers ?_
      simp only [List.forall_mem_cons, List.not_mem_nil, false_imp_iff, implies_true, and_true]
      exact ⟨(hwf.index _).index _, argumentsOf_wf call⟩
  · unfold Reads
    simp [usageFromValue, openaiResponseToGemini, Value.index_ofMembers, u, hreport.input,
      hreport.output]

theorem openaiResponseToResponses_usage {body : Value} {input output : Nat} (h : body.WF)
    (hreport : Reported body input output) :
    (openaiResponseToResponses body).WF ∧
      Reads (usageFromValue .openAi (openaiResponseToResponses body)) input output := by
  have hcalls := ((h.index "choices").at 0).index "message"
  constructor
  · refine Value.wf_ofMembers ?_
    simp only [List.forall_mem_cons, List.not_mem_nil, false_imp_iff, implies_true, and_true]
    refine ⟨trivial, trivial, trivial, h.index _, Value.wf_array fun v hv => ?_,
      Responses.responsesUsage_wf (h.index _), trivial, ?_⟩
    · rcases List.mem_append.mp hv with hv | hv
      · obtain ⟨⟨call, i⟩, hcall, rfl⟩ := List.mem_map.mp hv
        have hwf := elements_wf (hcalls.index "tool_calls") call (List.fst_mem_of_mem_zipIdx hcall)
        refine Value.wf_ofMembers ?_
        simp only [List.forall_mem_cons, List.not_mem_nil, false_imp_iff, implies_true, and_true]
        exact ⟨trivial, trivial, hwf.index _, (hwf.index _).index _, (hwf.index _).index _, trivial⟩
      · obtain ⟨text, _, rfl⟩ := List.mem_map.mp hv
        exact Responses.messageItem_wf 0 "completed" (by
          intro v hv
          rw [List.mem_singleton.mp hv]
          exact Responses.outputText_wf text)
    · split
      · exact Value.wf_ofMembers (by simp [Value.WF])
      · trivial
  · unfold Reads
    simp [usageFromValue, openaiResponseToResponses, responsesUsage, Value.index_ofMembers, u,
      hreport.input, hreport.output]

/-! ## Every inbound dialect -/

/-- What a client may be answered in. -/
def inbounds : List RenderTarget :=
  [.dialect .openAi, .dialect .anthropic, .dialect .gemini, .responses]

/-- The dialect an answer is metered in. -/
def meteredAs : RenderTarget → Dialect
  | .dialect d => d
  | .responses => .openAi

/-- A whole answer keeps the usage, whatever it is rendered as. -/
theorem renderFor_usage {target : RenderTarget} (ht : target ∈ inbounds) {completion : Value}
    (h : completion.WF) {input output : Nat} (hreport : Reported completion input output)
    (hdepth : (renderFor target completion).depth < depthLimit) :
    Reads (extractSync (meteredAs target) (renderFor target completion).print) input output := by
  have hread : ∀ {dialect v}, v.depth < depthLimit → v.WF ∧ Reads (usageFromValue dialect v) input output →
      Reads (extractSync dialect v.print) input output := by
    rintro dialect v hlt ⟨hwf, hreads⟩
    rw [extractSync_print hwf]
    unfold scanned
    rw [if_pos hlt]
    exact hreads
  simp only [inbounds, List.mem_cons, List.not_mem_nil, or_false] at ht
  rcases ht with rfl | rfl | rfl | rfl
  · exact hread hdepth ⟨h, hreport.openAi⟩
  · exact hread hdepth (openaiResponseToAnthropic_usage h hreport)
  · exact hread hdepth (openaiResponseToGemini_usage h hreport)
  · exact hread hdepth (openaiResponseToResponses_usage h hreport)

/-- When a stream keeps it: Anthropic's, when there is no input to speak of;
Gemini's, when the finishing chunk has it and completes no deep call, or when
there is nothing to lose. -/
def KeepsUsage (target : RenderTarget) (before : List Value) (report : Value)
    (input output : Nat) : Prop :=
  match target with
  | .dialect .anthropic => input = 0
  | .dialect .gemini => (Finishes report ∧ Gemini.Shallow before report) ∨ input = 0 ∧ output = 0
  | _ => True

theorem renderedStream_usage {target : RenderTarget} (ht : target ∈ inbounds)
    {before after : List Value} {report : Value} {input output : Nat}
    (h : Reporting before report after input output) :
    Reads (extractStream (meteredAs target) (renderedStream target (before ++ report :: after)))
      input output ↔ KeepsUsage target before report input output := by
  simp only [inbounds, List.mem_cons, List.not_mem_nil, or_false] at ht
  rcases ht with rfl | rfl | rfl | rfl
  · show Reads (extractStream .openAi _) input output ↔ True
    rw [openAi_scanned h]
    exact iff_true_intro h.report.openAi
  · show Reads (extractStream .anthropic _) input output ↔ input = 0
    rw [anthropic_scanned h]
    exact ⟨fun hreads => hreads.1.symm, fun hzero => ⟨hzero.symm, rfl⟩⟩
  · obtain ⟨hkept, hlost⟩ := gemini_scanned h
    show Reads (extractStream .gemini _) input output ↔ _ ∨ input = 0 ∧ output = 0
    by_cases hkeeps : Finishes report ∧ Gemini.Shallow before report
    · rw [hkept hkeeps]
      exact iff_of_true ⟨rfl, rfl⟩ (Or.inl hkeeps)
    · rw [hlost hkeeps]
      constructor
      · rintro ⟨hinput, houtput⟩
        exact Or.inr ⟨hinput.symm, houtput.symm⟩
      · rintro (hk | ⟨rfl, rfl⟩)
        · exact absurd hk hkeeps
        · exact ⟨rfl, rfl⟩
  · show Reads (extractStream .openAi _) input output ↔ True
    rw [responses_scanned h]
    exact iff_true_intro ⟨rfl, rfl⟩

/-- The usage of a rendered answer is the one reported; that of a rendered
stream is, just when `KeepsUsage` says so. -/
theorem usage_survives_iff {target : RenderTarget} (ht : target ∈ inbounds)
    {before after : List Value} {report : Value} {input output : Nat}
    (h : Reporting before report after input output) :
    (∀ completion, IsChunk completion → Reported completion input output →
      (renderFor target completion).depth < depthLimit →
      Reads (extractSync (meteredAs target) (renderFor target completion).print) input output) ∧
    (Reads (extractStream (meteredAs target) (renderedStream target (before ++ report :: after)))
      input output ↔ KeepsUsage target before report input output) :=
  ⟨fun _ hc hreport hdepth => renderFor_usage ht hc.wf hreport hdepth, renderedStream_usage ht h⟩

/-! ## Seven tokens in, three out -/

def sampleChunk (content : Value) (finish : Value) (usage : Value) : Value :=
  .ofMembers [("id", .string "chatcmpl-1"), ("model", .string "gpt"), ("choices", .array [.ofMembers [
    ("index", .ofU64 0), ("delta", .ofMembers [("content", content)]), ("finish_reason", finish)]]),
    ("usage", usage)]

def textChunk : Value := sampleChunk (.string "Hi") .null .null

/-- The finishing chunk, with the usage. -/
def stopChunk : Value := sampleChunk .null (.string "stop") (.ofMembers [
  ("prompt_tokens", .ofU64 7), ("completion_tokens", .ofU64 3), ("total_tokens", .ofU64 10)])

theorem isChunk_sample {content finish usage : Value} (hcontent : content.WF ∧ content.depth = 0)
    (hfinish : finish.WF ∧ finish.depth = 0) (husage : usage.WF ∧ usage.depth ≤ 1) :
    IsChunk (sampleChunk content finish usage) := by
  refine ⟨?_, ?_, by simp [sampleChunk, Value.get?_ofMembers]⟩
  · refine Value.wf_ofMembers ?_
    simp only [List.forall_mem_cons, List.not_mem_nil, false_imp_iff, implies_true, and_true]
    refine ⟨trivial, trivial, Value.wf_array fun v hv => ?_, husage.1⟩
    rw [List.mem_singleton.mp hv]
    refine Value.wf_ofMembers ?_
    simp only [List.forall_mem_cons, List.not_mem_nil, false_imp_iff, implies_true, and_true]
    exact ⟨trivial, Value.wf_ofMembers (by simpa using hcontent.1), hfinish.1⟩
  · refine lt_of_le_of_lt (Value.depth_ofMembers_le (n := 4) (by decide) ?_) (by decide)
    simp only [List.forall_mem_cons, List.not_mem_nil, false_imp_iff, implies_true, and_true]
    refine ⟨Nat.zero_lt_succ 3, Nat.zero_lt_succ 3, ?_, by omega⟩
    refine Nat.lt_succ_of_le ((Value.depth_array_le (by decide)).mpr fun v hv => ?_)
    rw [List.mem_singleton.mp hv]
    refine Nat.lt_succ_of_le (Value.depth_ofMembers_le (by decide) ?_)
    simp only [List.forall_mem_cons, List.not_mem_nil, false_imp_iff, implies_true, and_true]
    refine ⟨Nat.zero_lt_succ 1, Nat.lt_succ_of_le (Value.depth_ofMembers_le (by decide) ?_), by omega⟩
    simp only [List.forall_mem_cons, List.not_mem_nil, false_imp_iff, implies_true, and_true]
    omega

theorem sample_reporting : Reporting [textChunk] stopChunk [] 7 3 := by
  have htext : IsChunk textChunk := isChunk_sample ⟨trivial, rfl⟩ ⟨trivial, rfl⟩ ⟨trivial, Nat.zero_le 1⟩
  have hstop : IsChunk stopChunk := by
    refine isChunk_sample ⟨trivial, rfl⟩ ⟨trivial, rfl⟩
      ⟨Value.wf_ofMembers (by simp [Value.wf_ofU64]), Value.depth_ofMembers_le (by decide) ?_⟩
    simp only [List.forall_mem_cons, List.not_mem_nil, false_imp_iff, implies_true, and_true]
    exact ⟨Nat.zero_lt_one, Nat.zero_lt_one, Nat.zero_lt_one⟩
  refine ⟨?_, ?_, fun c hc => (by cases hc), ?_⟩
  · intro c hc
    rcases List.mem_cons.mp hc with rfl | hc
    · exact htext
    · rw [List.mem_singleton.mp hc]
      exact hstop
  · intro c hc
    rw [List.mem_singleton.mp hc]
    simp [NoReport, textChunk, sampleChunk, Value.index_ofMembers]
  · refine ⟨?_, ?_, ?_, ?_⟩
    · simp only [stopChunk, sampleChunk, Value.index_ofMembers]
      rfl
    · simp only [stopChunk, sampleChunk, Value.index_ofMembers]
      rfl
    · simp only [stopChunk, sampleChunk, Value.index_ofMembers]
      rfl
    · simp only [stopChunk, sampleChunk, Value.index_ofMembers]
      exact ⟨rfl, rfl⟩

theorem usage_survives_iff_gemini :
    Reads (extractStream .gemini (renderedStream (.dialect .gemini) [textChunk, stopChunk])) 7 3 := by
  have hcalls : Gemini.callsIn ([textChunk] ++ [stopChunk]) = [] := by
    simp [Gemini.callsIn, textChunk, stopChunk, sampleChunk, firstChoice, elements, Value.index_ofMembers,
      Value.at_, Value.asArray]
  have hshallow : Gemini.Shallow [textChunk] stopChunk := by
    intro i args hcomplete
    rw [hcalls] at hcomplete
    exact absurd rfl hcomplete.1
  have hfinishes : Finishes stopChunk := by
    simp [Finishes, stopChunk, sampleChunk, firstChoice, Value.index_ofMembers, Value.at_, Value.asStr]
  exact (usage_survives_iff (by decide) sample_reporting).2.mpr (Or.inl ⟨hfinishes, hshallow⟩)

/-- A client of the Anthropic API is not charged for its input. -/
theorem anthropic_input_lost :
    ¬ ∀ target ∈ inbounds, ∀ (before after : List Value) (report : Value) (input output : Nat),
      Reporting before report after input output →
      Reads (extractStream (meteredAs target) (renderedStream target (before ++ report :: after)))
        input output := by
  intro hclaim
  have hreads := hclaim (.dialect .anthropic) (by decide) _ _ _ _ _ sample_reporting
  rw [show meteredAs (.dialect .anthropic) = .anthropic from rfl, anthropic_scanned sample_reporting]
    at hreads
  exact absurd hreads.1 (by decide)

end RapidRouter.Usage
