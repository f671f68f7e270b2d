import RapidRouter.Providers.Anthropic
import RapidRouter.Providers.Bedrock
import RapidRouter.Providers.Retold

/-!
# An answer in blocks, relayed

An upstream that answers in blocks tells each call in one go, and the calls under
0, 1, 2 and so on (`settled_carries`). So a client that reads the rendered stream
reads what the blocks say (`reads_stream`), as does one that is given the whole
answer (`reads_whole`): a stream from Bedrock and Bedrock's whole response are the
same message to a client of the Messages API (`bedrock_relayed`).
-/

namespace RapidRouter.Providers

open Json Emit Items Retold RapidRouter.Core

namespace Relayed

/-! ## What a translator's chunks tell -/

/-- The call of a chunk that opens one. -/
def opening (index : Nat) (id name : Value) (arguments : String) : Value :=
  .ofMembers [("index", .ofU64 index), ("id", id), ("type", .string "function"),
    ("function", .ofMembers [("name", name), ("arguments", .string arguments)])]

/-- The call of a chunk that goes on with one. -/
def furthering (index : Nat) (fragment : String) : Value :=
  .ofMembers [("index", .ofU64 index), ("function", .ofMembers [("arguments", .string fragment)])]

def entries : Delta → List Entry
  | .content text => (nonEmptyStr (.string text)).toList.map .text
  | .call index id name arguments => [.call (opening index id name arguments)]
  | .arguments index fragment => [.call (furthering index fragment)]
  | _ => []

theorem chunkEntries_chunk (id model : String) (delta : Value) (finish : Option String) :
    chunkEntries (openAiChunk id model delta finish) =
      (nonEmptyStr (delta.index "content")).toList.map .text ++
        (elements (delta.index "tool_calls")).map .call := by
  have hdelta : (firstChoice (openAiChunk id model delta finish)).index "delta" = delta := by
    rw [firstChoice_chunk]
    simp [Value.index_ofMembers]
  unfold chunkEntries
  rw [hdelta]

theorem ending_eq (id model reason : String) (usage : Value) :
    Delta.chunk id model (.finish reason usage) = .ofMembers
      [("id", .string id), ("object", .string "chat.completion.chunk"), ("model", .string model),
        ("choices", .array [.ofMembers [("index", .ofU64 0), ("delta", .ofMembers []),
          ("finish_reason", .string reason)]]), ("usage", usage)] := rfl

theorem chunkEntries_delta (id model : String) (d : Delta) :
    chunkEntries (d.chunk id model) = entries d := by
  cases d with
  | role =>
    show chunkEntries (openAiChunk id model roleDelta none) = _
    rw [chunkEntries_chunk]
    simp [roleDelta, Value.index_ofMembers, nonEmptyStr, Value.asStr, elements, Value.asArray,
      entries]
  | content text =>
    show chunkEntries (openAiChunk id model (contentDelta (.string text)) none) = _
    rw [chunkEntries_chunk]
    simp [contentDelta, Value.index_ofMembers, elements, Value.asArray, entries]
  | call index callId name args =>
    show chunkEntries (openAiChunk id model (callDelta index callId name args) none) = _
    rw [chunkEntries_chunk]
    simp [callDelta, Value.index_ofMembers, nonEmptyStr, Value.asStr, elements, Value.asArray,
      entries, opening]
  | arguments index fragment =>
    show chunkEntries (openAiChunk id model (argumentsDelta index fragment) none) = _
    rw [chunkEntries_chunk]
    simp [argumentsDelta, Value.index_ofMembers, nonEmptyStr, Value.asStr, elements, Value.asArray,
      entries, furthering]
  | finish reason usage =>
    rw [ending_eq]
    simp [chunkEntries, firstChoice, Value.index_ofMembers, Value.at_, nonEmptyStr, Value.asStr,
      elements, Value.asArray, entries]

theorem entries_carries {chunks : List Value} {deltas : List Delta} (h : Carries chunks deltas) :
    chunks.flatMap chunkEntries = deltas.flatMap entries := by
  induction h with
  | nil => rfl
  | cons hc _ ih =>
    obtain ⟨id, model, rfl⟩ := hc
    rw [List.flatMap_cons, List.flatMap_cons, chunkEntries_delta, ih]

section

variable (index : Nat) (id name args : String)

theorem opening_reads :
    toolIndex (opening index (.string id) (.string name) args) = index % 2 ^ 64 ∧
      (opening index (.string id) (.string name) args).index "id" = .string id ∧
      (((opening index (.string id) (.string name) args).index "function").index "name") =
        .string name := by
  simp [opening, toolIndex, Value.index_ofMembers, Value.asU64, Value.ofU64]

theorem furthering_reads :
    toolIndex (furthering index args) = index % 2 ^ 64 ∧
      (furthering index args).index "id" = .null ∧
      (((furthering index args).index "function").index "name") = .null := by
  simp [furthering, toolIndex, Value.index_ofMembers, Value.asU64, Value.ofU64]

end

/-! ### Each call in one go -/

theorem next_furthering {t : Telling} {n : Nat} {id : String} (hn : n < 2 ^ 64)
    (hopen : t.current = some (n, id)) (fragment : String) :
    t.next (.call (furthering n fragment)) = some t := by
  obtain ⟨hindex, hid, hname⟩ := furthering_reads n fragment
  have hgoes : t.goesOn (furthering n fragment) = true := by
    unfold Telling.goesOn
    rw [hopen, hindex, hid, Nat.mod_eq_of_lt hn]
    exact decide_eq_true ⟨rfl, rfl⟩
  unfold Telling.next
  dsimp only
  rw [hname]
  exact if_pos (Or.inr hgoes)

theorem next_opening {t : Telling} {n : Nat} (hn : n < 2 ^ 64) (hnew : n ∉ t.named)
    (id name args : String) :
    t.next (.call (opening n (.string id) (.string name) args)) =
      some ⟨n :: t.named, some (n, id)⟩ := by
  obtain ⟨hindex, hid, hname⟩ := opening_reads n id name args
  rw [Nat.mod_eq_of_lt hn] at hindex
  unfold Telling.next
  dsimp only
  rw [hname, hid, hindex]
  exact if_neg hnew

theorem tell_pieces (t : Telling) (pieces : List String) : ∃ t',
    ((pieces.map Delta.content).flatMap entries).foldlM Telling.next t = some t' ∧
      t'.named = t.named := by
  induction pieces generalizing t with
  | nil => exact ⟨t, rfl, rfl⟩
  | cons piece pieces ih =>
    rw [List.map_cons, List.flatMap_cons, List.foldlM_append]
    by_cases hempty : piece = ""
    · obtain ⟨t', ht', hnamed⟩ := ih t
      refine ⟨t', ?_, hnamed⟩
      rw [hempty]
      exact ht'
    · obtain ⟨t', ht', hnamed⟩ := ih { t with current := none }
      refine ⟨t', ?_, hnamed⟩
      have hpiece : entries (.content piece) = [.text piece] := by
        simp [entries, nonEmptyStr, Value.asStr, Option.filter, hempty]
      rw [hpiece]
      exact ht'

theorem tell_furthering {t : Telling} {n : Nat} {id : String} (hn : n < 2 ^ 64)
    (hopen : t.current = some (n, id)) (pieces : List String) :
    ((pieces.map (Delta.arguments n)).flatMap entries).foldlM Telling.next t = some t := by
  induction pieces with
  | nil => rfl
  | cons piece pieces ih =>
    show (t.next (.call (furthering n piece))).bind _ = _
    rw [next_furthering hn hopen]
    exact ih

/-- One block, when the calls so far are numbered below `n`. -/
theorem tell_block {t : Telling} {n : Nat} (hnamed : ∀ i ∈ t.named, i < n) (block : Streamed)
    (hroom : n + (Streamed.tools [block]).length ≤ 2 ^ 64) : ∃ t',
      ((Streamed.blockDeltas n block).flatMap entries).foldlM Telling.next t = some t' ∧
        ∀ i ∈ t'.named, i < n + (Streamed.tools [block]).length := by
  cases block with
  | text pieces =>
    obtain ⟨t', ht', hsame⟩ := tell_pieces t pieces
    exact ⟨t', ht', fun i hi => hnamed i (hsame ▸ hi)⟩
  | other => exact ⟨t, rfl, hnamed⟩
  | tool tool =>
    have hn : n < 2 ^ 64 := hroom
    have hnew : n ∉ t.named := fun hmem => lt_irrefl n (hnamed n hmem)
    refine ⟨⟨n :: t.named, some (n, tool.id)⟩, ?_, fun i hi => ?_⟩
    · show (t.next (.call (opening n (.string tool.id) (.string tool.name) ""))).bind _ = _
      rw [next_opening hn hnew]
      exact tell_furthering hn rfl tool.pieces
    · rcases List.mem_cons.mp hi with rfl | hi
      · exact Nat.lt_succ_self _
      · exact Nat.lt_succ_of_lt (hnamed i hi)

/-- By induction on the blocks. -/
theorem tell_blocks {t : Telling} {n : Nat} (hnamed : ∀ i ∈ t.named, i < n) (blocks : List Streamed)
    (hroom : n + (Streamed.tools blocks).length ≤ 2 ^ 64) :
    (((Streamed.deltas n blocks).flatMap entries).foldlM Telling.next t).isSome = true := by
  induction blocks generalizing t n with
  | nil => rfl
  | cons block blocks ih =>
    rw [Streamed.tools_cons block, List.length_append] at hroom
    obtain ⟨t', ht', hnamed'⟩ := tell_block hnamed block (by omega)
    unfold Streamed.deltas
    rw [List.flatMap_append, List.foldlM_append, ht']
    exact ih hnamed' (by omega)

/-! ### The calls in order -/

theorem namings_texts (pieces : List String) :
    namings (((pieces.map Delta.content).flatMap entries).flatMap Entry.parts) = [] := by
  induction pieces with
  | nil => rfl
  | cons piece pieces ih =>
    rw [List.map_cons, List.flatMap_cons, List.flatMap_append, namings_append, ih, List.append_nil]
    show namings (((nonEmptyStr (.string piece)).toList.map Entry.text).flatMap Entry.parts) = []
    cases nonEmptyStr (.string piece) <;> rfl

theorem parts_furthering (n : Nat) (fragment : String) :
    callParts (furthering n fragment) =
      (nonEmptyStr (((furthering n fragment).index "function").index "arguments")).toList.map
        (Part.args (toolIndex (furthering n fragment))) := by
  unfold callParts
  rw [(furthering_reads n fragment).2.2]
  rfl

theorem namings_furthering (n : Nat) (pieces : List String) :
    namings (((pieces.map (Delta.arguments n)).flatMap entries).flatMap Entry.parts) = [] := by
  induction pieces with
  | nil => rfl
  | cons piece pieces ih =>
    rw [List.map_cons, List.flatMap_cons, List.flatMap_append, namings_append, ih, List.append_nil]
    show namings (callParts (furthering n piece) ++ []) = []
    rw [List.append_nil, parts_furthering]
    exact namings_args _ _

theorem namings_opening {n : Nat} (hn : n < 2 ^ 64) (id name args : String) :
    namings (callParts (opening n (.string id) (.string name) args)) = [(n, .string id, name)] := by
  obtain ⟨hindex, hid, hname⟩ := opening_reads n id name args
  unfold callParts
  rw [hname, hid, hindex, Nat.mod_eq_of_lt hn, namings_append, namings_args]
  rfl

theorem namings_block {n : Nat} (block : Streamed)
    (hroom : n + (Streamed.tools [block]).length ≤ 2 ^ 64) :
    (namings (((Streamed.blockDeltas n block).flatMap entries).flatMap Entry.parts)).map Prod.fst =
      List.range' n (Streamed.tools [block]).length := by
  cases block with
  | text pieces =>
    show (namings (((pieces.map Delta.content).flatMap entries).flatMap Entry.parts)).map _ = []
    rw [namings_texts]
    rfl
  | other => rfl
  | tool tool =>
    show (namings (callParts (opening n (.string tool.id) (.string tool.name) "") ++
      (((tool.pieces.map (Delta.arguments n)).flatMap entries).flatMap Entry.parts))).map _ = _
    rw [namings_append, namings_furthering, namings_opening hroom]
    rfl

theorem namings_blocks {n : Nat} (blocks : List Streamed)
    (hroom : n + (Streamed.tools blocks).length ≤ 2 ^ 64) :
    (namings (((Streamed.deltas n blocks).flatMap entries).flatMap Entry.parts)).map Prod.fst =
      List.range' n (Streamed.tools blocks).length := by
  induction blocks generalizing n with
  | nil => rfl
  | cons block blocks ih =>
    have hlength : (Streamed.tools (block :: blocks)).length =
        (Streamed.tools [block]).length + (Streamed.tools blocks).length := by
      rw [Streamed.tools_cons block, List.length_append]
    rw [hlength] at hroom ⊢
    unfold Streamed.deltas
    rw [List.flatMap_append, List.flatMap_append, namings_append, List.map_append,
      namings_block block (by omega), ih (by omega)]
    exact List.range'_append_1

/-! ### How many parts -/

/-- What is said of a block in one delta is one part at most. -/
theorem length_entries {n : Nat} {block : Streamed} {d : Delta}
    (hd : d ∈ Streamed.blockDeltas n block) : ((entries d).flatMap Entry.parts).length ≤ 1 := by
  have hargs : ∀ fragment, (callParts (furthering n fragment)).length ≤ 1 := by
    intro fragment
    rw [parts_furthering, List.length_map]
    cases nonEmptyStr (((furthering n fragment).index "function").index "arguments") with
    | none => exact Nat.zero_le 1
    | some said => exact le_rfl
  cases block with
  | other => cases hd
  | text pieces =>
    obtain ⟨piece, -, rfl⟩ := List.mem_map.mp hd
    show (((nonEmptyStr (.string piece)).toList.map Entry.text).flatMap Entry.parts).length ≤ 1
    cases nonEmptyStr (.string piece) with
    | none => exact Nat.zero_le 1
    | some said => exact le_rfl
  | tool tool =>
    rcases List.mem_cons.mp hd with rfl | hd
    · show (callParts (opening n (.string tool.id) (.string tool.name) "") ++ []).length ≤ 1
      obtain ⟨-, -, hname⟩ := opening_reads n tool.id tool.name ""
      have hnone : nonEmptyStr (((opening n (.string tool.id) (.string tool.name) "").index
          "function").index "arguments") = none := by
        simp [opening, Value.index_ofMembers, nonEmptyStr, Value.asStr]
      unfold callParts
      rw [hname, hnone]
      exact le_rfl
    · obtain ⟨fragment, -, rfl⟩ := List.mem_map.mp hd
      show (callParts (furthering n fragment) ++ []).length ≤ 1
      rw [List.append_nil]
      exact hargs fragment

theorem length_flatMap_le {α β : Type} {f : α → List β} {xs : List α}
    (h : ∀ x ∈ xs, (f x).length ≤ 1) : (xs.flatMap f).length ≤ xs.length := by
  induction xs with
  | nil => exact le_rfl
  | cons x xs ih =>
    obtain ⟨hx, hxs⟩ := List.forall_mem_cons.mp h
    have hrest := ih hxs
    rw [List.flatMap_cons, List.length_append, List.length_cons]
    omega

/-- A stream has a delta for every call and for every part. -/
theorem length_deltas (n : Nat) (blocks : List Streamed) :
    (Streamed.tools blocks).length ≤ (Streamed.deltas n blocks).length ∧
      (((Streamed.deltas n blocks).flatMap entries).flatMap Entry.parts).length ≤
        (Streamed.deltas n blocks).length := by
  induction blocks generalizing n with
  | nil => exact ⟨le_rfl, le_rfl⟩
  | cons block blocks ih =>
    obtain ⟨htools, hparts⟩ := ih (n + (Streamed.tools [block]).length)
    have hblock : (((Streamed.blockDeltas n block).flatMap entries).flatMap Entry.parts).length ≤
        (Streamed.blockDeltas n block).length := by
      rw [List.flatMap_assoc]
      exact length_flatMap_le fun d hd => length_entries hd
    have hone : (Streamed.tools [block]).length ≤ (Streamed.blockDeltas n block).length := by
      cases block with
      | text pieces => exact Nat.zero_le _
      | other => exact le_rfl
      | tool tool => exact Nat.succ_le_succ (Nat.zero_le _)
    rw [Streamed.tools_cons block]
    unfold Streamed.deltas
    rw [List.flatMap_append, List.flatMap_append, List.length_append, List.length_append,
      List.length_append]
    omega

/-! ## A stream of blocks -/

/-- The chunks of a message: the role, its blocks and how it ends. -/
def message (blocks : List Streamed) (finish : String) (usage : Value) : List Delta :=
  [.role] ++ (Streamed.deltas 0 blocks ++ [.finish finish usage])

section

variable {chunks : List Value} {blocks : List Streamed} {finish : String} {usage : Value}

theorem entries_message (h : Carries chunks (message blocks finish usage)) :
    chunks.flatMap chunkEntries = (Streamed.deltas 0 blocks).flatMap entries := by
  rw [entries_carries h]
  show ([] ++ (Streamed.deltas 0 blocks ++ [_]).flatMap entries) = _
  rw [List.nil_append, List.flatMap_append]
  exact List.append_nil _

theorem parts_message (h : Carries chunks (message blocks finish usage)) :
    parts chunks = ((Streamed.deltas 0 blocks).flatMap entries).flatMap Entry.parts := by
  rw [← parts_entries, entries_message h]

/-- Chunks of blocks tell each call in one go, under 0, 1, 2 and so on. -/
theorem settled_carries (h : Carries chunks (message blocks finish usage))
    (hlength : (Streamed.tools blocks).length ≤ 2 ^ 64) : Settled chunks ∧
      (namings (parts chunks)).map Prod.fst = List.range (Streamed.tools blocks).length := by
  unfold Settled
  rw [← parts_entries, entries_message h, List.range_eq_range']
  exact ⟨tell_blocks (fun i hi => by cases hi) blocks (by omega), namings_blocks blocks (by omega)⟩

/-- The last usage is the one of the ending. -/
theorem usage_carries (h : Carries chunks (message blocks finish usage))
    (husage : usage.isObject = true) :
    chunks.foldl (fun usage chunk => (usageOf chunk).or usage) none = some usage := by
  obtain ⟨front, hfront⟩ : ∃ front, front = [Delta.role] ++ Streamed.deltas 0 blocks := ⟨_, rfl⟩
  have hmessage : message blocks finish usage = front ++ [.finish finish usage] := by
    rw [hfront, List.append_assoc]
    rfl
  rw [hmessage] at h
  obtain ⟨last, hlast⟩ : ∃ last, last = chunks.drop front.length := ⟨_, rfl⟩
  have hdrop := List.forall₂_drop_append chunks front [.finish finish usage] h
  rw [← hlast] at hdrop
  rw [← List.take_append_drop front.length chunks, ← hlast, List.foldl_append]
  cases hdrop with
  | cons hc hnil =>
    cases hnil
    obtain ⟨id, model, rfl⟩ := hc
    show (usageOf _).or _ = _
    have hindex : (Delta.chunk id model (.finish finish usage)).index "usage" = usage := by
      rw [ending_eq]
      simp [Value.index_ofMembers]
    rw [usageOf_eq (Or.inr (by rw [hindex]; exact husage)), hindex, if_pos husage]
    rfl

/-- What the fold makes of them. -/
theorem fold_carries (h : Carries chunks (message blocks finish usage))
    (hlength : (Streamed.tools blocks).length ≤ 2 ^ 64) (husage : usage.isObject = true) :
    (chunks.foldl Aggregate.onChunk .init).toAssembled =
      ⟨Streamed.texts blocks, (Streamed.tools blocks).map Tool.streamed, finish, some usage⟩ := by
  rw [h.foldl]
  exact Streamed.fold_message hlength finish husage

end

/-! ## A client of the Messages API -/

/-- A tool's block, as a client reads it. -/
def use (tool : Tool) : Value :=
  .ofMembers [("type", .string "tool_use"), ("id", .string tool.id), ("name", .string tool.name),
    ("input", tool.input)]

/-- A client reads what the blocks say. -/
structure Reads (blocks : List Streamed) (finish : String) (tokens : Value) (m : Retold.Message) :
    Prop where
  text : saidOf m.content = Streamed.texts blocks
  tools : toolsOf m.content = (Streamed.tools blocks).map use
  stopReason : m.stopReason = .string (fromFinish (some finish))
  tokens : m.outputTokens = tokens

/-- An input streamed as the empty text is the empty object to such a client. -/
theorem toolBlock_streamed {tool : Tool} (h : tool.WF) : toolBlock tool.streamed = use tool := by
  have hinput : (fromStr tool.text).getD (.object []) = tool.input := by
    rcases h with h | ⟨hempty, hinput⟩
    · rw [h]
      rfl
    · rw [hempty, hinput]
      rfl
  show Value.ofMembers [("type", .string "tool_use"), ("id", .string tool.id),
    ("name", .string tool.name), ("input", (fromStr tool.text).getD (.object []))] = _
  rw [hinput]
  rfl

section

variable {chunks : List Value} {blocks : List Streamed} {finish : String} {usage : Value}

theorem reads_stream (h : Carries chunks (message blocks finish usage))
    (hroom : (Streamed.deltas 0 blocks).length ≤ 2 ^ 64)
    (htools : ∀ t ∈ Streamed.tools blocks, t.WF) (husage : usage.isObject = true) {n : Nat}
    (htokens : (usage.index "completion_tokens").asU64 = some n) :
    Reads blocks finish (usage.index "completion_tokens")
      (retold (renderedFrames (.dialect .anthropic) chunks)) := by
  have hlength := (length_deltas 0 blocks).1.trans hroom
  have hparts : (parts chunks).length ≤ 2 ^ 64 := by
    rw [parts_message h]
    exact (length_deltas 0 blocks).2.trans hroom
  obtain ⟨hsettled, hindices⟩ := settled_carries h hlength
  obtain ⟨hstop, htotal⟩ := retold_end chunks
  have hfold := fold_carries h hlength husage
  have hcontent : (chunks.foldl Aggregate.onChunk .init).content = Streamed.texts blocks :=
    congrArg Assembled.content hfold
  have hcalls : (chunks.foldl Aggregate.onChunk .init).calls =
      (Streamed.tools blocks).map Tool.streamed := congrArg Assembled.calls hfold
  have hfinish : (chunks.foldl Aggregate.onChunk .init).finish = finish :=
    congrArg Assembled.finish hfold
  refine ⟨(retold_text hsettled hparts).trans hcontent, ?_, ?_, ?_⟩
  · rw [retold_tools hsettled hparts, hindices, hcalls]
    have hlength' : (Streamed.tools blocks).length =
        (((Streamed.tools blocks).map Tool.streamed).map toolBlock).length := by
      rw [List.length_map, List.length_map]
    rw [hlength', map_getD_range, List.map_map]
    exact List.map_congr_left fun t ht => toolBlock_streamed (htools t ht)
  · rw [hstop, ← hfinish, aggregate_finish]
    exact congrArg Value.string (fromFinish_stop _).symm
  · rw [htotal, usage_carries h husage, Option.bind_some, htokens, Anthropic.ofU64_of_asU64 htokens]
    rfl

theorem reads_whole (htools : ∀ t ∈ Streamed.tools blocks, t.WF) (id model : Value) :
    Reads blocks finish (usage.index "completion_tokens")
      (told (renderFor (.dialect .anthropic) (openAiCompletion id model
        (answerMessage (Streamed.texts blocks) ((Streamed.tools blocks).map Tool.value))
        finish usage))) := by
  have htold := told_answer (openAiCompletion id model
    (answerMessage (Streamed.texts blocks) ((Streamed.tools blocks).map Tool.value)) finish usage)
  rw [answer_openAiCompletion] at htold
  dsimp only at htold
  have htext : (nonEmptyStr (if Streamed.texts blocks = "" ∧
      (Streamed.tools blocks).map Tool.value ≠ [] then .null
      else .string (Streamed.texts blocks))).toList.map (fun text =>
        (Block.text text).value) =
      if Streamed.texts blocks = "" then [] else [(Block.text (Streamed.texts blocks)).value] := by
    by_cases hempty : Streamed.texts blocks = ""
    · rw [if_pos hempty, hempty]
      split <;> rfl
    · rw [if_neg hempty, if_neg (fun hnone => hempty hnone.1)]
      have hsome : nonEmptyStr (.string (Streamed.texts blocks)) =
          some (Streamed.texts blocks) := by
        simp [nonEmptyStr, Value.asStr, Option.filter, hempty]
      rw [hsome]
      rfl
  have hcalls : (((Streamed.tools blocks).map Tool.value).map callOf).map (fun call =>
      Value.ofMembers [("type", .string "tool_use"), ("id", call.id), ("name", call.name),
        ("input", (call.arguments.asStr.bind fromStr).getD (.object []))]) =
      ((Streamed.tools blocks).map Tool.streamed).map toolBlock := by
    rw [List.map_map, List.map_map, List.map_map]
    refine List.map_congr_left fun t ht => ?_
    show Value.ofMembers [("type", .string "tool_use"), ("id", (callOf t.value).id),
      ("name", (callOf t.value).name),
      ("input", ((callOf t.value).arguments.asStr.bind fromStr).getD (.object []))] =
        toolBlock t.streamed
    rw [t.callOf_value, toolBlock_streamed (htools t ht)]
    show Value.ofMembers [_, _, _, ("input", (fromStr (printText t.input)).getD (.object []))] = _
    rw [Tool.fromStr_input (htools t ht)]
    rfl
  rw [htext, hcalls] at htold
  unfold renderFor
  dsimp only
  rw [htold]
  refine ⟨saidOf_whole _ _, ?_, rfl, rfl⟩
  rw [toolsOf_whole, List.map_map]
  exact List.map_congr_left fun t ht => toolBlock_streamed (htools t ht)

end

/-! ## A client of the Responses API -/

/-- What a client takes from a call's item, its arguments parsed. -/
def callSaid (item : Value) : Value × Value × Option Value :=
  Call.parsed ⟨item.index "call_id", item.index "name", item.index "arguments"⟩

theorem callSaid_item (index : Nat) (call : String × String × String) :
    callSaid (entryItem (index, call)) =
      Call.parsed ⟨.string call.1, .string call.2.1, .string call.2.2⟩ := by
  simp [callSaid, entryItem, ChunksToResponses.callItem, Value.index_ofMembers]

/-- As the whole answer lists a call. -/
def listedCall (call : Call) (index : Nat) : Value :=
  .ofMembers [("type", .string "function_call"), ("id", .string ("fc_" ++ toString index)),
    ("call_id", call.id), ("name", call.name), ("arguments", call.arguments),
    ("status", .string "completed")]

theorem read_listedCall (call : Call) (index : Nat) : isCall (listedCall call index) = true ∧
    messageText (listedCall call index) = none ∧
      callSaid (listedCall call index) = call.parsed := by
  unfold isCall messageText callSaid listedCall
  simp [Value.index_ofMembers, Value.asStr]

theorem map_zipIdx_fst {α β : Type} (f : α → β) (xs : List α) (k : Nat) :
    (xs.zipIdx k).map (fun x => f x.1) = xs.map f := by
  have hfst : (fun x : α × Nat => f x.1) = f ∘ Prod.fst := rfl
  rw [hfst, ← List.map_map, List.zipIdx_map_fst]

section

variable {chunks : List Value} {blocks : List Streamed} {finish : String} {usage : Value}

/-- The last event of a stream lists the calls as their inputs were streamed. -/
theorem lists_stream (h : Carries chunks (message blocks finish usage))
    (hlength : (Streamed.tools blocks).length ≤ 2 ^ 64) (husage : usage.isObject = true) :
    ∃ output response, Moves .start (renderedFrames .responses chunks) (.ended output response) ∧
      Items.textOf output = Streamed.texts blocks ∧
      (Items.callsOf output).map callSaid = (Streamed.tools blocks).map (fun t =>
        Call.parsed ⟨.string t.id, .string t.name, .string t.text⟩) ∧
      response.index "usage" = responsesUsage usage := by
  obtain ⟨hsettled, hindices⟩ := settled_carries h hlength
  have hfold := fold_carries h hlength husage
  have hsome : chunks ≠ [] := by
    intro hnil
    rw [hnil] at h
    cases h
  obtain ⟨response, hmoves, -, hreported⟩ := items_streamed hsome
  refine ⟨_, response, hmoves, ?_, ?_, ?_⟩
  · have hcontent : (chunks.foldl Aggregate.onChunk .init).content = Streamed.texts blocks :=
      congrArg Assembled.content hfold
    rw [textOf_listed, ← hcontent, aggregate_content]
    exact said_parts (parts chunks) .init
  · have hcalls : callsOf (wholeItems (chunks.foldl Aggregate.onChunk .init).toAssembled) =
        ((Streamed.tools blocks).map Tool.streamed).zipIdx.map fun x => entryItem (x.2, x.1) := by
      rw [callsOf_whole, hfold]
    have hcount : (Streamed.tools blocks).length =
        (((Streamed.tools blocks).map Tool.streamed).zipIdx.map fun x =>
          entryItem (x.2, x.1)).length := by
      rw [List.length_map, List.length_zipIdx, List.length_map]
    have hindexed : (namings (parts chunks)).map (fun n => (callsOf (wholeItems
          (chunks.foldl Aggregate.onChunk .init).toAssembled)).getD n.1 .null) =
        ((namings (parts chunks)).map Prod.fst).map fun i => (callsOf (wholeItems
          (chunks.foldl Aggregate.onChunk .init).toAssembled)).getD i .null := by
      rw [List.map_map]
      rfl
    rw [calls_listed hsettled, hindexed, hindices, hcalls, hcount, map_getD_range, List.map_map]
    have hsaid : (callSaid ∘ fun x : (String × String × String) × Nat => entryItem (x.2, x.1)) =
        fun x => Call.parsed ⟨.string x.1.1, .string x.1.2.1, .string x.1.2.2⟩ :=
      funext fun x => callSaid_item x.2 x.1
    rw [hsaid]
    refine (map_zipIdx_fst (fun call : String × String × String =>
      Call.parsed ⟨.string call.1, .string call.2.1, .string call.2.2⟩) _ 0).trans ?_
    rw [List.map_map]
    rfl
  · rw [hreported, usage_carries h husage]
    rfl

/-- The whole answer lists them with their inputs printed. -/
theorem lists_whole (text : String) (tools : List Tool) (id model : Value) (finish : String)
    (usage : Value) :
    let response := renderFor .responses (openAiCompletion id model
      (answerMessage text (tools.map Tool.value)) finish usage)
    Items.textOf (elements (response.index "output")) = text ∧
      (Items.callsOf (elements (response.index "output"))).map callSaid =
        tools.map (fun t => t.whole.parsed) ∧
      response.index "usage" = responsesUsage usage := by
  unfold renderFor
  dsimp only
  have hanswer := answer_openAiCompletion id model text (tools.map Tool.value) finish usage
  have hcalls : (tools.map Tool.value).map callOf = tools.map Tool.whole := by
    rw [List.map_map]
    exact List.map_congr_left fun t _ => t.callOf_value
  rw [hcalls] at hanswer
  refine ⟨?_, ?_, ?_⟩
  · rw [output_answer, hanswer]
    show Items.textOf ((tools.map Tool.whole).zipIdx.map (fun x => listedCall x.1 x.2) ++ _) = _
    unfold Items.textOf
    rw [List.filterMap_append]
    have hnone : ((tools.map Tool.whole).zipIdx.map fun x => listedCall x.1 x.2).filterMap
        messageText = [] := by
      refine List.filterMap_eq_nil_iff.mpr fun item hitem => ?_
      obtain ⟨x, -, rfl⟩ := List.mem_map.mp hitem
      exact (read_listedCall x.1 x.2).2.1
    rw [hnone, List.nil_append]
    dsimp only
    by_cases hempty : text = ""
    · rw [hempty]
      split <;> rfl
    · have hsome : nonEmptyStr (.string text) = some text := by
        simp [nonEmptyStr, Value.asStr, Option.filter, hempty]
      rw [if_neg (fun hnone => hempty hnone.1), hsome]
      show String.join ([_].filterMap messageText) = text
      rw [List.filterMap_cons_some (read_message 0 text).2]
      simp
  · rw [output_answer, hanswer]
    show ((((tools.map Tool.whole).zipIdx.map (fun x => listedCall x.1 x.2) ++
      (nonEmptyStr _).toList.map fun text => ChunksToResponses.messageItem 0 "completed"
        [ChunksToResponses.outputText text])).filter isCall).map callSaid = _
    have htext : ((nonEmptyStr (if text = "" ∧ tools.map Tool.value ≠ [] then .null
        else .string text)).toList.map fun text => ChunksToResponses.messageItem 0 "completed"
          [ChunksToResponses.outputText text]).filter isCall = [] := by
      refine List.filter_eq_nil_iff.mpr fun item hitem => ?_
      obtain ⟨said, -, rfl⟩ := List.mem_map.mp hitem
      rw [(read_message 0 said).1]
      exact Bool.false_ne_true
    have hall : ((tools.map Tool.whole).zipIdx.map fun x => listedCall x.1 x.2).filter isCall =
        (tools.map Tool.whole).zipIdx.map fun x => listedCall x.1 x.2 := by
      refine List.filter_eq_self.mpr fun item hitem => ?_
      obtain ⟨x, -, rfl⟩ := List.mem_map.mp hitem
      exact (read_listedCall x.1 x.2).1
    rw [List.filter_append, htext, List.append_nil, hall, List.map_map]
    have hsaid : (callSaid ∘ fun x : Call × Nat => listedCall x.1 x.2) = fun x => x.1.parsed :=
      funext fun x => (read_listedCall x.1 x.2).2.2
    rw [hsaid, map_zipIdx_fst, List.map_map]
    rfl
  · rw [usage_answer, hanswer]

end

/-! ## Bedrock upstream -/

/-- What Bedrock's stream is translated to. -/
theorem bedrock_carries (model : String) {blocks : List Streamed} {body : Value}
    {events : List SseEvent} (h : Bedrock.Delivers blocks body events) :
    Carries (emitAll Bedrock.StreamToOpenAi.onEvent (.new model) events).2
      (message blocks (Bedrock.StreamToOpenAi.streamFinish (body.index "stopReason").asStr
        (decide (0 < (Streamed.tools blocks).length))) (Bedrock.usage (body.index "usage"))) := by
  obtain ⟨runs, hruns, hevents⟩ := h.events
  obtain ⟨reason, hreason⟩ : ∃ reason, reason = (body.index "stopReason").asStr := ⟨_, rfl⟩
  rw [Bedrock.StreamToOpenAi.onEvents_said, hevents, ← hreason]
  have hran := Bedrock.StreamToOpenAi.blocks_ran hruns
    (s := { Bedrock.StreamToOpenAi.new model with roleSent := true }) (n := 0) rfl
  obtain ⟨run, hrun⟩ : ∃ run, run = emitAll Bedrock.StreamToOpenAi.step
    { Bedrock.StreamToOpenAi.new model with roleSent := true } runs.flatten := ⟨_, rfl⟩
  rw [← hrun] at hran
  obtain ⟨hcarries, -, hsaw, -⟩ := hran
  have hsaw' : run.1.sawTools = decide (0 < (Streamed.tools blocks).length) := hsaw
  have hall : (emitAll Bedrock.StreamToOpenAi.step (.new model) (.messageStart :: (runs.flatten ++
      [.stop reason, .metadata (body.index "usage")]))).2 =
      [Delta.chunk "chatcmpl-bedrock" model .role] ++ (run.2 ++
        [Delta.chunk "chatcmpl-bedrock" run.1.model
          (.finish (Bedrock.StreamToOpenAi.streamFinish reason run.1.sawTools)
            (Bedrock.usage (body.index "usage")))]) := by
    show [Delta.chunk "chatcmpl-bedrock" model .role] ++ (emitAll Bedrock.StreamToOpenAi.step
      { Bedrock.StreamToOpenAi.new model with roleSent := true } (runs.flatten ++ _)).2 = _
    rw [emitAll_append, ← hrun]
    rfl
  rw [hall, ← hsaw']
  exact (carries_one "chatcmpl-bedrock" model .role).append
    (hcarries.append (carries_one "chatcmpl-bedrock" run.1.model _))

theorem fromFinish_bedrock {reason : Option String} {tools : List Tool} :
    fromFinish (some (Bedrock.StreamToOpenAi.streamFinish reason (decide (0 < tools.length)))) =
        fromFinish (some (Bedrock.wholeFinish reason)) ↔
      reason = some "tool_use" ∨ reason = some "max_tokens" ∨ tools = [] := by
  by_cases htool : reason = some "tool_use"
  · rw [htool]
    exact ⟨fun _ => Or.inl rfl, fun _ => rfl⟩
  by_cases hlength : reason = some "max_tokens"
  · rw [hlength]
    exact ⟨fun _ => Or.inr (Or.inl rfl), fun _ => rfl⟩
  have hwhole : fromFinish (some (Bedrock.wholeFinish reason)) = "end_turn" := by
    rw [Bedrock.wholeFinish_other htool hlength]
    by_cases hfiltered : reason = some "content_filtered"
    · rw [if_pos hfiltered]
      rfl
    · rw [if_neg hfiltered]
      rfl
  rw [hwhole, Bedrock.streamFinish_other htool hlength]
  cases tools with
  | nil => exact ⟨fun _ => Or.inr (Or.inr rfl), fun _ => rfl⟩
  | cons t tools =>
    constructor
    · intro heq
      exact absurd (show "tool_use" = "end_turn" from heq) (by decide)
    · rintro (h | h | h)
      · exact absurd h htool
      · exact absurd h hlength
      · cases h

/-! ## Anthropic upstream -/

/-- What Anthropic's stream is translated to. -/
theorem anthropic_carries (emulated : Bool) {blocks : List Streamed} {body : Value}
    {events : List SseEvent} (h : Anthropic.Delivers blocks body events) : ∃ input output,
      ((body.index "usage").index "input_tokens").asU64 = some input ∧
      ((body.index "usage").index "output_tokens").asU64 = some output ∧
      Carries (emitAll Anthropic.StreamToOpenAi.onEvent (.new emulated) events).2
        (message (blocks.map (Anthropic.seen emulated))
          (Anthropic.finishReason (body.index "stop_reason").asStr emulated)
          (Anthropic.StreamToOpenAi.usage input output)) := by
  obtain ⟨run, id, model, input, output, hrun, hinput, houtput, hevents⟩ := h.events
  refine ⟨input, output, hinput, houtput, ?_⟩
  obtain ⟨reason, hreason⟩ : ∃ reason, reason = (body.index "stop_reason").asStr := ⟨_, rfl⟩
  rw [← hreason] at hevents ⊢
  obtain ⟨s, hs⟩ : ∃ s : Anthropic.StreamToOpenAi, s = { Anthropic.StreamToOpenAi.new emulated with
      id := id, model := model, inputTokens := input, roleSent := true } := ⟨_, rfl⟩
  have hran := Anthropic.StreamToOpenAi.blocks_ran hrun (s := s) (n := 0) (by rw [hs]; rfl)
    (by rw [hs]; exact fun _ _ => rfl)
  obtain ⟨last, hlast⟩ : ∃ last, last = emitAll Anthropic.StreamToOpenAi.step s run := ⟨_, rfl⟩
  rw [← hlast] at hran
  obtain ⟨hcarries, -, -, hcount, hemulated⟩ := hran
  have hsame : s.emulated = emulated := by rw [hs]; rfl
  have htokens : s.inputTokens = input := by rw [hs]
  rw [hsame] at hcarries hemulated
  rw [htokens] at hcount
  have hall : (emitAll Anthropic.StreamToOpenAi.onEvent (.new emulated) events).2 =
      [Delta.chunk id model .role] ++ (last.2 ++ [Delta.chunk last.1.id last.1.model
        (.finish (Anthropic.finishReason reason emulated)
          (Anthropic.StreamToOpenAi.usage input output))]) := by
    rw [Anthropic.StreamToOpenAi.onEvents_said, hevents]
    show [Delta.chunk id model .role] ++ (emitAll Anthropic.StreamToOpenAi.step
      { Anthropic.StreamToOpenAi.new emulated with
        id := id, model := model, inputTokens := input, roleSent := true } (run ++ _)).2 = _
    rw [← hs, emitAll_append, ← hlast, ← hemulated, ← hcount]
    rfl
  rw [hall]
  exact (carries_one id model .role).append
    (hcarries.append (carries_one last.1.id last.1.model _))

end Relayed

open Relayed

/-- A client of the Responses API reads a stream of Anthropic's as it reads the
message that the stream delivers: the text when the input that stands for a JSON
schema is streamed as it is printed, and the calls when none of their inputs is
streamed as the empty text. -/
theorem anthropic_relayed (emulated : Bool) {blocks : List Streamed} {body : Value}
    {events : List SseEvent} (h : Anthropic.Delivers blocks body events)
    (hlength : (Streamed.tools (blocks.map (Anthropic.seen emulated))).length ≤ 2 ^ 64) :
    let whole := renderFor .responses (Anthropic.responseToOpenAi body emulated)
    ∃ output response,
      Moves .start (renderedFrames .responses
          (emitAll Anthropic.StreamToOpenAi.onEvent (.new emulated) events).2)
        (.ended output response) ∧
      (Items.textOf output = Items.textOf (elements (whole.index "output")) ↔
        Streamed.texts (blocks.map (Anthropic.seen emulated)) =
          Anthropic.wholeText emulated blocks) ∧
      ((Items.callsOf output).map callSaid =
          (Items.callsOf (elements (whole.index "output"))).map callSaid ↔
        ∀ t ∈ Streamed.tools (blocks.map (Anthropic.seen emulated)), t.text ≠ "") ∧
      response.index "usage" = whole.index "usage" := by
  obtain ⟨inputTokens, outputTokens, hinput, houtput, hcarries⟩ := anthropic_carries emulated h
  have htools : ∀ t ∈ Streamed.tools (blocks.map (Anthropic.seen emulated)), t.WF := fun t ht =>
    h.tools t (Anthropic.mem_tools_seen ht)
  have hblocks := Anthropic.whole_blocks emulated h.content ("", [])
  rw [String.empty_append, List.nil_append] at hblocks
  obtain ⟨output, response, hmoves, htext, hcalls, husage⟩ := lists_stream hcarries hlength rfl
  have hwhole := lists_whole (Anthropic.wholeText emulated blocks)
    (Streamed.tools (blocks.map (Anthropic.seen emulated))) (body.index "id") (body.index "model")
    (Anthropic.finishReason (body.index "stop_reason").asStr emulated)
    (Anthropic.StreamToOpenAi.usage inputTokens outputTokens)
  have hbody : Anthropic.responseToOpenAi body emulated =
      openAiCompletion (body.index "id") (body.index "model")
        (answerMessage (Anthropic.wholeText emulated blocks)
          ((Streamed.tools (blocks.map (Anthropic.seen emulated))).map Tool.value))
        (Anthropic.finishReason (body.index "stop_reason").asStr emulated)
        (Anthropic.StreamToOpenAi.usage inputTokens outputTokens) := by
    unfold Anthropic.responseToOpenAi
    rw [hblocks]
    dsimp only
    rw [hinput, houtput, Anthropic.ofU64_of_asU64 hinput, Anthropic.ofU64_of_asU64 houtput]
    rfl
  rw [← hbody] at hwhole
  intro whole
  refine ⟨output, response, hmoves, ?_, ?_, husage.trans hwhole.2.2.symm⟩
  · rw [htext, hwhole.1]
  · rw [hcalls, hwhole.2.1]
    exact Streamed.parsed_iff htools

theorem anthropic_relayed_tool :
    let whole := renderFor .responses (Anthropic.responseToOpenAi Anthropic.toolMessage false)
    ∃ output response,
      Moves .start (renderedFrames .responses (emitAll Anthropic.StreamToOpenAi.onEvent (.new false)
          (Anthropic.toolEvents ["\x7b", "\x7d"])).2) (.ended output response) ∧
      Items.textOf output = Items.textOf (elements (whole.index "output")) ∧
      (Items.callsOf output).map callSaid =
        (Items.callsOf (elements (whole.index "output"))).map callSaid ∧
      response.index "usage" = whole.index "usage" := by
  obtain ⟨output, response, hmoves, htext, hcalls, husage⟩ := anthropic_relayed false
    (Anthropic.delivers_toolEvents (t := ⟨"t", "f", .object [], ["\x7b", "\x7d"]⟩)
      (Or.inl rfl) rfl rfl rfl rfl) (by decide)
  exact ⟨output, response, hmoves, htext.mpr rfl, hcalls.mpr (by decide), husage⟩

/-- A client of the Messages API reads a stream of Bedrock's as it reads the whole
response that the stream delivers. The reason for stopping is the same unless
tools were used and Bedrock gives another reason. -/
theorem bedrock_relayed (model : String) {blocks : List Streamed} {body : Value}
    {events : List SseEvent} (h : Bedrock.Delivers blocks body events)
    (hroom : (Streamed.deltas 0 blocks).length ≤ 2 ^ 64) {n : Nat}
    (htokens : ((body.index "usage").index "outputTokens").asU64 = some n) :
    let streamed := retold (renderedFrames (.dialect .anthropic)
      (emitAll Bedrock.StreamToOpenAi.onEvent (.new model) events).2)
    let whole := told (renderFor (.dialect .anthropic) (Bedrock.responseToOpenAi body model))
    (saidOf streamed.content = Streamed.texts blocks ∧
        toolsOf streamed.content = (Streamed.tools blocks).map use) ∧
      saidOf streamed.content = saidOf whole.content ∧
      toolsOf streamed.content = toolsOf whole.content ∧
      streamed.outputTokens = whole.outputTokens ∧
      (streamed.stopReason = whole.stopReason ↔ (body.index "stopReason").asStr = some "tool_use" ∨
        (body.index "stopReason").asStr = some "max_tokens" ∨ Streamed.tools blocks = []) := by
  obtain ⟨htexts, hcalls⟩ := Bedrock.whole_blocks h.content
  have hcompletion : (Bedrock.usage (body.index "usage")).index "completion_tokens" =
      (body.index "usage").index "outputTokens" := by
    simp [Bedrock.usage, Value.index_ofMembers]
  have hstream := reads_stream (bedrock_carries model h) hroom h.tools rfl
    (hcompletion ▸ htokens)
  have hwhole : Reads blocks (Bedrock.wholeFinish (body.index "stopReason").asStr)
      ((Bedrock.usage (body.index "usage")).index "completion_tokens")
      (told (renderFor (.dialect .anthropic) (Bedrock.responseToOpenAi body model))) := by
    unfold Bedrock.responseToOpenAi
    rw [htexts, hcalls]
    exact reads_whole h.tools _ _
  refine ⟨⟨hstream.text, hstream.tools⟩, ?_, ?_, ?_, ?_⟩
  · exact hstream.text.trans hwhole.text.symm
  · exact hstream.tools.trans hwhole.tools.symm
  · exact hstream.tokens.trans hwhole.tokens.symm
  · rw [← fromFinish_bedrock, ← Value.string.injEq, hstream.stopReason, hwhole.stopReason]

namespace Relayed

def toolUseBlock : Value :=
  .ofMembers [("toolUse", .ofMembers [("toolUseId", .string "t"), ("name", .string "f"),
    ("input", .object [])])]

/-- A text, and a call whose input is streamed without a fragment. -/
def textAndTool : Value :=
  .ofMembers [("output", .ofMembers [("message", .ofMembers [("content",
      .array [Bedrock.textBlock, toolUseBlock])])]),
    ("stopReason", .string "tool_use"), ("usage", .ofMembers [("outputTokens", .ofU64 3)])]

def textAndToolEvents : List RapidRouter.Core.SseEvent :=
  [sseEvent "messageStart" (.ofMembers []),
    sseEvent "contentBlockDelta" (.ofMembers [("delta", Bedrock.textBlock)]),
    sseEvent "contentBlockStart"
      (.ofMembers [("start", toolUseBlock), ("contentBlockIndex", .ofU64 1)]),
    sseEvent "messageStop" (.ofMembers [("stopReason", .string "tool_use")]),
    sseEvent "metadata" (.ofMembers [("usage", .ofMembers [("outputTokens", .ofU64 3)])])]

theorem delivers_textAndTool : Bedrock.Delivers [.text ["a"], .tool ⟨"t", "f", .object [], []⟩]
    textAndTool textAndToolEvents where
  tools := fun _ ht => List.mem_singleton.mp ht ▸ Or.inr ⟨rfl, rfl⟩
  content := .cons (.text rfl rfl) (.cons (.tool rfl rfl rfl rfl rfl) .nil)
  events := ⟨[_, _], .cons (.text ["a"]) (.cons (.tool _ 1) .nil), rfl⟩

end Relayed

theorem bedrock_relayed_textAndTool :
    let streamed := retold (renderedFrames (.dialect .anthropic)
      (emitAll Bedrock.StreamToOpenAi.onEvent (.new "m") textAndToolEvents).2)
    let whole := told (renderFor (.dialect .anthropic) (Bedrock.responseToOpenAi textAndTool "m"))
    saidOf streamed.content = "a" ∧ toolsOf streamed.content = toolsOf whole.content ∧
      streamed.stopReason = whole.stopReason := by
  obtain ⟨⟨htext, -⟩, -, htools, -, hstop⟩ :=
    bedrock_relayed "m" delivers_textAndTool (by decide) (n := 3) rfl
  exact ⟨htext, htools, hstop.mpr (Or.inl rfl)⟩

end RapidRouter.Providers
