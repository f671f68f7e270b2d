import RapidRouter.Providers.Gemini
import RapidRouter.Usage.Meter
import RapidRouter.Usage.Survives

/-!
# Function calls delivered to a Gemini client

A client of Gemini is sent whole calls, so `OpenAiToGeminiStream` holds a call
back until its fragments parse. Nothing is sent at the end of a stream: a call
whose fragments never parse, one without any among them, is not sent at all. A
call that is sent is sent once, and with all of its arguments, since an object
that is complete is not the beginning of another (`parse_cut`).
`delivered_iff` says which streams are delivered as they should be.
-/

namespace RapidRouter.Providers.GeminiCalls

open Json Emit OpenAiToGeminiStream Usage.Gemini

/-! ## What a stream says -/

/-- The text of a chunk, when there is one. -/
def textDelta (chunk : Value) : Option String :=
  nonEmptyStr (((firstChoice chunk).index "delta").index "content")

/-- The pieces of one call. -/
def piecesOf (i : Nat) (chunks : List Value) : List Value :=
  (callsIn chunks).filter fun call => toolIndex call = i

/-- The names that a call is given. -/
def namesOf (i : Nat) (chunks : List Value) : List String :=
  (piecesOf i chunks).filterMap fun call => nonEmptyStr ((call.index "function").index "name")

/-- The fragments of a call's arguments, put together. -/
def argumentsText (i : Nat) (chunks : List Value) : String :=
  String.join ((piecesOf i chunks).map fun call =>
    (((call.index "function").index "arguments").asStr).getD "")

def Named (i : Nat) (chunks : List Value) : Prop := ∃ name, name ∈ namesOf i chunks

/-- The text is of a JSON object. -/
def Whole (text : String) : Prop := ∃ v, fromStr text = some v ∧ v.isObject = true

/-- What a text says the arguments are, none being the empty object. -/
def Denotes (text : String) (v : Value) : Prop :=
  (text = "" ∧ v = .object []) ∨ (fromStr text = some v ∧ v.isObject = true)

/-! ## What a client is sent -/

/-- The parts of a frame. -/
def frameParts : SseFrame → List Value
  | .data v => Providers.Gemini.partsOf (Providers.Gemini.candidate v)
  | _ => []

def partText (part : Value) : Option String := (part.get? "text").bind Value.asStr

/-- The name and the arguments of a call. -/
def partCall (part : Value) : Option (String × Value) :=
  (part.get? "functionCall").bind fun call =>
    (call.get? "name").bind fun name => name.asStr.map fun name => (name, call.index "args")

/-- The texts in order, and every call that has a name once: under a name it was
given, with the object its fragments denote. -/
structure Delivered (chunks : List Value) (parts : List Value) : Prop where
  texts : parts.filterMap partText = chunks.filterMap textDelta
  calls : ∃ sent : List (Nat × String × Value), (sent.map Prod.fst).Nodup ∧
    (∀ i, i ∈ sent.map Prod.fst ↔ Named i chunks) ∧
    (∀ e ∈ sent, e.2.1 ∈ namesOf e.1 chunks ∧ Denotes (argumentsText e.1 chunks) e.2.2) ∧
    parts.filterMap partCall = sent.map Prod.snd

/-! ## Names and arguments -/

theorem entryOf_arguments (i : Nat) (chunks : List Value) :
    (entryOf i (callsIn chunks)).2 = argumentsText i chunks := by
  have hfold : ∀ (pieces : List Value) (entry : String × String),
      (pieces.foldl extend entry).2 = entry.2 ++ String.join (pieces.map fun call =>
        (((call.index "function").index "arguments").asStr).getD "") := by
    intro pieces
    induction pieces with
    | nil =>
      intro entry
      exact String.append_empty.symm
    | cons call rest ih =>
      intro entry
      rw [List.foldl_cons, ih, List.map_cons, String.join_cons, ← String.append_assoc]
      rfl
  exact (hfold _ _).trans String.empty_append

/-- A name that is not blank is one that was given. -/
theorem entryOf_name {i : Nat} {chunks : List Value} (h : (entryOf i (callsIn chunks)).1 ≠ "") :
    (entryOf i (callsIn chunks)).1 ∈ namesOf i chunks := by
  have hfold : ∀ (pieces : List Value) (entry : String × String),
      (pieces.foldl extend entry).1 = "" ∨ (pieces.foldl extend entry).1 = entry.1 ∨
        (pieces.foldl extend entry).1 ∈
          pieces.filterMap fun call => nonEmptyStr ((call.index "function").index "name") := by
    intro pieces
    induction pieces with
    | nil => exact fun entry => .inr (.inl rfl)
    | cons call rest ih =>
      intro entry
      rw [List.foldl_cons]
      rcases ih (extend entry call) with hblank | hsame | hmem
      · exact .inl hblank
      · cases hname : ((call.index "function").index "name").asStr with
        | none =>
          refine .inr (.inl (hsame.trans ?_))
          unfold extend
          rw [hname]
          rfl
        | some name =>
          have hextend : (extend entry call).1 = name := by
            unfold extend
            rw [hname]
            rfl
          by_cases hblank : name = ""
          · exact .inl (hsame.trans (hextend.trans hblank))
          · have hread : nonEmptyStr ((call.index "function").index "name") = some name := by
              unfold nonEmptyStr
              rw [hname]
              exact Option.filter_some_pos (decide_eq_true hblank)
            rw [hsame, hextend]
            exact .inr (.inr (List.mem_filterMap.mpr ⟨call, List.mem_cons_self, hread⟩))
      · refine .inr (.inr ?_)
        rw [List.filterMap_cons]
        cases nonEmptyStr ((call.index "function").index "name") with
        | none => exact hmem
        | some name => exact List.mem_cons_of_mem _ hmem
  rcases hfold (piecesOf i chunks) ("", "") with hblank | hblank | hmem
  · exact absurd hblank h
  · exact absurd hblank h
  · exact hmem

theorem piecesOf_append (i : Nat) (earlier later : List Value) :
    piecesOf i (earlier ++ later) = piecesOf i earlier ++ piecesOf i later := by
  unfold piecesOf callsIn
  rw [List.flatMap_append, List.filter_append]

theorem namesOf_mono {i : Nat} {earlier chunks : List Value} (h : earlier <+: chunks)
    {name : String} (hname : name ∈ namesOf i earlier) : name ∈ namesOf i chunks := by
  obtain ⟨later, rfl⟩ := h
  unfold namesOf
  rw [piecesOf_append, List.filterMap_append]
  exact List.mem_append_left _ hname

theorem argumentsText_mono {i : Nat} {earlier chunks : List Value} (h : earlier <+: chunks) :
    ∃ rest, argumentsText i chunks = argumentsText i earlier ++ rest := by
  obtain ⟨later, rfl⟩ := h
  refine ⟨argumentsText i later, ?_⟩
  unfold argumentsText
  rw [piecesOf_append, List.map_append, String.join_append]

/-- Arguments that were complete before all of them were there are all of them,
when they are an object. -/
theorem parsed_cut {text rest : String} {v w : Value} (h : parsed text = some w)
    (hall : fromStr (text ++ rest) = some v) (hv : v.isObject = true) : w = v := by
  have htext : fromStr text = some w := by
    unfold parsed at h
    split at h
    · cases h
    · exact h
  obtain ⟨r, hr, hw⟩ := Option.bind_eq_some_iff.mp htext
  unfold fromStr at hall
  rw [utf8_append] at hall
  obtain ⟨r', hr', hv'⟩ := Option.bind_eq_some_iff.mp hall
  have hsame := parse_cut hr hr' (Usage.isObject_of_toValue hv' hv)
  subst hsame
  exact Option.some.inj (hw.symm.trans hv')

/-! ## What is sent with a chunk -/

/-- The entries that are sent, with their arguments. -/
def flushed (emitted : Finset Nat) (entries : List (Nat × String × String)) :
    List (Nat × String × Value) :=
  entries.filterMap fun entry =>
    if entry.1 ∈ emitted ∨ entry.2.1 = "" then none
    else (parsed entry.2.2).map fun args => (entry.1, entry.2.1, args)

theorem flushed_cons (emitted : Finset Nat) (entry : Nat × String × String)
    (rest : List (Nat × String × String)) : flushed emitted (entry :: rest) =
      (if entry.1 ∈ emitted ∨ entry.2.1 = "" then none
        else (parsed entry.2.2).map fun args => (entry.1, entry.2.1, args)).toList ++
        flushed emitted rest := by
  unfold flushed
  rw [List.filterMap_cons]
  split
  · next hnone =>
    rw [hnone]
    rfl
  · next e hsome =>
    rw [hsome]
    rfl

/-- An index that is sent now is none of the later ones. -/
theorem flushed_insert {i : Nat} {rest : List (Nat × String × String)}
    (h : i ∉ rest.map Prod.fst) (emitted : Finset Nat) :
    flushed (insert i emitted) rest = flushed emitted rest := by
  unfold flushed
  apply List.filterMap_congr
  intro entry hentry
  have hne : entry.1 ≠ i := by
    rintro rfl
    exact h (List.mem_map_of_mem hentry)
  have hmem : entry.1 ∈ insert i emitted ↔ entry.1 ∈ emitted := by
    rw [Finset.mem_insert]
    exact or_iff_right hne
  simp only [hmem]

theorem flush_eq : ∀ {entries : List (Nat × String × String)} (emitted : Finset Nat),
    (entries.map Prod.fst).Nodup →
    (emitAll flushCall emitted entries).2 =
      (flushed emitted entries).map fun e => callPart e.2.1 e.2.2 := by
  intro entries
  induction entries with
  | nil => exact fun _ _ => rfl
  | cons entry rest ih =>
    intro emitted hnodup
    obtain ⟨hfresh, hrest⟩ := List.nodup_cons.mp hnodup
    have hstep : (emitAll flushCall emitted (entry :: rest)).2 =
        (flushCall emitted entry).2 ++ (emitAll flushCall (flushCall emitted entry).1 rest).2 := rfl
    rw [hstep, ih _ hrest, flushed_cons, List.map_append]
    obtain ⟨i, name, args⟩ := entry
    unfold flushCall
    dsimp only
    by_cases hskip : i ∈ emitted ∨ name = ""
    · rw [if_pos hskip, if_pos hskip]
      rfl
    · rw [if_neg hskip, if_neg hskip]
      cases parsed args with
      | none => rfl
      | some v =>
        dsimp only
        rw [flushed_insert hfresh]
        rfl

theorem mem_flushed {emitted : Finset Nat} {entries : List (Nat × String × String)}
    {e : Nat × String × Value} : e ∈ flushed emitted entries ↔
      ∃ entry ∈ entries, entry.1 ∉ emitted ∧ Ready entry e.2.2 ∧ e.1 = entry.1 ∧
        e.2.1 = entry.2.1 := by
  unfold flushed
  rw [List.mem_filterMap]
  refine exists_congr fun entry => and_congr_right fun _ => ?_
  unfold Ready
  obtain ⟨i, name, args⟩ := e
  split
  · next hskip =>
    constructor
    · intro h
      cases h
    · rintro ⟨hnew, ⟨hname, -⟩, -⟩
      exact absurd hskip (not_or.mpr ⟨hnew, hname⟩)
  · next hkeep =>
    rw [not_or] at hkeep
    rw [Option.map_eq_some_iff]
    constructor
    · rintro ⟨v, hv, heq⟩
      cases heq
      exact ⟨hkeep.1, ⟨hkeep.2, hv⟩, rfl, rfl⟩
    · rintro ⟨-, ⟨-, hv⟩, hi, hname⟩
      dsimp only at hi hname hv
      subst hi hname
      exact ⟨args, hv, rfl⟩

theorem nodup_flushed {emitted : Finset Nat} {entries : List (Nat × String × String)}
    (h : (entries.map Prod.fst).Nodup) : ((flushed emitted entries).map Prod.fst).Nodup := by
  have hsub : ((flushed emitted entries).map Prod.fst).Sublist (entries.map Prod.fst) := by
    induction entries with
    | nil => exact List.Sublist.refl _
    | cons entry rest ih =>
      have hrest := ih (List.nodup_cons.mp h).2
      rw [flushed_cons, List.map_append, List.map_cons]
      split
      · exact hrest.cons _
      · cases parsed entry.2.2 with
        | none => exact hrest.cons _
        | some v => exact hrest.cons_cons _
  exact hsub.nodup h

/-! ## What a frame is read as -/

theorem frameParts_streamChunk (parts : List Value) (chunk : Value) (finish : Option String) :
    frameParts (.data (streamChunk parts chunk finish)) = parts := by
  have hcandidate : Providers.Gemini.candidate (streamChunk parts chunk finish) = .ofMembers ([
      ("content", .ofMembers [("role", .string "model"), ("parts", .array parts)]),
      ("index", .ofU64 0)] ++
        finish.toList.map fun finish => ("finishReason", .string finish)) := by
    unfold Providers.Gemini.candidate streamChunk
    dsimp only
    rw [Value.index_ofMembers]
    cases finish with
    | none => rfl
    | some reason => cases usageOf chunk <;> rfl
  show Providers.Gemini.partsOf (Providers.Gemini.candidate _) = parts
  rw [hcandidate]
  unfold Providers.Gemini.partsOf
  cases finish <;> simp [Value.index_ofMembers, elements, Value.asArray]

theorem partText_text (text : String) : partText (.ofMembers [("text", .string text)]) = some text :=
  rfl

theorem partCall_text (text : String) : partCall (.ofMembers [("text", .string text)]) = none := rfl

theorem partText_call (name : String) (args : Value) : partText (callPart name args) = none := rfl

theorem partCall_call (name : String) (args : Value) :
    partCall (callPart name args) = some (name, args) := by
  simp [partCall, callPart, Value.get?_ofMembers, Value.index_ofMembers, Value.asStr]

theorem filterMap_partText (texts : List String) :
    (texts.map fun text => Value.ofMembers [("text", .string text)]).filterMap partText = texts := by
  rw [List.filterMap_map]
  exact List.filterMap_some

theorem filterMap_partCall_texts (texts : List String) :
    (texts.map fun text => Value.ofMembers [("text", .string text)]).filterMap partCall = [] := by
  rw [List.filterMap_map]
  exact List.filterMap_eq_nil_iff.mpr fun text _ => partCall_text text

theorem filterMap_partText_calls (calls : List (Nat × String × Value)) :
    (calls.map fun e => callPart e.2.1 e.2.2).filterMap partText = [] := by
  rw [List.filterMap_map]
  exact List.filterMap_eq_nil_iff.mpr fun e _ => partText_call e.2.1 e.2.2

theorem filterMap_partCall (calls : List (Nat × String × Value)) :
    (calls.map fun e => callPart e.2.1 e.2.2).filterMap partCall = calls.map Prod.snd := by
  rw [List.filterMap_map, ← List.filterMap_eq_map]
  apply List.filterMap_congr
  intro e _
  exact partCall_call e.2.1 e.2.2

/-- The parts of what is sent with a chunk. -/
theorem onChunk_parts (s : OpenAiToGeminiStream) (chunk : Value) :
    (s.onChunk chunk).2.flatMap frameParts = partsOf s chunk := by
  rw [onChunk_eq]
  dsimp only
  split
  · next hnone =>
    have hempty : (partsOf s chunk).isEmpty = true := (Bool.and_eq_true_iff.mp hnone).1
    exact (List.isEmpty_iff.mp hempty).symm
  · rw [List.flatMap_singleton, frameParts_streamChunk]

theorem partsOf_eq (s : OpenAiToGeminiStream) (chunk : Value) :
    partsOf s chunk = (textDelta chunk).toList.map (fun text => .ofMembers [("text", .string text)]) ++
      (flushed s.emitted (buffered s chunk).pending.entries).map fun e => callPart e.2.1 e.2.2 := by
  rw [← flush_eq s.emitted (buffered s chunk).pending.nodup_keys]
  rfl

/-! ## Runs -/

/-- The calls sent so far, each with the index it came under. -/
structure Sent (s : OpenAiToGeminiStream) (chunks : List Value) (sent : List (Nat × String × Value)) :
    Prop where
  follows : Follows s chunks
  nodup : (sent.map Prod.fst).Nodup
  written : ∀ i, i ∈ sent.map Prod.fst ↔ Written i chunks
  complete : ∀ e ∈ sent, ∃ earlier, earlier <+: chunks ∧
    (entryOf e.1 (callsIn earlier)).1 = e.2.1 ∧ Completes e.1 (callsIn earlier) e.2.2

theorem sent_onChunk {s : OpenAiToGeminiStream} {before : List Value}
    {sent : List (Nat × String × Value)} (h : Sent s before sent) (chunk : Value) :
    Sent (s.onChunk chunk).1 (before ++ [chunk])
      (sent ++ flushed s.emitted (buffered s chunk).pending.entries) := by
  have hnew : ∀ e ∈ flushed s.emitted (buffered s chunk).pending.entries,
      e.1 ∉ s.emitted ∧ (entryOf e.1 (callsIn (before ++ [chunk]))).1 = e.2.1 ∧
        Completes e.1 (callsIn (before ++ [chunk])) e.2.2 := by
    intro e he
    obtain ⟨entry, hentry, hfresh, hready, hi, hname⟩ := mem_flushed.mp he
    have hpending := buffered_pending h.follows chunk entry.1
    rw [OrdMap.mem_entries.mp hentry] at hpending
    rw [hi, hname]
    refine ⟨hfresh, congrArg Prod.fst hpending.symm, ?_⟩
    exact (ready_iff_completes h.follows chunk entry.1 e.2.2).mp ⟨entry, hentry, rfl, hready⟩
  refine ⟨onChunk_follows h.follows chunk, ?_, ?_, ?_⟩
  · rw [List.map_append]
    refine h.nodup.append (nodup_flushed (buffered s chunk).pending.nodup_keys) ?_
    intro i hold hlater
    obtain ⟨e, he, rfl⟩ := List.mem_map.mp hlater
    exact (hnew e he).1 ((h.follows.emitted _).mpr ((h.written _).mp hold))
  · intro i
    rw [List.map_append, List.mem_append, h.written, written_concat]
    constructor
    · rintro (hold | hlater)
      · exact .inl hold
      · obtain ⟨e, he, rfl⟩ := List.mem_map.mp hlater
        exact .inr ⟨e.2.2, (hnew e he).2.2⟩
    · rintro (hold | ⟨args, hcomplete⟩)
      · exact .inl hold
      · by_cases hold : Written i before
        · exact .inl hold
        · right
          obtain ⟨entry, hentry, rfl, hready⟩ :=
            (ready_iff_completes h.follows chunk i args).mpr hcomplete
          refine List.mem_map.mpr ⟨(entry.1, entry.2.1, args), mem_flushed.mpr ?_, rfl⟩
          exact ⟨entry, hentry, fun hin => hold ((h.follows.emitted _).mp hin), hready, rfl, rfl⟩
  · intro e he
    rcases List.mem_append.mp he with hold | hlater
    · obtain ⟨earlier, hprefix, hcomplete⟩ := h.complete e hold
      exact ⟨earlier, hprefix.trans (List.prefix_append _ _), hcomplete⟩
    · exact ⟨before ++ [chunk], List.prefix_rfl, (hnew e hlater).2⟩

theorem sent_run : ∀ (chunks : List Value) {s : OpenAiToGeminiStream} {before : List Value}
    {sent : List (Nat × String × Value)}, Sent s before sent →
    ∃ later, Sent (emitAll onChunk s chunks).1 (before ++ chunks) (sent ++ later) ∧
      ((emitAll onChunk s chunks).2.flatMap frameParts).filterMap partText =
        chunks.filterMap textDelta ∧
      ((emitAll onChunk s chunks).2.flatMap frameParts).filterMap partCall =
        later.map Prod.snd := by
  intro chunks
  induction chunks with
  | nil =>
    intro s before sent h
    refine ⟨[], ?_, rfl, rfl⟩
    rw [List.append_nil, List.append_nil]
    exact h
  | cons chunk rest ih =>
    intro s before sent h
    obtain ⟨later, hsent, htexts, hcalls⟩ := ih (sent_onChunk h chunk)
    rw [List.append_assoc, List.append_assoc] at hsent
    refine ⟨_, hsent, ?_, ?_⟩
    · show (((s.onChunk chunk).2 ++ _).flatMap frameParts).filterMap partText = _
      rw [List.flatMap_append, List.filterMap_append, htexts, onChunk_parts, partsOf_eq,
        List.filterMap_append, filterMap_partText, filterMap_partText_calls, List.append_nil,
        List.filterMap_cons]
      cases textDelta chunk <;> rfl
    · show (((s.onChunk chunk).2 ++ _).flatMap frameParts).filterMap partCall = _
      rw [List.flatMap_append, List.filterMap_append, hcalls, onChunk_parts, partsOf_eq,
        List.filterMap_append, filterMap_partCall_texts, filterMap_partCall, List.nil_append,
        List.map_append]

/-! ## What a client is sent -/

/-- The parts that a client of Gemini is sent. -/
def clientParts (chunks : List Value) : List Value :=
  (renderedFrames (.dialect .gemini) chunks).flatMap frameParts

theorem clientParts_eq (chunks : List Value) :
    clientParts chunks = (emitAll onChunk .new chunks).2.flatMap frameParts := by
  have hwrap : emitAll InboundStream.onChunk (.gemini .new) chunks =
      (.gemini (emitAll onChunk .new chunks).1, (emitAll onChunk .new chunks).2) :=
    emitAll_wrap (fun _ _ => rfl) _ chunks
  have hframes : renderedFrames (.dialect .gemini) chunks = (emitAll onChunk .new chunks).2 := by
    have hnew : InboundStream.newFor (.dialect .gemini) = .gemini .new := rfl
    rw [renderedFrames_eq, hnew, hwrap]
    exact List.append_nil _
  unfold clientParts
  rw [hframes]

theorem sent_new : Sent .new [] [] where
  follows := new_follows
  nodup := List.nodup_nil
  written := by
    intro i
    refine ⟨fun h => absurd h List.not_mem_nil, ?_⟩
    rintro ⟨earlier, hprefix, args, hcomplete⟩
    rw [List.prefix_nil.mp hprefix] at hcomplete
    exact absurd rfl hcomplete.1
  complete := fun e he => absurd he List.not_mem_nil

theorem named_of_written {i : Nat} {chunks : List Value} (h : Written i chunks) : Named i chunks := by
  obtain ⟨earlier, hprefix, args, hcomplete⟩ := h
  exact ⟨_, namesOf_mono hprefix (entryOf_name hcomplete.1)⟩

/-- Arguments that parsed at some point are not none. -/
theorem argumentsText_ne {i : Nat} {chunks : List Value} (h : Written i chunks) :
    argumentsText i chunks ≠ "" := by
  obtain ⟨earlier, hprefix, args, -, hparsed⟩ := h
  obtain ⟨rest, hrest⟩ := argumentsText_mono (i := i) hprefix
  intro hempty
  rw [hempty] at hrest
  rw [entryOf_arguments, (String.append_eq_empty_iff.mp hrest.symm).1] at hparsed
  cases hparsed

/-- **Calls of a stream for a Gemini client.** They are delivered exactly when the
fragments of every call that has a name make an object, and the call still has one
at a point where they do. -/
theorem delivered_iff (chunks : List Value) :
    Delivered chunks (clientParts chunks) ↔
      ∀ i, Named i chunks → Whole (argumentsText i chunks) ∧ Written i chunks := by
  obtain ⟨sent, hsent, htexts, hcalls⟩ := sent_run chunks sent_new
  rw [List.nil_append, List.nil_append] at hsent
  rw [← clientParts_eq] at htexts hcalls
  constructor
  · intro hdelivered i hnamed
    obtain ⟨listed, hnodup, hindices, hlisted, hsame⟩ := hdelivered.calls
    have hwritten : Written i chunks := by
      -- As many calls are sent as are named, and only those.
      have hlength := congrArg List.length (hcalls.symm.trans hsame)
      rw [List.length_map, List.length_map] at hlength
      have hsub : sent.map Prod.fst ⊆ listed.map Prod.fst := by
        intro j hj
        exact (hindices j).mpr (named_of_written ((hsent.written j).mp hj))
      have hperm := (hsent.nodup.subperm hsub).perm_of_length_le
        (by rw [List.length_map, List.length_map, hlength])
      exact (hsent.written i).mp (hperm.mem_iff.mpr ((hindices i).mpr hnamed))
    obtain ⟨e, he, rfl⟩ := List.mem_map.mp ((hindices i).mpr hnamed)
    refine ⟨?_, hwritten⟩
    rcases (hlisted e he).2 with ⟨hempty, -⟩ | ⟨hread, hobject⟩
    · exact absurd hempty (argumentsText_ne hwritten)
    · exact ⟨e.2.2, hread, hobject⟩
  · intro hall
    refine ⟨htexts, sent, hsent.nodup, ?_, ?_, hcalls⟩
    · intro i
      rw [hsent.written]
      exact ⟨named_of_written, fun hnamed => (hall i hnamed).2⟩
    · intro e he
      obtain ⟨earlier, hprefix, hname, hcomplete⟩ := hsent.complete e he
      have hnamed : Named e.1 chunks := named_of_written ⟨earlier, hprefix, e.2.2, hcomplete⟩
      obtain ⟨v, hread, hobject⟩ := (hall e.1 hnamed).1
      obtain ⟨rest, hrest⟩ := argumentsText_mono (i := e.1) hprefix
      have hparsed := hcomplete.2
      rw [entryOf_arguments] at hparsed
      refine ⟨hname ▸ namesOf_mono hprefix (entryOf_name hcomplete.1), .inr ?_⟩
      rw [parsed_cut hparsed (hrest ▸ hread) hobject]
      exact ⟨hread, hobject⟩

/-- A chunk with one choice. -/
def choiceChunk (delta : Value) (finish : Value) : Value :=
  .ofMembers [("choices", .array [.ofMembers [("delta", delta), ("finish_reason", finish)]])]

/-- A call of a function without parameters, and the end of the stream. -/
def bareCall : List Value :=
  [choiceChunk (.ofMembers [("tool_calls", .array [.ofMembers [("index", .ofU64 0),
      ("function", .ofMembers [("name", .string "now"), ("arguments", .string "")])]])]) .null,
    choiceChunk (.ofMembers []) (.string "tool_calls")]

/-- It is never sent. -/
theorem bareCall_lost : ¬ Delivered bareCall (clientParts bareCall) := by
  intro h
  obtain ⟨sent, -, hindices, -, hcalls⟩ := h.calls
  have hparts : clientParts bareCall = [] := rfl
  have hnamed : Named 0 bareCall := ⟨"now", List.mem_cons_self⟩
  rw [hparts] at hcalls
  rw [List.map_eq_nil_iff.mp hcalls.symm] at hindices
  exact List.not_mem_nil ((hindices 0).mpr hnamed)

end RapidRouter.Providers.GeminiCalls
