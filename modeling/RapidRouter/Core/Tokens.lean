import Mathlib.Data.List.TakeWhile
import RapidRouter.Core.Probe
import RapidRouter.Lib.Json.Context

/-!
# The scanner and the parsing machine

What the scanner of `json.rs` skips, it skips without looking inside: it finds
the end of a string, of a number and of a pair of brackets. Here that is set
against the machine that reads JSON. Over what is skipped the machine either
fails or goes on exactly as after a value, and which of the two depends on the
skipped text alone (`reads_skipValue`).
-/

namespace RapidRouter.Core.Scanner

open Json

/-! ## Strings -/

/-- What stands between the quotes of a string is well formed, with so many
hexadecimal digits still owed to an escape. -/
def contentOk : (left : Nat) → Bytes → Bool
  | 0, [] => true
  | 0, c :: rest =>
    if c = ascii '\\' then
      match rest with
      | [] => false
      | e :: rest =>
        if isSimpleEscape e then contentOk 0 rest
        else if e = ascii 'u' then contentOk 4 rest
        else false
    else !(c < 0x20) && contentOk 0 rest
  | _ + 1, [] => false
  | left + 1, c :: rest => (hexVal c).isSome && contentOk left rest

/-- Inside a string, or inside an escape of it. -/
def inString (dest : Option (List (Bytes × Raw))) (content : Bytes) : Nat → Mode
  | 0 => .string dest content
  | left + 1 => .hex dest content (left + 1)

theorem stringRest_quote (s : Bytes) : stringRest (ascii '"' :: s) = some ([], s) := by
  rw [stringRest.eq_def]
  exact if_pos rfl

theorem stringRest_escape (e : UInt8) (s : Bytes) : stringRest (ascii '\\' :: e :: s) =
    (stringRest s).map fun p => (ascii '\\' :: e :: p.1, p.2) := by
  rw [stringRest.eq_def]
  rfl

theorem stringRest_cons {c : UInt8} (hquote : c ≠ ascii '"') (hescape : c ≠ ascii '\\') (s : Bytes) :
    stringRest (c :: s) = (stringRest s).map fun p => (c :: p.1, p.2) := by
  rw [stringRest.eq_def]
  dsimp only
  rw [if_neg hquote, if_neg hescape]

/-- The scanner's way through a string. -/
inductive Within : Bytes → Bytes → Bytes → Prop where
  | quote (rest : Bytes) : Within (ascii '"' :: rest) [] rest
  | escape (e : UInt8) {s content rest : Bytes} (h : Within s content rest) :
    Within (ascii '\\' :: e :: s) (ascii '\\' :: e :: content) rest
  | plain {c : UInt8} (hquote : c ≠ ascii '"') (hescape : c ≠ ascii '\\') {s content rest : Bytes}
    (h : Within s content rest) : Within (c :: s) (c :: content) rest

theorem within_of_stringRest : ∀ {s content rest : Bytes},
    stringRest s = some (content, rest) → Within s content rest
  | [], _, _, h => by cases h
  | c :: s, content, rest, h => by
    by_cases hquote : c = ascii '"'
    · rw [hquote, stringRest_quote] at h
      cases h
      rw [hquote]
      exact .quote s
    · by_cases hescape : c = ascii '\\'
      · subst hescape
        match s with
        | [] => cases h
        | e :: s =>
          rw [stringRest_escape] at h
          obtain ⟨⟨content', rest'⟩, hp, hpair⟩ := Option.map_eq_some_iff.mp h
          cases hpair
          exact .escape e (within_of_stringRest hp)
      · rw [stringRest_cons hquote hescape] at h
        obtain ⟨⟨content', rest'⟩, hp, hpair⟩ := Option.map_eq_some_iff.mp h
        cases hpair
        exact .plain hquote hescape (within_of_stringRest hp)

theorem Within.eq {s content rest : Bytes} (h : Within s content rest) :
    s = content ++ ascii '"' :: rest := by
  induction h with
  | quote rest => rfl
  | escape e h ih => rw [ih, List.cons_append, List.cons_append]
  | plain hquote hescape h ih => rw [ih, List.cons_append]

theorem contentOk_escape (e : UInt8) (content : Bytes) :
    contentOk 0 (ascii '\\' :: e :: content) =
      if isSimpleEscape e then contentOk 0 content
      else if e = ascii 'u' then contentOk 4 content else false := by
  rw [contentOk.eq_def]
  rfl

theorem contentOk_plain {c : UInt8} (hescape : c ≠ ascii '\\') (content : Bytes) :
    contentOk 0 (c :: content) = (!(c < 0x20) && contentOk 0 content) := by
  rw [contentOk.eq_def]
  exact if_neg hescape

theorem run_hex_none {c : UInt8} (hc : (hexVal c).isSome = false)
    (dest : Option (List (Bytes × Raw))) (acc : Bytes) (left : Nat) (stack : List Frame) (s : Bytes) :
    run ⟨.hex dest acc left, stack⟩ (c :: s) = none := by
  rw [run_cons]
  simp [step, hc]

/-- The machine over a string the scanner has found the end of. -/
theorem Within.run {s content rest : Bytes} (h : Within s content rest)
    (dest : Option (List (Bytes × Raw))) (stack : List Frame) (left : Nat) (acc : Bytes) :
    run ⟨inString dest acc left, stack⟩ s =
      if contentOk left content then run (endString (content.reverse ++ acc) stack dest) rest
      else none := by
  induction h generalizing left acc with
  | quote rest =>
    cases left with
    | zero => rfl
    | succ left => exact run_hex_none rfl ..
  | @escape e s content rest h ih =>
    cases left with
    | zero =>
      have hcontent : (ascii '\\' :: e :: content).reverse ++ acc =
          content.reverse ++ e :: ascii '\\' :: acc := by
        rw [List.reverse_cons, List.reverse_cons, List.append_assoc, List.append_assoc]
        rfl
      rw [hcontent]
      show Json.run ⟨.escape dest (ascii '\\' :: acc), stack⟩ (e :: s) = _
      rw [run_cons]
      unfold step
      dsimp only
      by_cases hsimple : isSimpleEscape e = true
      · have hok := (contentOk_escape e content).trans (if_pos hsimple)
        rw [hok, if_pos hsimple]
        exact ih 0 _
      · by_cases hu : e = ascii 'u'
        · have hok := (contentOk_escape e content).trans ((if_neg hsimple).trans (if_pos hu))
          rw [hok, if_neg hsimple, if_pos hu]
          exact ih 4 _
        · have hok := (contentOk_escape e content).trans ((if_neg hsimple).trans (if_neg hu))
          rw [hok, if_neg hsimple, if_neg hu]
          rfl
    | succ left => exact run_hex_none rfl ..
  | @plain c hquote hescape s content rest h ih =>
    rw [List.reverse_cons, List.append_assoc, List.singleton_append]
    cases left with
    | zero =>
      rw [contentOk_plain hescape]
      show Json.run ⟨.string dest acc, stack⟩ (c :: s) = _
      by_cases hcontrol : c < 0x20
      · rw [run_cons]
        simp [step, hquote, hescape, hcontrol]
      · rw [run_cons, step_string hquote hescape hcontrol, Option.bind_some, decide_eq_false hcontrol,
          Bool.not_false, Bool.true_and]
        exact ih 0 _
    | succ left =>
      show Json.run ⟨.hex dest acc (left + 1), stack⟩ (c :: s) =
        if ((hexVal c).isSome && contentOk left content) = true then _ else none
      by_cases hhex : (hexVal c).isSome = true
      · have hmode : (if left + 1 ≤ 1 then Mode.string dest (c :: acc)
            else .hex dest (c :: acc) (left + 1 - 1)) = inString dest (c :: acc) left := by
          cases left <;> rfl
        rw [hhex, Bool.true_and, run_cons, step_hex hhex, Option.bind_some, hmode]
        exact ih left _
      · rw [Bool.not_eq_true] at hhex
        rw [hhex, Bool.false_and, run_hex_none hhex]
        rfl

/-! ## What is skipped, read -/

/-- A text the scanner takes for a value: wherever it stands, the machine goes
on after it as after the value it parses to. -/
structure Reads (text : Bytes) : Prop where
  run : ∀ {c : UInt8}, isNumberByte c = false → ∀ rest stack,
    Json.run ⟨.value, stack⟩ (text ++ c :: rest) =
      (parse text).bind fun v => Json.run ⟨.after v, stack⟩ (c :: rest)

theorem Within.other {s content rest : Bytes} (h : Within s content rest) (rest' : Bytes) :
    Within (content ++ ascii '"' :: rest') content rest' := by
  induction h with
  | quote rest => exact .quote rest'
  | escape e h ih => exact .escape e ih
  | plain hquote hescape h ih => exact .plain hquote hescape ih

def quoted (content : Bytes) : Bytes := ascii '"' :: (content ++ [ascii '"'])

theorem parse_quoted {s content rest : Bytes} (h : Within s content rest) :
    parse (quoted content) = if contentOk 0 content then some (.string content) else none := by
  have hrun := (h.other []).run none [] 0 []
  have hstart : run .init (quoted content) =
      run ⟨inString none [] 0, []⟩ (content ++ [ascii '"']) := rfl
  unfold parse
  rw [hstart, hrun, List.append_nil]
  split_ifs
  · show some (Raw.string content.reverse.reverse) = _
    rw [List.reverse_reverse]
  · rfl

theorem quoted_append (content rest : Bytes) :
    quoted content ++ rest = ascii '"' :: (content ++ ascii '"' :: rest) := by
  unfold quoted
  rw [List.cons_append, List.append_assoc]
  rfl

theorem reads_string {s content rest : Bytes} (h : Within s content rest) :
    Reads (quoted content) := by
  refine ⟨fun {c} _ rest' stack => ?_⟩
  have hwithin := h.other (c :: rest')
  have hstart : run ⟨.value, stack⟩ (quoted content ++ c :: rest') =
      run ⟨inString none [] 0, stack⟩ (content ++ ascii '"' :: c :: rest') := by
    rw [quoted_append]
    rfl
  rw [hstart, hwithin.run, parse_quoted h, List.append_nil]
  split_ifs
  · show run ⟨.after (.string content.reverse.reverse), stack⟩ (c :: rest') = _
    rw [List.reverse_reverse]
    rfl
  · rfl

/-! ## Numbers -/

theorem numStep_none {c : UInt8} (h : isNumberByte c = false) (n : NumLit) (phase : NumPhase) :
    numStep n c phase = none := by
  simp only [isNumberByte, Bool.or_eq_false_iff, decide_eq_false_iff_not] at h
  obtain ⟨⟨⟨⟨⟨hminus, hplus⟩, hpoint⟩, he⟩, hE⟩, hdigit⟩ := h
  have hzero : c ≠ ascii '0' := by
    intro hc
    rw [hc] at hdigit
    exact absurd hdigit (by decide)
  cases phase <;>
    simp [numStep, numStep.pointOrExp, numStep.expMark, hminus, hplus, hpoint, he, hE, hdigit, hzero]

/-- No byte of a number follows a value. -/
theorem numberByte_ne {c : UInt8} (h : isNumberByte c = true) {x : UInt8}
    (hx : isNumberByte x = false) : c ≠ x := by
  intro hc
  rw [hc, hx] at h
  cases h

theorem afterValue_numberByte {c : UInt8} (h : isNumberByte c = true) (v : Raw)
    (stack : List Frame) : afterValue v c stack = none := by
  have hcomma : c ≠ ascii ',' := numberByte_ne h (by decide)
  have hitems : c ≠ ascii ']' := numberByte_ne h (by decide)
  have hmembers : c ≠ ascii '}' := numberByte_ne h (by decide)
  cases stack with
  | nil => rfl
  | cons frame stack =>
    cases frame with
    | items done => simp [afterValue, hcomma, hitems]
    | members done key => simp [afterValue, hcomma, hmembers]

theorem step_numberByte {c : UInt8} (h : isNumberByte c = true) (n : NumLit) (phase : NumPhase)
    (stack : List Frame) : step ⟨.number phase n, stack⟩ c =
      (numStep n c phase).map fun p => ⟨.number p.1 p.2, stack⟩ := by
  have hws : isWs c = false := by
    cases hc : isWs c with
    | false => rfl
    | true =>
      simp only [isWs, Bool.or_eq_true, decide_eq_true_eq] at hc
      rcases hc with ((hc | hc) | hc) | hc
      · exact absurd hc (numberByte_ne h (by decide))
      · exact absurd hc (numberByte_ne h (by decide))
      · exact absurd hc (numberByte_ne h (by decide))
      · exact absurd hc (numberByte_ne h (by decide))
  unfold step
  dsimp only
  cases numStep n c phase with
  | some p => rfl
  | none =>
    dsimp only
    rw [hws, afterValue_numberByte h]
    cases phase.accepting <;> rfl

/-- The byte after a number ends it. -/
theorem step_endNumber {c : UInt8} (h : isNumberByte c = false) (n : NumLit) (phase : NumPhase)
    (stack : List Frame) : step ⟨.number phase n, stack⟩ c =
      if phase.accepting then step ⟨.after (.number n), stack⟩ c else none := by
  unfold step
  dsimp only
  rw [numStep_none h]
  dsimp only
  cases phase.accepting <;> rfl

theorem run_number_text {text : Bytes} (htext : ∀ c ∈ text, isNumberByte c = true) {c : UInt8}
    (hc : isNumberByte c = false) (rest : Bytes) (phase : NumPhase) (n : NumLit)
    (stack : List Frame) : run ⟨.number phase n, stack⟩ (text ++ c :: rest) =
      ((run ⟨.number phase n, []⟩ text).bind State.finish).bind fun v =>
        run ⟨.after v, stack⟩ (c :: rest) := by
  induction text generalizing phase n with
  | nil =>
    rw [List.nil_append, run_cons, step_endNumber hc, run_nil, Option.bind_some]
    show _ = (if phase.accepting then some (Raw.number n) else none).bind _
    cases phase.accepting <;> rfl
  | cons d text ih =>
    have hd := htext d List.mem_cons_self
    rw [List.cons_append, run_cons, run_cons, step_numberByte hd, step_numberByte hd]
    cases numStep n d phase with
    | none => rfl
    | some p => exact ih (fun e he => htext e (List.mem_cons_of_mem _ he)) p.1 p.2

/-- How a number starts. -/
def startNumber (c : UInt8) : Option (NumPhase × NumLit) :=
  if c = ascii '-' then some (.minus, .start true) else numStep (.start false) c .minus

theorem step_startNumber {c : UInt8} (h : c = ascii '-' ∨ isDigit c = true) (stack : List Frame) :
    step ⟨.value, stack⟩ c = (startNumber c).map fun p => ⟨.number p.1 p.2, stack⟩ := by
  rcases h with rfl | hdigit
  · rfl
  · have hws : isWs c = false := by
      cases hc : isWs c with
      | false => rfl
      | true =>
        simp only [isWs, Bool.or_eq_true, decide_eq_true_eq] at hc
        rcases hc with ((hc | hc) | hc) | hc
        · exact absurd hc (isDigit_ne hdigit (by decide))
        · exact absurd hc (isDigit_ne hdigit (by decide))
        · exact absurd hc (isDigit_ne hdigit (by decide))
        · exact absurd hc (isDigit_ne hdigit (by decide))
    have hne : ∀ x : Char, isDigit (ascii x) = false → c ≠ ascii x := fun x hx => isDigit_ne hdigit hx
    rw [step_value hws]
    unfold startValue startNumber
    rw [if_neg (hne '"' (by decide)), if_neg (hne '[' (by decide)), if_neg (hne '{' (by decide)),
      if_neg (hne 't' (by decide)), if_neg (hne 'f' (by decide)), if_neg (hne 'n' (by decide)),
      if_neg (hne '-' (by decide)), if_neg (hne '-' (by decide))]

theorem reads_number {c : UInt8} (h : c = ascii '-' ∨ isDigit c = true) (s : Bytes) :
    Reads ((c :: s).takeWhile isNumberByte) := by
  have hc : isNumberByte c = true := by
    unfold isNumberByte
    rcases h with rfl | hdigit
    · rfl
    · rw [hdigit, Bool.or_true]
  have htext : (c :: s).takeWhile isNumberByte = c :: s.takeWhile isNumberByte :=
    List.takeWhile_cons_of_pos hc
  have hall : ∀ d ∈ s.takeWhile isNumberByte, isNumberByte d = true :=
    fun d hd => List.mem_takeWhile_imp hd
  rw [htext]
  refine ⟨fun {d} hd rest stack => ?_⟩
  unfold parse State.init
  rw [List.cons_append, run_cons, run_cons, step_startNumber h, step_startNumber h]
  cases startNumber c with
  | none => rfl
  | some p => exact run_number_text hall hd rest p.1 p.2 stack

/-! ## Brackets -/

/-- Over a text that closes what is open of a value, the machine fails or
completes the value, whatever stands around it. -/
structure Skips (st : State) (text : Bytes) : Prop where
  run : ∀ base rest, Json.run (st.under base) (text ++ rest) =
    (Json.run st text).bind fun t => Json.run (t.under base) rest
  complete : ∀ t, Json.run st text = some t → ∃ v, t = ⟨.after v, []⟩

section
variable {st : State} {c : UInt8} {text : Bytes}

theorem Skips.cons (hopen : 0 < st.scanned.depth)
    (h : ∀ st', step st c = some st' → Skips st' text) : Skips st (c :: text) := by
  cases hstep : step st c with
  | none =>
    refine ⟨fun base rest => ?_, fun t ht => ?_⟩
    · rw [List.cons_append, run_cons, step_under hopen, run_cons, hstep]
      rfl
    · rw [run_cons, hstep] at ht
      cases ht
  | some st' =>
    have hrest := h st' hstep
    refine ⟨fun base rest => ?_, fun t ht => ?_⟩
    · rw [List.cons_append, run_cons, step_under hopen, run_cons, hstep]
      exact hrest.run base rest
    · rw [run_cons, hstep] at ht
      exact hrest.complete t ht

theorem Skips.done (hopen : 0 < st.scanned.depth)
    (h : ∀ st', step st c = some st' → ∃ v, st' = ⟨.after v, []⟩) : Skips st [c] := by
  refine .cons hopen fun st' hstep => ⟨fun base rest => rfl, fun t ht => ?_⟩
  cases ht
  exact h st' hstep

end

/-- Where the scan of brackets stands. -/
def lexOf (inString : Bool) : Lex := if inString then .string else .out

theorem skips_nested : ∀ {inString : Bool} {depth : Nat} {s rest : Bytes},
    skipNested inString depth s = some rest → 0 < depth → ∃ text, s = text ++ rest ∧
      ∀ st : State, st.Sound → st.scanned = ⟨depth, lexOf inString⟩ → Skips st text
  | _, _, [], _, h, _ => by
    rw [skipNested.eq_def] at h
    cases h
  | false, depth, c :: s, rest, h, hpos => by
    rw [skipNested.eq_def] at h
    dsimp only at h
    -- a byte that leaves something open, and what follows it
    have honward : ∀ {inString' : Bool} {depth' : Nat},
        skipNested inString' depth' s = some rest → 0 < depth' →
        scanStep ⟨depth, .out⟩ c = some ⟨depth', lexOf inString'⟩ → ∃ text, c :: s = text ++ rest ∧
          ∀ st : State, st.Sound → st.scanned = ⟨depth, lexOf false⟩ → Skips st text := by
      intro inString' depth' hskip hpos' hscan
      obtain ⟨text, htext, hskips⟩ := skips_nested hskip hpos'
      refine ⟨c :: text, by rw [htext, List.cons_append], fun st hsound hst => ?_⟩
      refine .cons (by rw [hst]; exact hpos) fun st' hstep => ?_
      have hscanned := step_scanned hsound hstep
      have hscan' := hscanned.step
      rw [hst, show lexOf false = .out from rfl, hscan, Option.some.injEq] at hscan'
      exact hskips st' hscanned.sound hscan'.symm
    split_ifs at h with hopen hclose hlast hquote
    · refine honward h (Nat.succ_pos _) ?_
      rw [Bool.or_eq_true, decide_eq_true_iff, decide_eq_true_iff] at hopen
      rcases hopen with rfl | rfl <;> rfl
    · have hdepth : depth = 1 := by omega
      subst hdepth
      cases h
      refine ⟨[c], rfl, fun st hsound hst => .done (by rw [hst]; exact hpos) fun st' hstep => ?_⟩
      have hscanned := step_scanned hsound hstep
      refine hscanned.complete (by rw [hst]; exact hpos) ?_
      have hdone : scanStep ⟨1, .out⟩ c = some ⟨0, .out⟩ := by
        rw [Bool.or_eq_true, decide_eq_true_iff, decide_eq_true_iff] at hclose
        rcases hclose with rfl | rfl <;> rfl
      have hscan' := hscanned.step
      rw [hst, show lexOf false = .out from rfl, hdone, Option.some.injEq] at hscan'
      rw [← hscan']
    · refine honward h (by omega) ?_
      have hdepth : depth ≠ 0 := by omega
      rw [Bool.or_eq_true, decide_eq_true_iff, decide_eq_true_iff] at hclose
      rcases hclose with rfl | rfl
      · show (if depth = 0 then none else some (⟨depth - 1, .out⟩ : Scan)) = _
        rw [if_neg hdepth]
        rfl
      · show (if depth = 0 then none else some (⟨depth - 1, .out⟩ : Scan)) = _
        rw [if_neg hdepth]
        rfl
    · subst hquote
      exact honward h hpos rfl
    · rw [Bool.or_eq_true, decide_eq_true_iff, decide_eq_true_iff, not_or] at hopen hclose
      by_cases hescape : c = ascii '\\'
      · -- no backslash stands outside a string
        subst hescape
        obtain ⟨text, htext, -⟩ := skips_nested h hpos
        refine ⟨ascii '\\' :: text, by rw [htext, List.cons_append], fun st hsound hst => ?_⟩
        refine .cons (by rw [hst]; exact hpos) fun st' hstep => ?_
        have hscan' := (step_scanned hsound hstep).step
        rw [hst] at hscan'
        cases hscan'
      · exact honward h hpos
          (scanStep_plain ⟨hquote, hescape, hopen.2, hopen.1, hclose.2, hclose.1⟩ depth)
  | true, depth, c :: s, rest, h, hpos => by
    rw [skipNested.eq_def] at h
    dsimp only at h
    have honward : ∀ {inString' : Bool},
        skipNested inString' depth s = some rest →
        scanStep ⟨depth, .string⟩ c = some ⟨depth, lexOf inString'⟩ → ∃ text, c :: s = text ++ rest ∧
          ∀ st : State, st.Sound → st.scanned = ⟨depth, lexOf true⟩ → Skips st text := by
      intro inString' hskip hscan
      obtain ⟨text, htext, hskips⟩ := skips_nested hskip hpos
      refine ⟨c :: text, by rw [htext, List.cons_append], fun st hsound hst => ?_⟩
      refine .cons (by rw [hst]; exact hpos) fun st' hstep => ?_
      have hscanned := step_scanned hsound hstep
      have hscan' := hscanned.step
      rw [hst, show lexOf true = .string from rfl, hscan, Option.some.injEq] at hscan'
      exact hskips st' hscanned.sound hscan'.symm
    split_ifs at h with hquote hescape
    · subst hquote
      exact honward h rfl
    · subst hescape
      cases s with
      | nil => cases h
      | cons e s =>
        obtain ⟨text, htext, hskips⟩ := skips_nested h hpos
        refine ⟨ascii '\\' :: e :: text, by rw [htext]; rfl, fun st hsound hst => ?_⟩
        refine .cons (by rw [hst]; exact hpos) fun st' hstep => ?_
        have hscanned := step_scanned hsound hstep
        have hscan' := hscanned.step
        rw [hst] at hscan'
        have hst' : st'.scanned = ⟨depth, .escape⟩ := (Option.some.inj hscan').symm
        refine .cons (by rw [hst']; exact hpos) fun st'' hstep' => ?_
        have hscanned' := step_scanned hscanned.sound hstep'
        have hscan'' := hscanned'.step
        rw [hst'] at hscan''
        exact hskips st'' hscanned'.sound (Option.some.inj hscan'').symm
    · refine honward h ?_
      simp [scanStep, hquote, hescape, lexOf]

/-- The machine just inside a bracket. -/
def opened (c : UInt8) : State :=
  if c = ascii '{' then ⟨.key [], []⟩ else ⟨.firstItem, [.items []]⟩

theorem reads_nested {c : UInt8} (hc : c = ascii '{' ∨ c = ascii '[') {s rest : Bytes}
    (h : skipNested false 1 s = some rest) : ∃ text, c :: s = text ++ rest ∧ Reads text := by
  obtain ⟨text, htext, hskips⟩ := skips_nested h Nat.one_pos
  have hsound : (opened c).Sound := by
    rcases hc with rfl | rfl
    · exact .of_mode (by simp) (by simp)
    · exact ⟨fun _ => List.cons_ne_nil _ _, fun _ _ hlit => (by cases hlit)⟩
  have hscanned : (opened c).scanned = ⟨1, lexOf false⟩ := by
    rcases hc with rfl | rfl <;> rfl
  have hfirst : ∀ stack, step ⟨.value, stack⟩ c = some ((opened c).under stack) := by
    intro stack
    rcases hc with rfl | rfl <;> rfl
  have hskip := hskips (opened c) hsound hscanned
  refine ⟨c :: text, by rw [htext, List.cons_append], ⟨fun {d} _ rest' stack => ?_⟩⟩
  have hparse : parse (c :: text) = (run (opened c) text).bind State.finish := by
    have hinit : step .init c = some (opened c) := by
      rcases hc with rfl | rfl <;> rfl
    unfold parse
    rw [run_cons, hinit]
    rfl
  rw [hparse, List.cons_append, run_cons, hfirst, Option.bind_some, hskip.run]
  cases hrun : run (opened c) text with
  | none => rfl
  | some t =>
    obtain ⟨v, rfl⟩ := hskip.complete t hrun
    rfl

/-! ## Values -/

theorem parse_literal {lit : Bytes} {v : Raw}
    (hrun : ∀ stack, run ⟨.value, stack⟩ lit = some ⟨.after v, stack⟩) : parse lit = some v := by
  unfold parse State.init
  rw [hrun]
  rfl

theorem reads_literal {lit : Bytes} {v : Raw}
    (hrun : ∀ stack, run ⟨.value, stack⟩ lit = some ⟨.after v, stack⟩) : Reads lit := by
  refine ⟨fun {c} _ rest stack => ?_⟩
  rw [run_append, hrun, parse_literal hrun]
  rfl

theorem literal_split {lit s rest : Bytes} (h : literal lit s = some rest) : s = lit ++ rest := by
  unfold literal at h
  split at h
  · next hprefix =>
    obtain ⟨tail, rfl⟩ := List.isPrefixOf_iff_prefix.mp hprefix
    rw [List.drop_left] at h
    cases h
    rfl
  · cases h

theorem run_true (stack : List Frame) :
    run ⟨.value, stack⟩ (utf8 "true") = some ⟨.after (.bool true), stack⟩ := rfl

theorem run_false (stack : List Frame) :
    run ⟨.value, stack⟩ (utf8 "false") = some ⟨.after (.bool false), stack⟩ := rfl

theorem run_null (stack : List Frame) :
    run ⟨.value, stack⟩ (utf8 "null") = some ⟨.after .null, stack⟩ := rfl

/-- Whatever `skip_value` skips. -/
theorem reads_skipValue {s rest : Bytes} (h : skipValue s = some rest) :
    ∃ text, s = text ++ rest ∧ Reads text := by
  cases s with
  | nil => cases h
  | cons c s =>
    simp only [skipValue] at h
    split_ifs at h with hquote hbracket ht hf hn hnumber
    · subst hquote
      obtain ⟨⟨content, rest'⟩, hp, rfl⟩ := Option.map_eq_some_iff.mp h
      have hwithin := within_of_stringRest hp
      refine ⟨quoted content, ?_, reads_string hwithin⟩
      rw [quoted_append]
      exact congrArg _ hwithin.eq
    · rw [Bool.or_eq_true, decide_eq_true_iff, decide_eq_true_iff] at hbracket
      exact reads_nested hbracket h
    · exact ⟨_, literal_split h, reads_literal run_true⟩
    · exact ⟨_, literal_split h, reads_literal run_false⟩
    · exact ⟨_, literal_split h, reads_literal run_null⟩
    · cases h
      rw [Bool.or_eq_true, decide_eq_true_iff] at hnumber
      exact ⟨_, List.takeWhile_append_dropWhile.symm, reads_number hnumber s⟩

end RapidRouter.Core.Scanner
