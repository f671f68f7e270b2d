import RapidRouter.Lib.Json.Syntax

/-!
# Where a text can be cut

How many brackets are open and whether a string is being read is a function
of the bytes alone (`scan`), and the parsing machine keeps to it
(`step_scan`). So a document inside another can be compared with it byte by
byte: read from the outer text's state, the inner text would have to close
brackets it never opened, or it starts inside a string and takes text for
structure all the way to its end.

The result is `parse_suffix`: when a text and a proper suffix of it are both
objects, what was cut off is white space.
-/

namespace Json

/-- What the bytes so far have left open. -/
inductive Lex where
  | out
  | string
  | escape
  deriving DecidableEq

structure Scan where
  depth : Nat
  lex : Lex
  deriving DecidableEq

/-- One byte. Outside strings a backslash has no place, and a bracket cannot
be closed that is not open. -/
def scanStep (s : Scan) (c : UInt8) : Option Scan :=
  match s.lex with
  | .out =>
    if c = ascii '"' then some ⟨s.depth, .string⟩
    else if c = ascii '\\' then none
    else if c = ascii '[' || c = ascii '{' then some ⟨s.depth + 1, .out⟩
    else if c = ascii ']' || c = ascii '}' then
      if s.depth = 0 then none else some ⟨s.depth - 1, .out⟩
    else some s
  | .string =>
    if c = ascii '"' then some ⟨s.depth, .out⟩
    else if c = ascii '\\' then some ⟨s.depth, .escape⟩
    else some s
  | .escape => some ⟨s.depth, .string⟩

def scan (s : Scan) : Bytes → Option Scan
  | [] => some s
  | c :: rest => (scanStep s c).bind fun s => scan s rest

/-- The object whose key is being read counts as open. -/
def Mode.scanned (depth : Nat) : Mode → Scan
  | .key _ | .colon _ _ => ⟨depth + 1, .out⟩
  | .string none _ | .hex none _ _ => ⟨depth, .string⟩
  | .string (some _) _ | .hex (some _) _ _ => ⟨depth + 1, .string⟩
  | .escape none _ => ⟨depth, .escape⟩
  | .escape (some _) _ => ⟨depth + 1, .escape⟩
  | _ => ⟨depth, .out⟩

def State.scanned (s : State) : Scan := s.mode.scanned s.stack.length

/-- Bytes that mean nothing to the scan outside strings. -/
def Plain (c : UInt8) : Prop :=
  c ≠ ascii '"' ∧ c ≠ ascii '\\' ∧ c ≠ ascii '[' ∧ c ≠ ascii '{' ∧ c ≠ ascii ']' ∧ c ≠ ascii '}'

theorem scanStep_plain {c : UInt8} (h : Plain c) (depth : Nat) :
    scanStep ⟨depth, .out⟩ c = some ⟨depth, .out⟩ := by
  obtain ⟨h1, h2, h3, h4, h5, h6⟩ := h
  simp [scanStep, h1, h2, h3, h4, h5, h6]

theorem plain_of_isWs {c : UInt8} (h : isWs c = true) : Plain c := by
  simp only [isWs, Bool.or_eq_true, decide_eq_true_eq] at h
  rcases h with ((rfl | rfl) | rfl) | rfl <;> exact ⟨by decide, by decide, by decide, by decide,
    by decide, by decide⟩

theorem plain_of_isDigit {c : UInt8} (h : isDigit c = true) : Plain c := by
  have hne : ∀ x : Char, isDigit (ascii x) = false → c ≠ ascii x := by
    intro x hx hc
    rw [hc, hx] at h
    cases h
  exact ⟨hne _ (by decide), hne _ (by decide), hne _ (by decide), hne _ (by decide),
    hne _ (by decide), hne _ (by decide)⟩

theorem plain_of_numStep {n n' : NumLit} {phase phase' : NumPhase} {c : UInt8}
    (h : numStep n c phase = some (phase', n')) : Plain c := by
  have hplain : isDigit c = true ∨ c = ascii '0' ∨ c = ascii '-' ∨ c = ascii '+' ∨ c = ascii '.' ∨
      c = ascii 'e' ∨ c = ascii 'E' := by
    cases phase <;> simp only [numStep, numStep.pointOrExp, numStep.expMark, Bool.or_eq_true,
      decide_eq_true_eq] at h <;> split_ifs at h <;> tauto
  rcases hplain with hd | hc | hc | hc | hc | hc | hc
  · exact plain_of_isDigit hd
  all_goals
    subst hc
    exact ⟨by decide, by decide, by decide, by decide, by decide, by decide⟩

theorem hexVal_ne {c : UInt8} (h : (hexVal c).isSome = true) : c ≠ ascii '"' ∧ c ≠ ascii '\\' := by
  constructor
  · intro hc
    rw [hc] at h
    exact absurd h (by decide)
  · intro hc
    rw [hc] at h
    exact absurd h (by decide)

/-- What holds of every state of a run. -/
structure State.Sound (s : State) : Prop where
  items : s.mode = .firstItem → s.stack ≠ []
  literal : ∀ rest v, s.mode = .literal rest v → ∀ c ∈ rest, Plain c

theorem State.Sound.of_mode {mode : Mode} {stack : List Frame} (hfirst : mode ≠ .firstItem)
    (hliteral : ∀ rest v, mode ≠ .literal rest v) : State.Sound ⟨mode, stack⟩ :=
  ⟨fun h => absurd h hfirst, fun rest v h => absurd h (hliteral rest v)⟩

/-- What one step says of the scan: it makes the same step, and brackets are
only closed by completing a value. -/
structure Scanned (s s' : State) (c : UInt8) : Prop where
  step : scanStep s.scanned c = some s'.scanned
  sound : s'.Sound
  closed : s'.scanned.depth < s.scanned.depth → ∃ v, s'.mode = .after v

theorem Scanned.of_le {mode : Mode} {stack : List Frame} {c : UInt8} {s' : State} {depth : Nat}
    {lex : Lex} (hmode : mode.scanned stack.length = ⟨depth, lex⟩)
    (hstep : scanStep ⟨depth, lex⟩ c = some s'.scanned) (hsound : s'.Sound)
    (hle : depth ≤ s'.scanned.depth) : Scanned ⟨mode, stack⟩ s' c := by
  have hscan : State.scanned ⟨mode, stack⟩ = ⟨depth, lex⟩ := hmode
  refine ⟨?_, hsound, fun hlt => ?_⟩
  · rw [hscan]
    exact hstep
  · rw [hscan] at hlt
    exact absurd hlt (Nat.not_lt.mpr hle)

theorem Scanned.of_after {mode : Mode} {stack stack' : List Frame} {c : UInt8} {v : Raw} {scan : Scan}
    (hmode : mode.scanned stack.length = scan)
    (hstep : scanStep scan c = some ⟨stack'.length, .out⟩) :
    Scanned ⟨mode, stack⟩ ⟨.after v, stack'⟩ c := by
  have hscan : State.scanned ⟨mode, stack⟩ = scan := hmode
  refine ⟨?_, .of_mode (by simp) (by simp), fun _ => ⟨v, rfl⟩⟩
  rw [hscan]
  exact hstep

theorem startValue_scanned {mode : Mode} {stack : List Frame} {c : UInt8} {s' : State}
    (hmode : mode.scanned stack.length = ⟨stack.length, .out⟩)
    (h : startValue stack c = some s') : Scanned ⟨mode, stack⟩ s' c := by
  have hliteral : ∀ {rest : Bytes} {v : Raw}, Plain c → (∀ d ∈ rest, Plain d) →
      Scanned ⟨mode, stack⟩ ⟨.literal rest v, stack⟩ c := by
    intro rest v hc hrest
    refine .of_le hmode (scanStep_plain hc _) ⟨(fun hfirst => by cases hfirst), ?_⟩ (Nat.le_refl _)
    intro rest' v' hlit
    cases hlit
    exact hrest
  have hnumber : ∀ {phase : NumPhase} {n : NumLit}, Plain c →
      Scanned ⟨mode, stack⟩ ⟨.number phase n, stack⟩ c := fun hc =>
    .of_le hmode (scanStep_plain hc _) (.of_mode (by simp) (by simp)) (Nat.le_refl _)
  unfold startValue at h
  split_ifs at h with h1 h2 h3 h4 h5 h6 h7
  · cases h
    subst h1
    exact .of_le hmode rfl (.of_mode (by simp) (by simp)) (Nat.le_refl _)
  · cases h
    subst h2
    exact .of_le hmode rfl ⟨fun _ => List.cons_ne_nil _ _, (fun _ _ hlit => by cases hlit)⟩
      (Nat.le_succ _)
  · cases h
    subst h3
    exact .of_le hmode rfl (.of_mode (by simp) (by simp)) (Nat.le_succ _)
  · cases h
    subst h4
    exact hliteral (by unfold Plain; decide) (by unfold Plain; decide)
  · cases h
    subst h5
    exact hliteral (by unfold Plain; decide) (by unfold Plain; decide)
  · cases h
    subst h6
    exact hliteral (by unfold Plain; decide) (by unfold Plain; decide)
  · cases h
    subst h7
    exact hnumber (by unfold Plain; decide)
  · obtain ⟨⟨phase, n⟩, hn, rfl⟩ := Option.map_eq_some_iff.mp h
    exact hnumber (plain_of_numStep hn)

theorem afterValue_scanned {mode : Mode} {v : Raw} {stack : List Frame} {c : UInt8} {s' : State}
    (hmode : mode.scanned stack.length = ⟨stack.length, .out⟩)
    (h : afterValue v c stack = some s') : Scanned ⟨mode, stack⟩ s' c := by
  cases stack with
  | nil => cases h
  | cons frame stack =>
    cases frame with
    | items done =>
      simp only [afterValue] at h
      split_ifs at h with h1 h2
      · cases h
        subst h1
        exact .of_le hmode rfl (.of_mode (by simp) (by simp)) (Nat.le_refl _)
      · cases h
        subst h2
        exact .of_after hmode rfl
    | members done key =>
      simp only [afterValue] at h
      split_ifs at h with h1 h2
      · cases h
        subst h1
        exact .of_le hmode rfl (.of_mode (by simp) (by simp)) (Nat.le_refl _)
      · cases h
        subst h2
        exact .of_after hmode rfl

/-- A byte that changes nothing outside strings. -/
theorem Scanned.self {mode : Mode} {stack : List Frame} {c : UInt8} {depth : Nat}
    (hmode : mode.scanned stack.length = ⟨depth, .out⟩) (hsound : State.Sound ⟨mode, stack⟩)
    (hc : Plain c) : Scanned ⟨mode, stack⟩ ⟨mode, stack⟩ c := by
  have hscan : State.scanned ⟨mode, stack⟩ = ⟨depth, .out⟩ := hmode
  refine .of_le hmode ?_ hsound ?_
  · rw [hscan]
    exact scanStep_plain hc _
  · exact Nat.le_of_eq (by rw [hscan])

/-- The parsing machine keeps to the scan. -/
theorem step_scanned {s s' : State} {c : UInt8} (hs : s.Sound) (h : step s c = some s') :
    Scanned s s' c := by
  obtain ⟨mode, stack⟩ := s
  cases mode with
  | value =>
    simp only [step] at h
    split_ifs at h with hws
    · cases h
      exact .self rfl hs (plain_of_isWs hws)
    · exact startValue_scanned rfl h
  | firstItem =>
    simp only [step] at h
    split_ifs at h with hws hclose
    · cases h
      exact .self rfl hs (plain_of_isWs hws)
    · cases h
      subst hclose
      cases stack with
      | nil => exact absurd rfl (hs.items rfl)
      | cons frame stack => exact .of_after rfl rfl
    · exact startValue_scanned rfl h
  | key done =>
    simp only [step] at h
    split_ifs at h with hws hquote hclose
    · cases h
      exact .self rfl hs (plain_of_isWs hws)
    · cases h
      subst hquote
      exact .of_le rfl rfl (.of_mode (by simp) (by simp)) (Nat.le_refl _)
    · cases h
      have hc : c = ascii '}' := by simpa using (Bool.and_eq_true_iff.mp hclose).1
      subst hc
      exact .of_after rfl rfl
  | colon done key =>
    simp only [step] at h
    split_ifs at h with hws hcolon
    · cases h
      exact .self rfl hs (plain_of_isWs hws)
    · cases h
      subst hcolon
      exact .of_le rfl rfl (.of_mode (by simp) (by simp)) (Nat.le_refl _)
  | string dest content =>
    simp only [step] at h
    split_ifs at h with hquote hescape hcontrol
    · cases h
      subst hquote
      cases dest with
      | none => exact .of_after rfl rfl
      | some done => exact .of_le rfl rfl (.of_mode (by simp) (by simp)) (Nat.le_refl _)
    · cases h
      subst hescape
      cases dest with
      | none => exact .of_le rfl rfl (.of_mode (by simp) (by simp)) (Nat.le_refl _)
      | some done => exact .of_le rfl rfl (.of_mode (by simp) (by simp)) (Nat.le_refl _)
    · cases h
      cases dest with
      | none =>
        exact .of_le rfl (by simp [scanStep, hquote, hescape, State.scanned, Mode.scanned])
          (.of_mode (by simp) (by simp)) (Nat.le_refl _)
      | some done =>
        exact .of_le rfl (by simp [scanStep, hquote, hescape, State.scanned, Mode.scanned])
          (.of_mode (by simp) (by simp)) (Nat.le_refl _)
  | escape dest content =>
    have hstring : ∀ {content' : Bytes}, Scanned ⟨.escape dest content, stack⟩
        ⟨.string dest content', stack⟩ c := by
      intro content'
      cases dest with
      | none => exact .of_le rfl rfl (.of_mode (by simp) (by simp)) (Nat.le_refl _)
      | some done => exact .of_le rfl rfl (.of_mode (by simp) (by simp)) (Nat.le_refl _)
    simp only [step] at h
    split_ifs at h with hsimple hu
    · cases h
      exact hstring
    · cases h
      cases dest with
      | none => exact .of_le rfl rfl (.of_mode (by simp) (by simp)) (Nat.le_refl _)
      | some done => exact .of_le rfl rfl (.of_mode (by simp) (by simp)) (Nat.le_refl _)
  | hex dest content left =>
    simp only [step] at h
    split_ifs at h with hhex hleft
    · cases h
      obtain ⟨hquote, hescape⟩ := hexVal_ne hhex
      cases dest with
      | none =>
        exact .of_le rfl (by simp [scanStep, hquote, hescape, State.scanned, Mode.scanned])
          (.of_mode (by simp) (by simp)) (Nat.le_refl _)
      | some done =>
        exact .of_le rfl (by simp [scanStep, hquote, hescape, State.scanned, Mode.scanned])
          (.of_mode (by simp) (by simp)) (Nat.le_refl _)
    · cases h
      obtain ⟨hquote, hescape⟩ := hexVal_ne hhex
      cases dest with
      | none =>
        exact .of_le rfl (by simp [scanStep, hquote, hescape, State.scanned, Mode.scanned])
          (.of_mode (by simp) (by simp)) (Nat.le_refl _)
      | some done =>
        exact .of_le rfl (by simp [scanStep, hquote, hescape, State.scanned, Mode.scanned])
          (.of_mode (by simp) (by simp)) (Nat.le_refl _)
  | literal rest v =>
    have hplain := hs.literal rest v rfl
    rcases rest with _ | ⟨d, _ | ⟨e, rest⟩⟩
    · cases h
    · simp only [step] at h
      split_ifs at h with hc
      cases h
      subst hc
      exact .of_after rfl (scanStep_plain (hplain c (by simp)) _)
    · simp only [step] at h
      split_ifs at h with hc
      cases h
      subst hc
      refine .of_le rfl (scanStep_plain (hplain c (by simp)) _) ⟨(fun hfirst => by cases hfirst), ?_⟩
        (Nat.le_refl _)
      intro rest' v' hlit
      cases hlit
      exact fun x hx => hplain x (List.mem_cons_of_mem _ hx)
  | number phase n =>
    simp only [step] at h
    split at h
    next phase' n' hn =>
      cases h
      exact .of_le rfl (scanStep_plain (plain_of_numStep hn) _) (.of_mode (by simp) (by simp))
        (Nat.le_refl _)
    next hn =>
      split_ifs at h with hacc hws
      · cases h
        exact .of_after rfl (scanStep_plain (plain_of_isWs hws) _)
      · exact afterValue_scanned rfl h
  | after v =>
    simp only [step] at h
    split_ifs at h with hws
    · cases h
      exact .self rfl hs (plain_of_isWs hws)
    · exact afterValue_scanned rfl h

/-! ## Runs -/

theorem sound_init : State.init.Sound := .of_mode (by simp) (by simp)

theorem run_scanned {text : Bytes} : ∀ {s s' : State}, s.Sound → run s text = some s' →
    scan s.scanned text = some s'.scanned ∧ s'.Sound := by
  induction text with
  | nil =>
    intro s s' hs h
    cases h
    exact ⟨rfl, hs⟩
  | cons c rest ih =>
    intro s s' hs h
    rw [run_cons] at h
    obtain ⟨s₁, hstep, hrest⟩ := Option.bind_eq_some_iff.mp h
    have hscanned := step_scanned hs hstep
    obtain ⟨hscan, hsound⟩ := ih hscanned.sound hrest
    refine ⟨?_, hsound⟩
    show (scanStep s.scanned c).bind _ = _
    rw [hscanned.step]
    exact hscan

/-- Something is open, or the one value is complete. -/
def State.Opened (s : State) : Prop :=
  0 < s.scanned.depth ∨ ∃ v, s.mode = .after v ∧ s.stack = []

theorem step_opened {s s' : State} {c : UInt8} (hs : s.Sound) (ho : s.Opened)
    (h : step s c = some s') : s'.Opened := by
  rcases ho with hdepth | ⟨v, hmode, hstack⟩
  · have hscanned := step_scanned hs h
    by_cases hpos : 0 < s'.scanned.depth
    · exact Or.inl hpos
    · obtain ⟨v, hmode⟩ := hscanned.closed (by omega)
      refine Or.inr ⟨v, hmode, ?_⟩
      obtain ⟨mode, stack⟩ := s'
      cases hmode
      cases stack with
      | nil => rfl
      | cons frame stack => exact absurd (Nat.succ_pos _) hpos
  · obtain ⟨mode, stack⟩ := s
    cases hmode
    cases hstack
    simp only [step] at h
    split_ifs at h
    · cases h
      exact Or.inr ⟨v, rfl, rfl⟩
    · cases h

theorem run_opened {text : Bytes} : ∀ {s s' : State}, s.Sound → s.Opened →
    run s text = some s' → s'.Opened := by
  induction text with
  | nil =>
    intro s s' _ ho h
    cases h
    exact ho
  | cons c rest ih =>
    intro s s' hs ho h
    rw [run_cons] at h
    obtain ⟨s₁, hstep, hrest⟩ := Option.bind_eq_some_iff.mp h
    exact ih (step_scanned hs hstep).sound (step_opened hs ho hstep) hrest

/-- After the value only white space is left. -/
theorem all_isWs_of_run_after {v : Raw} {s : State} : ∀ {text : Bytes},
    run ⟨.after v, []⟩ text = some s → ∀ c ∈ text, isWs c = true
  | [], _, c, hc => absurd hc List.not_mem_nil
  | d :: rest, h, c, hc => by
    rw [run_cons] at h
    obtain ⟨s₁, hstep, hrest⟩ := Option.bind_eq_some_iff.mp h
    simp only [step] at hstep
    split_ifs at hstep with hws
    · cases hstep
      rcases List.mem_cons.mp hc with rfl | hc
      · exact hws
      · exact all_isWs_of_run_after hrest c hc
    · cases hstep

theorem scanned_of_finish {s : State} {v : Raw} (h : s.finish = some v) :
    s.scanned = ⟨0, .out⟩ := by
  unfold State.finish at h
  obtain ⟨mode, stack⟩ := s
  split at h
  next hmode hstack =>
    dsimp only at hmode hstack
    rw [hmode, hstack]
    rfl
  next hmode hstack =>
    dsimp only at hmode hstack
    rw [hmode, hstack]
    rfl
  · cases h

/-- A whole text leaves nothing open. -/
theorem scan_of_parse {text : Bytes} {v : Raw} (h : parse text = some v) :
    scan ⟨0, .out⟩ text = some ⟨0, .out⟩ := by
  obtain ⟨s, hrun, hfinish⟩ := Option.bind_eq_some_iff.mp h
  have hscan := (run_scanned sound_init hrun).1
  rw [scanned_of_finish hfinish] at hscan
  exact hscan

/-! ## Comparing two scans -/

/-- What stands in a context closes nothing of the context. -/
theorem scan_shift (k : Nat) {text : Bytes} : ∀ {s s' : Scan}, scan s text = some s' →
    scan ⟨s.depth + k, s.lex⟩ text = some ⟨s'.depth + k, s'.lex⟩ := by
  induction text with
  | nil =>
    intro s s' h
    cases h
    rfl
  | cons c rest ih =>
    intro s s' h
    obtain ⟨s₁, hstep, hrest⟩ := Option.bind_eq_some_iff.mp h
    have hshift : scanStep ⟨s.depth + k, s.lex⟩ c = some ⟨s₁.depth + k, s₁.lex⟩ := by
      obtain ⟨depth, lex⟩ := s
      cases lex with
      | out =>
        simp only [scanStep] at hstep ⊢
        split_ifs at hstep ⊢ with h1 h2 h3 h4 h5 h6
        · cases hstep
          rfl
        · cases hstep
          simp only [Option.some.injEq, Scan.mk.injEq, and_true]
          omega
        · omega
        · cases hstep
          simp only [Option.some.injEq, Scan.mk.injEq, and_true]
          omega
        · cases hstep
          rfl
      | string =>
        simp only [scanStep] at hstep ⊢
        split_ifs at hstep ⊢
        all_goals
          cases hstep
          rfl
      | escape =>
        cases hstep
        rfl
    show (scanStep _ c).bind _ = _
    rw [hshift]
    exact ih hrest

/-- One scan is inside a string where the other is outside. -/
def Opposite (s t : Scan) : Prop :=
  s.lex = .out ∧ t.lex = .string ∨ s.lex = .string ∧ t.lex = .out

theorem scanStep_opposite {s t s' t' : Scan} {c : UInt8} (ho : Opposite s t)
    (hs : scanStep s c = some s') (ht : scanStep t c = some t') : Opposite s' t' := by
  have hsides : ∀ {s t s' t' : Scan}, s.lex = .out → t.lex = .string →
      scanStep s c = some s' → scanStep t c = some t' → Opposite s' t' := by
    intro s t s' t' hout hstring hs ht
    obtain ⟨depth, lex⟩ := s
    obtain ⟨depth', lex'⟩ := t
    cases hout
    cases hstring
    simp only [scanStep] at hs ht
    split_ifs at hs ht
    · cases hs
      cases ht
      exact Or.inr ⟨rfl, rfl⟩
    all_goals
      cases hs
      cases ht
      exact Or.inl ⟨rfl, rfl⟩
  rcases ho with ⟨hout, hstring⟩ | ⟨hstring, hout⟩
  · exact hsides hout hstring hs ht
  · exact (hsides hout hstring ht hs).symm.imp And.symm And.symm

/-- Two such scans never both end outside. -/
theorem scan_opposite {text : Bytes} : ∀ {s t s' t' : Scan}, Opposite s t →
    scan s text = some s' → scan t text = some t' → Opposite s' t' := by
  induction text with
  | nil =>
    intro s t s' t' ho hs ht
    cases hs
    cases ht
    exact ho
  | cons c rest ih =>
    intro s t s' t' ho hs ht
    obtain ⟨s₁, hsstep, hsrest⟩ := Option.bind_eq_some_iff.mp hs
    obtain ⟨t₁, htstep, htrest⟩ := Option.bind_eq_some_iff.mp ht
    exact ih (scanStep_opposite ho hsstep htstep) hsrest htrest

/-! ## Objects -/

def Raw.IsObject : Raw → Prop
  | .object _ => True
  | _ => False

/-- The text is a string, a number or a literal. -/
def State.Scalar (s : State) : Prop :=
  s.stack = [] ∧
    match s.mode with
    | .string none _ | .escape none _ | .hex none _ _ | .number _ _ => True
    | .literal _ v | .after v => ¬ v.IsObject
    | _ => False

theorem step_scalar {s s' : State} {c : UInt8} (hs : s.Scalar) (h : step s c = some s') :
    s'.Scalar := by
  obtain ⟨mode, stack⟩ := s
  obtain ⟨hstack, hmode⟩ := hs
  cases hstack
  cases mode with
  | string dest content =>
    cases dest with
    | some done => exact hmode.elim
    | none =>
      simp only [step] at h
      split_ifs at h
      · cases h
        exact ⟨rfl, id⟩
      · cases h
        exact ⟨rfl, trivial⟩
      · cases h
        exact ⟨rfl, trivial⟩
  | escape dest content =>
    cases dest with
    | some done => exact hmode.elim
    | none =>
      simp only [step] at h
      split_ifs at h
      · cases h
        exact ⟨rfl, trivial⟩
      · cases h
        exact ⟨rfl, trivial⟩
  | hex dest content left =>
    cases dest with
    | some done => exact hmode.elim
    | none =>
      simp only [step] at h
      split_ifs at h
      · cases h
        exact ⟨rfl, trivial⟩
      · cases h
        exact ⟨rfl, trivial⟩
  | literal rest v =>
    rcases rest with _ | ⟨d, _ | ⟨e, rest⟩⟩
    · cases h
    · simp only [step] at h
      split_ifs at h
      cases h
      exact ⟨rfl, hmode⟩
    · simp only [step] at h
      split_ifs at h
      cases h
      exact ⟨rfl, hmode⟩
  | number phase n =>
    simp only [step] at h
    split at h
    · cases h
      exact ⟨rfl, trivial⟩
    · split_ifs at h
      · cases h
        exact ⟨rfl, id⟩
      · cases h
  | after v =>
    simp only [step] at h
    split_ifs at h
    · cases h
      exact ⟨rfl, hmode⟩
    · cases h
  | value | firstItem | key | colon => exact hmode.elim

theorem run_scalar {text : Bytes} : ∀ {s s' : State}, s.Scalar → run s text = some s' →
    s'.Scalar := by
  induction text with
  | nil =>
    intro s s' hs h
    cases h
    exact hs
  | cons c rest ih =>
    intro s s' hs h
    rw [run_cons] at h
    obtain ⟨s₁, hstep, hrest⟩ := Option.bind_eq_some_iff.mp h
    exact ih (step_scalar hs hstep) hrest

/-- The first byte of an object opens a bracket. -/
theorem bracket_of_isObject {c : UInt8} {rest : Bytes} {v : Raw} (hws : isWs c = false)
    (h : parse (c :: rest) = some v) (hv : v.IsObject) :
    c = ascii '[' ∨ c = ascii '{' := by
  obtain ⟨s, hrun, hfinish⟩ := Option.bind_eq_some_iff.mp h
  rw [run_cons] at hrun
  obtain ⟨s₁, hstep, hrest⟩ := Option.bind_eq_some_iff.mp hrun
  have hscalar : s₁.Scalar → c = ascii '[' ∨ c = ascii '{' := by
    intro hs
    obtain ⟨hstack, hmode⟩ := run_scalar hs hrest
    obtain ⟨mode, stack⟩ := s
    dsimp only at hstack hmode
    cases hstack
    cases mode with
    | after w =>
      cases hfinish
      exact absurd hv hmode
    | number phase n =>
      simp only [State.finish] at hfinish
      split_ifs at hfinish
      cases hfinish
      exact hv.elim
    | _ => cases hfinish
  rw [State.init, step_value hws] at hstep
  unfold startValue at hstep
  split_ifs at hstep with h1 h2 h3 h4 h5 h6 h7
  · cases hstep
    exact hscalar ⟨rfl, trivial⟩
  · exact Or.inl h2
  · exact Or.inr h3
  · cases hstep
    exact hscalar ⟨rfl, id⟩
  · cases hstep
    exact hscalar ⟨rfl, id⟩
  · cases hstep
    exact hscalar ⟨rfl, id⟩
  · cases hstep
    exact hscalar ⟨rfl, trivial⟩
  · obtain ⟨⟨phase, n⟩, _, rfl⟩ := Option.map_eq_some_iff.mp hstep
    exact hscalar ⟨rfl, trivial⟩

theorem parse_ws {c : UInt8} (hc : isWs c = true) (text : Bytes) : parse (c :: text) = parse text := by
  unfold parse
  rw [run_cons]
  simp [State.init, step, hc]

/-- White space around an object is not part of it. -/
theorem exists_bracket : ∀ {text : Bytes} {v : Raw}, parse text = some v → v.IsObject →
    ∃ c rest, (isWs c = true ∨ c = ascii '[' ∨ c = ascii '{') ∧ text = c :: rest
  | [], _, h, _ => by cases h
  | c :: rest, v, h, hv => by
    refine ⟨c, rest, ?_, rfl⟩
    cases hws : isWs c with
    | true => exact Or.inl rfl
    | false => exact Or.inr (bracket_of_isObject hws h hv)

theorem not_all_isWs : ∀ {text : Bytes} {v : Raw}, parse text = some v →
    ¬ ∀ c ∈ text, isWs c = true
  | [], _, h, _ => by cases h
  | c :: rest, v, h, hall => by
    rw [parse_ws (hall c List.mem_cons_self)] at h
    exact not_all_isWs h fun d hd => hall d (List.mem_cons_of_mem _ hd)

/-- When a text and the rest of it after a cut are both objects, only white
space was cut off. -/
theorem parse_suffix {tail : Bytes} {v w : Raw} (htail : parse tail = some w) (hw : w.IsObject) :
    ∀ {pre : Bytes}, parse (pre ++ tail) = some v → v.IsObject → ∀ c ∈ pre, isWs c = true
  | [], _, _, c, hc => absurd hc List.not_mem_nil
  | c :: pre, h, hv, d, hd => by
    cases hws : isWs c with
    | true =>
      rw [List.cons_append, parse_ws hws] at h
      rcases List.mem_cons.mp hd with rfl | hd
      · exact hws
      · exact parse_suffix htail hw h hv d hd
    | false =>
      exfalso
      have hbracket := bracket_of_isObject hws h hv
      obtain ⟨s, hrun, hfinish⟩ := Option.bind_eq_some_iff.mp h
      rw [List.cons_append, run_cons] at hrun
      obtain ⟨s₁, hstep, hrest⟩ := Option.bind_eq_some_iff.mp hrun
      rw [run_append] at hrest
      obtain ⟨s₂, hpre, hout⟩ := Option.bind_eq_some_iff.mp hrest
      have hsound₁ := (step_scanned sound_init hstep).sound
      have hopened₁ : s₁.Opened := by
        have hscan := (step_scanned sound_init hstep).step
        have hopen : scanStep State.init.scanned c = some ⟨1, .out⟩ := by
          rcases hbracket with rfl | rfl <;> rfl
        rw [hopen, Option.some.injEq] at hscan
        refine Or.inl ?_
        rw [← hscan]
        exact Nat.one_pos
      have hsound₂ := (run_scanned hsound₁ hpre).2
      have hscan₂ := (run_scanned hsound₂ hout).1
      rw [scanned_of_finish hfinish] at hscan₂
      have hscan := scan_of_parse htail
      rcases run_opened hsound₁ hopened₁ hpre with hdepth | ⟨u, hmode, hstack⟩
      · generalize s₂.scanned = t at hscan₂ hdepth
        obtain ⟨depth, lex⟩ := t
        have hopposite : ∀ {s t : Scan} {text : Bytes}, Opposite s t →
            scan s text = some ⟨0, .out⟩ → scan t text = some ⟨0, .out⟩ → False := by
          intro s t text ho hs ht
          rcases scan_opposite ho hs ht with ⟨_, hstring⟩ | ⟨hstring, _⟩ <;> cases hstring
        cases lex with
        | out =>
          have hshift := scan_shift depth hscan
          rw [Nat.zero_add, hscan₂, Option.some.injEq, Scan.mk.injEq] at hshift
          exact absurd hshift.1 (Nat.ne_of_lt hdepth)
        | string => exact hopposite (Or.inl ⟨rfl, rfl⟩) hscan hscan₂
        | escape =>
          -- The escaped byte leaves the outer text inside its string.
          obtain ⟨d, rest, hd, rfl⟩ := exists_bracket htail hw
          have houter : scanStep ⟨0, .out⟩ d = some ⟨0, .out⟩ ∨
              scanStep ⟨0, .out⟩ d = some ⟨1, .out⟩ := by
            rcases hd with hws | rfl | rfl
            · exact Or.inl (scanStep_plain (plain_of_isWs hws) 0)
            · exact Or.inr rfl
            · exact Or.inr rfl
          have hinner : scan ⟨depth, .string⟩ rest = some ⟨0, .out⟩ := hscan₂
          have hrest' : scan ⟨0, .out⟩ (d :: rest) =
              (scanStep ⟨0, .out⟩ d).bind fun s => scan s rest := rfl
          rw [hrest'] at hscan
          rcases houter with hstep' | hstep'
          · rw [hstep'] at hscan
            exact hopposite (Or.inl ⟨rfl, rfl⟩) hscan hinner
          · rw [hstep'] at hscan
            exact hopposite (Or.inl ⟨rfl, rfl⟩) hscan hinner
      · obtain ⟨mode, stack⟩ := s₂
        cases hmode
        cases hstack
        exact not_all_isWs htail (all_isWs_of_run_after hout)

/-- After a value only white space is read. -/
theorem run_after {v : Raw} {s : State} : ∀ {text : Bytes},
    run ⟨.after v, []⟩ text = some s → s = ⟨.after v, []⟩
  | [], h => by
    cases h
    rfl
  | c :: rest, h => by
    rw [run_cons] at h
    obtain ⟨s₁, hstep, hrest⟩ := Option.bind_eq_some_iff.mp h
    simp only [step] at hstep
    split_ifs at hstep with hws
    · cases hstep
      exact run_after hrest
    · cases hstep

/-- A text that is an object is the same object where it is cut short of nothing
but white space, and a text that is cut anywhere else is not complete. -/
theorem parse_cut {text rest : Bytes} {v w : Raw} (h : parse text = some w)
    (hall : parse (text ++ rest) = some v) (hv : v.IsObject) : w = v := by
  obtain ⟨s, hrun, hfinish⟩ := Option.bind_eq_some_iff.mp h
  obtain ⟨s', hrun', hfinish'⟩ := Option.bind_eq_some_iff.mp hall
  rw [run_append, hrun, Option.bind_some] at hrun'
  obtain ⟨mode, stack⟩ := s
  unfold State.finish at hfinish
  split at hfinish
  · next u hmode hstack =>
    dsimp only at hmode hstack
    subst hmode hstack
    cases hfinish
    rw [run_after hrun'] at hfinish'
    exact Option.some.inj hfinish'
  · next phase n hmode hstack =>
    -- A number can go on, but never into an object.
    dsimp only at hmode hstack
    subst hmode hstack
    obtain ⟨hstack', hmode'⟩ := run_scalar ⟨rfl, trivial⟩ hrun'
    obtain ⟨mode', stack'⟩ := s'
    dsimp only at hstack' hmode'
    subst hstack'
    cases mode' with
    | after u =>
      cases hfinish'
      exact absurd hv hmode'
    | number phase' n' =>
      simp only [State.finish] at hfinish'
      split_ifs at hfinish'
      cases hfinish'
      exact hv.elim
    | _ => cases hfinish'
  · cases hfinish

end Json
