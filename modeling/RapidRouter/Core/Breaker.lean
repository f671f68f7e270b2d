import RapidRouter.Lib.Interleave

/-!
# The circuit breaker and its bench

`router-core/src/breaker.rs`: closed, open and half-open live in one atomic
word; a bench, the provider's "not before", in a second one. `WordPc` and
`wordStep` are the breaker without benches, `Pc` and `step` the breaker, which
looks at the deadline before the word.

The two words are never read together, and the source says a bench needs no
such agreement. `bench_law` is what that comes to: the deadline only moves
later, and goes away only by a recorded success or by an `admit` whose own
clock is past it. The exchange that clears an expired deadline names the
deadline it read, so one set meanwhile survives it. Erasing the benches from
a run leaves a run of the breaker without them (`erase_reach`): every answer
is a bench's refusal or that breaker's answer.

Words are numbers below `2 ^ 64`; a timestamp loses its top two bits when it
is packed.
-/

namespace RapidRouter.Core.Breaker

open Interleave Lts

structure Config where
  failureThreshold : Nat
  windowMs : Nat
  cooldownMs : Nat
  deriving DecidableEq

inductive Admission where
  | yes
  | probe
  | no
  deriving DecidableEq

def closed : Nat := 0

def open_ : Nat := 1

def halfOpen : Nat := 2

def pack (sinceMs state : Nat) : Nat := sinceMs * 4 % 2 ^ 64 + state

/-- `unpack`: the timestamp and the state. -/
def unpack (word : Nat) : Nat × Nat := (word / 4, word % 4)

/-! ## The breaker without benches -/

structure Words where
  word : Nat
  failures : Nat
  windowStartMs : Nat

inductive Ret where
  | admission (a : Admission)
  | healthy (b : Bool)
  | done
  deriving DecidableEq

/-- Which atomic operation on the words comes next, with what has been read. -/
inductive WordPc where
  | admitLoad (now : Nat)
  | admitProbe (now current : Nat)
  | successFailures
  | successWord
  | failureLoad (now : Nat)
  | failureOpen (now current : Nat)
  | failureWindow (now current : Nat)
  | failureRestart (now current windowStart : Nat)
  | failureFirst (now current : Nat)
  | failureCount (now current : Nat)
  | healthLoad (now : Nat)

inductive WordCall where
  | admitAt (now : Nat)
  | recordSuccess
  | recordFailure (now : Nat)
  | looksHealthy (now : Nat)

def wordStart : WordCall → WordPc
  | .admitAt now => .admitLoad now
  | .recordSuccess => .successFailures
  | .recordFailure now => .failureLoad now
  | .looksHealthy now => .healthLoad now

variable (config : Config)

/-- One round of `admit`'s loop, with the word read. -/
def admitFrom (now current : Nat) : Outcome WordPc Ret :=
  if (unpack current).2 = closed then .returns (.admission .yes)
  else if now - (unpack current).1 < config.cooldownMs then .returns (.admission .no)
  else .goes (.admitProbe now current)

/-- One round of `record_failure`'s loop, with the word read. -/
def failureFrom (now current : Nat) : Outcome WordPc Ret :=
  if (unpack current).2 = open_ then .returns .done
  else if (unpack current).2 = halfOpen then .goes (.failureOpen now current)
  else .goes (.failureWindow now current)

/-- The failures counted so far decide whether the breaker opens. -/
def tripFrom (now current count : Nat) : Outcome WordPc Ret :=
  if count < config.failureThreshold then .returns .done else .goes (.failureOpen now current)

def wordStep (s : Words) (p : WordPc) (spurious : Bool) : Option (Words × Outcome WordPc Ret) :=
  match p with
  | .admitLoad now => some (s, admitFrom config now s.word)
  | .admitProbe now current =>
    if !spurious && s.word = current then
      some ({ s with word := pack now halfOpen }, .returns (.admission .probe))
    else some (s, admitFrom config now s.word)
  | .successFailures => some ({ s with failures := 0 }, .goes .successWord)
  | .successWord => some ({ s with word := pack 0 closed }, .returns .done)
  | .failureLoad now => some (s, failureFrom now s.word)
  | .failureOpen now current =>
    if !spurious && s.word = current then
      some ({ s with word := pack now open_ }, .returns .done)
    else some (s, failureFrom now s.word)
  | .failureWindow now current =>
    some (s, if now - s.windowStartMs > config.windowMs then
      .goes (.failureRestart now current s.windowStartMs) else .goes (.failureCount now current))
  | .failureRestart now current windowStart =>
    if s.windowStartMs = windowStart then
      some ({ s with windowStartMs := now }, .goes (.failureFirst now current))
    else some (s, .goes (.failureCount now current))
  | .failureFirst now current =>
    some ({ s with failures := 1 }, tripFrom config now current 1)
  | .failureCount now current =>
    let count := (s.failures + 1) % 2 ^ 32
    some ({ s with failures := count }, tripFrom config now current count)
  | .healthLoad _ => some (s, .returns (.healthy ((unpack s.word).2 = closed)))

def wordMachine : Machine Words WordPc WordCall Bool Ret := ⟨wordStart, wordStep config⟩

/-- `Breaker::new`. -/
def Words.new : Words := ⟨pack 0 closed, 0, 0⟩

/-! ## The breaker -/

structure Shared where
  words : Words
  benchUntilMs : Nat
  /-- A ghost: the deadlines since the bench was last taken away. -/
  deadlines : List Nat

def Shared.new : Shared := ⟨.new, 0, []⟩

inductive Pc where
  | admitBench (now : Nat)
  | admitClear (now bench : Nat)
  | benchMax (untilMs : Nat)
  | successBench
  | healthBench (now : Nat)
  | word (p : WordPc)

inductive Call where
  | admitAt (now : Nat)
  | benchUntil (untilMs : Nat)
  | recordSuccess
  | recordFailure (now : Nat)
  | looksHealthy (now : Nat)

def start : Call → Pc
  | .admitAt now => .admitBench now
  | .benchUntil untilMs => .benchMax untilMs
  | .recordSuccess => .word (wordStart .recordSuccess)
  | .recordFailure now => .word (wordStart (.recordFailure now))
  | .looksHealthy now => .word (wordStart (.looksHealthy now))

/-- What follows the work on the words. -/
def afterWord (p : WordPc) (r : Ret) : Outcome Pc Ret :=
  match p, r with
  | .successWord, _ => .goes .successBench
  | .healthLoad now, .healthy true => .goes (.healthBench now)
  | _, r => .returns r

/-- `is_benched`, with the deadline read. -/
def isBenched (deadline now : Nat) : Bool := if deadline = 0 then false else now < deadline

def step (s : Shared) (p : Pc) (spurious : Bool) : Option (Shared × Outcome Pc Ret) :=
  match p with
  | .admitBench now =>
    let bench := s.benchUntilMs
    some (s, if bench ≠ 0 then
        if now < bench then .returns (.admission .no) else .goes (.admitClear now bench)
      else .goes (.word (wordStart (.admitAt now))))
  | .admitClear now bench =>
    let cleared := if s.benchUntilMs = bench then { s with benchUntilMs := 0, deadlines := [] } else s
    some (cleared, .goes (.word (wordStart (.admitAt now))))
  | .benchMax untilMs =>
    some ({ s with
        benchUntilMs := max s.benchUntilMs untilMs
        deadlines := untilMs :: s.deadlines },
      .returns .done)
  | .successBench => some ({ s with benchUntilMs := 0, deadlines := [] }, .returns .done)
  | .healthBench now => some (s, .returns (.healthy (!isBenched s.benchUntilMs now)))
  | .word p =>
    match wordStep config s.words p spurious with
    | none => none
    | some (words, .goes q) => some ({ s with words := words }, .goes (.word q))
    | some (words, .returns r) => some ({ s with words := words }, afterWord p r)

def machine : Machine Shared Pc Call Bool Ret := ⟨start, step config⟩

/-! ## The deadline -/

/-- The latest of some deadlines. -/
def latest (deadlines : List Nat) : Nat := deadlines.foldr max 0

variable {config}

/-- What a step does to the deadline: nothing, move it later, or take it
away, by an `admit` that read it and whose clock is past it or by a recorded
success. -/
inductive Moves (s : Shared) : Pc → Shared → Prop where
  | keeps {p : Pc} {s' : Shared} (hbench : s'.benchUntilMs = s.benchUntilMs)
      (hdeadlines : s'.deadlines = s.deadlines) : Moves s p s'
  | benches (untilMs : Nat) :
      Moves s (.benchMax untilMs)
        { s with
          benchUntilMs := max s.benchUntilMs untilMs
          deadlines := untilMs :: s.deadlines }
  | expires (now : Nat) :
      Moves s (.admitClear now s.benchUntilMs) { s with benchUntilMs := 0, deadlines := [] }
  | succeeds : Moves s .successBench { s with benchUntilMs := 0, deadlines := [] }

theorem step_moves {s s' : Shared} {p : Pc} {spurious : Bool} {out : Outcome Pc Ret}
    (h : step config s p spurious = some (s', out)) : Moves s p s' := by
  cases p with
  | admitBench now | healthBench now =>
    cases h
    exact .keeps rfl rfl
  | admitClear now bench =>
    cases h
    by_cases heq : s.benchUntilMs = bench
    · rw [if_pos heq, ← heq]
      exact .expires now
    · rw [if_neg heq]
      exact .keeps rfl rfl
  | benchMax untilMs =>
    cases h
    exact .benches untilMs
  | successBench =>
    cases h
    exact .succeeds
  | word p =>
    unfold step at h
    dsimp only at h
    split at h <;> cases h
    · exact .keeps rfl rfl
    · exact .keeps rfl rfl

/-- An `admit` about to clear a deadline has read it, and is past it. -/
def PcOk : Pc → Prop
  | .admitClear now bench => bench ≠ 0 ∧ bench ≤ now
  | _ => True

theorem pcOk_step {s s' : Shared} {p q : Pc} {spurious : Bool}
    (h : step config s p spurious = some (s', .goes q)) : PcOk q := by
  cases p with
  | admitBench now =>
    unfold step at h
    dsimp only at h
    rw [Option.some.injEq, Prod.mk.injEq] at h
    obtain ⟨_, hq⟩ := h
    split at hq
    · next hne =>
      split at hq
      · cases hq
      · next hlt =>
        cases hq
        exact ⟨hne, not_lt.mp hlt⟩
    · cases hq
      trivial
  | admitClear now bench =>
    cases h
    trivial
  | benchMax untilMs | successBench | healthBench now => cases h
  | word p =>
    unfold step at h
    dsimp only at h
    split at h
    · cases h
    · cases h
      trivial
    · next r _ =>
      rw [Option.some.injEq, Prod.mk.injEq] at h
      obtain ⟨_, hq⟩ := h
      unfold afterWord at hq
      split at hq <;> cases hq <;> trivial

section
variable {ι : Type} [DecidableEq ι]

/-- The reachable states: the deadline is the latest set since it was last
taken away. -/
theorem reach_bench {ok : State ι Shared Pc → Label ι Call Bool → Prop} {s : State ι Shared Pc}
    (h : Reach ((machine config).system (· = Shared.new)) ok s) :
    Machine.Inv (fun s => s.benchUntilMs = latest s.deadlines) (fun _ p => PcOk p) s := by
  refine Machine.reach_inv ?_ ?_ ?_ h
  · intro s hs
    subst hs
    rfl
  · intro s call _
    cases call <;> trivial
  · intro s p choice s' out hs _ hstep
    refine ⟨?_, fun q hq => ?_, fun q hq => hq⟩
    · cases step_moves hstep with
      | keeps hbench hdeadlines => rw [hbench, hdeadlines, hs]
      | benches untilMs =>
        show max s.benchUntilMs untilMs = max untilMs (latest s.deadlines)
        rw [hs, Nat.max_comm]
      | expires now | succeeds => rfl
    · subst hq
      exact pcOk_step hstep

/-! ## A bench holds -/

/-- A position of neither an `admit` with a reading at or past `d` nor a
recorded success. -/
def quiet (d : Nat) : Pc → Bool
  | .admitBench now | .admitClear now _ | .word (.admitLoad now) | .word (.admitProbe now _) =>
    now < d
  | .word .successFailures | .word .successWord | .successBench => false
  | _ => true

/-- No such call takes a step. -/
def Quiet (d : Nat) (s : State ι Shared Pc) : Label ι Call Bool → Prop
  | .invoke _ _ => True
  | .step i _ => (s.pc i).all (quiet d) = true

theorem bench_holds {d : Nat} {s₁ s : State ι Shared Pc}
    (hinv : Machine.Inv (fun s => s.benchUntilMs = latest s.deadlines) (fun _ p => PcOk p) s₁)
    (hbench : d ≤ s₁.shared.benchUntilMs)
    (h : Reach (((machine config).system (· = Shared.new)).after s₁) (Quiet d) s) :
    d ≤ s.shared.benchUntilMs := by
  have hboth : Machine.Inv (fun s => d ≤ s.benchUntilMs) (fun _ p => PcOk p) s := by
    refine h.invariant (I := Machine.Inv (fun s => d ≤ s.benchUntilMs) fun _ p => PcOk p) ?_ ?_
    · intro s hs
      rw [show s = s₁ from hs]
      exact ⟨hbench, hinv.thread⟩
    · intro s a s' hs hok hnext
      refine Machine.inv_step hs ?_ ?_ hnext
      · intro i call _ _
        cases call <;> trivial
      · intro i choice p shared out ha hp hd hpast hm
        refine ⟨?_, fun q hq => ?_, fun _ q _ _ hq => hq⟩
        · subst ha
          unfold Quiet at hok
          dsimp only at hok
          rw [hp, Option.all_some] at hok
          cases step_moves hm with
          | keeps hkeep _ => rw [hkeep]; exact hd
          | benches untilMs => exact hd.trans (Nat.le_max_left _ _)
          | expires now =>
            have hnow : now < d := of_decide_eq_true hok
            have hle : s.shared.benchUntilMs ≤ now := hpast.2
            omega
          | succeeds => cases hok
        · subst hq
          exact pcOk_step hm
  exact hboth.shared

/-! ## Without the benches -/

/-- Where a call is in the breaker without benches: an `admit` enters it when
it is past the deadline, and a success leaves it before the bench is taken
away. -/
def Pc.erase : Pc → Option WordPc
  | .word p => some p
  | .admitClear now _ => some (wordStart (.admitAt now))
  | .admitBench _ | .benchMax _ | .successBench | .healthBench _ => none

def erase (s : State ι Shared Pc) : State ι Words WordPc :=
  ⟨s.shared.words, fun i => (s.pc i).bind Pc.erase⟩

theorem erase_update (s : State ι Shared Pc) (shared : Shared) (i : ι) (o : Option Pc) :
    erase ⟨shared, Function.update s.pc i o⟩ =
      ⟨shared.words, Function.update (erase s).pc i (o.bind Pc.erase)⟩ := by
  unfold erase
  congr 1
  funext j
  dsimp only
  by_cases hij : j = i
  · subst hij
    rw [Function.update_self, Function.update_self]
  · rw [Function.update_of_ne hij, Function.update_of_ne hij]

/-- A step the breaker without benches does not see. -/
theorem erase_hidden {s : State ι Shared Pc} {shared : Shared} {i : ι} {o : Option Pc}
    (hwords : shared.words = s.shared.words) (ho : o.bind Pc.erase = (s.pc i).bind Pc.erase) :
    erase ⟨shared, Function.update s.pc i o⟩ = erase s := by
  rw [erase_update, hwords, ho]
  have hsame : Function.update (erase s).pc i ((s.pc i).bind Pc.erase) = (erase s).pc :=
    Function.update_eq_self i (erase s).pc
  rw [hsame]
  rfl

/-- A call that enters the breaker without benches. -/
theorem erase_enters {s : State ι Shared Pc} {shared : Shared} {i : ι} {o : Option Pc}
    (call : WordCall) (hwords : shared.words = s.shared.words)
    (ho : o.bind Pc.erase = some (wordStart call)) (hp : (s.pc i).bind Pc.erase = none) :
    (wordMachine config).next (erase s) (.invoke i call) =
      some (erase ⟨shared, Function.update s.pc i o⟩) := by
  have hidle : (erase s).pc i = none := hp
  rw [erase_update, hwords, ho]
  unfold Machine.next
  dsimp only
  rw [hidle]
  rfl

theorem afterWord_erase (p : WordPc) (r : Ret) :
    (afterWord p r).position.bind Pc.erase = none := by
  unfold afterWord
  split <;> rfl

theorem erase_step {s s' : State ι Shared Pc} {a : Label ι Call Bool}
    (h : (machine config).next s a = some s') :
    erase s' = erase s ∨ ∃ b, (wordMachine config).next (erase s) b = some (erase s') := by
  rcases Machine.next_cases _ h with
    ⟨i, call, ha, hidle, rfl⟩ | ⟨i, choice, p, shared, out, ha, hp, hm, rfl⟩
  · have hnone : (s.pc i).bind Pc.erase = none := by
      rw [hidle]
      rfl
    cases call with
    | admitAt now | benchUntil untilMs => exact Or.inl (erase_hidden rfl hnone.symm)
    | recordSuccess => exact Or.inr ⟨_, erase_enters .recordSuccess rfl rfl hnone⟩
    | recordFailure now => exact Or.inr ⟨_, erase_enters (.recordFailure now) rfl rfl hnone⟩
    | looksHealthy now => exact Or.inr ⟨_, erase_enters (.looksHealthy now) rfl rfl hnone⟩
  · have hpc : (s.pc i).bind Pc.erase = p.erase := by
      rw [hp]
      rfl
    cases p with
    | admitBench now =>
      have henters : ∀ q, q.erase = some (wordStart (.admitAt now)) → ∃ b,
          (wordMachine config).next (erase s) b =
            some (erase ⟨s.shared, Function.update s.pc i (some q)⟩) :=
        fun q hq => ⟨_, erase_enters (.admitAt now) rfl hq hpc⟩
      change some (s.shared, _) = some (shared, out) at hm
      rw [Option.some.injEq, Prod.mk.injEq] at hm
      obtain ⟨rfl, hout⟩ := hm
      split at hout
      · split at hout
        · subst hout
          exact Or.inl (erase_hidden rfl hpc.symm)
        · subst hout
          exact Or.inr (henters _ rfl)
      · subst hout
        exact Or.inr (henters _ rfl)
    | admitClear now bench =>
      cases hm
      refine Or.inl (erase_hidden ?_ hpc.symm)
      split <;> rfl
    | benchMax untilMs | successBench | healthBench now =>
      cases hm
      exact Or.inl (erase_hidden rfl hpc.symm)
    | word p =>
      refine Or.inr ⟨.step i choice, ?_⟩
      have hword : (erase s).pc i = some p := hpc
      change step config s.shared (.word p) choice = some (shared, out) at hm
      rw [erase_update]
      unfold Machine.next
      dsimp only
      rw [hword]
      dsimp only
      unfold step at hm
      dsimp only at hm
      split at hm
      · cases hm
      · next words q hstep =>
        cases hm
        have hstep' : (wordMachine config).step (erase s).shared p choice = _ := hstep
        rw [hstep']
        rfl
      · next words r hstep =>
        cases hm
        have hstep' : (wordMachine config).step (erase s).shared p choice = _ := hstep
        rw [hstep', afterWord_erase]
        rfl

/-- Erasing the benches from a run leaves a run of the breaker without
them. -/
theorem erase_reach {s : State ι Shared Pc}
    (h : Reach ((machine config).system (· = Shared.new)) free s) :
    Reach ((wordMachine config).system (· = Words.new)) free (erase s) := by
  refine h.invariant (I := fun s =>
    Reach ((wordMachine config).system (· = Words.new)) free (erase s)) ?_ ?_
  · rintro s ⟨shared, rfl, rfl⟩
    exact .start ⟨_, rfl, rfl⟩
  · intro s a s' hs _ hnext
    rcases erase_step hnext with hsame | ⟨b, hb⟩
    · rw [hsame]
      exact hs
    · exact .step hs trivial hb

omit [DecidableEq ι] in
/-- Every answer is a bench's refusal, or that of the breaker without
benches. -/
theorem result_erase {s : State ι Shared Pc} {i : ι} {choice : Bool} {a : Admission}
    (h : (machine config).result s i choice = some (.admission a)) :
    (∃ now, s.pc i = some (.admitBench now) ∧ now < s.shared.benchUntilMs ∧ a = .no) ∨
      (wordMachine config).result (erase s) i choice = some (.admission a) := by
  unfold Machine.result at h
  cases hp : s.pc i with
  | none =>
    rw [hp] at h
    cases h
  | some p =>
    rw [hp] at h
    dsimp only at h
    split at h
    · next shared r hm =>
      cases h
      cases p with
      | admitBench now =>
        change some (s.shared, _) = some (shared, _) at hm
        rw [Option.some.injEq, Prod.mk.injEq] at hm
        obtain ⟨_, hout⟩ := hm
        split at hout
        · split at hout
          · next hlt =>
            cases hout
            exact Or.inl ⟨now, rfl, hlt, rfl⟩
          · cases hout
        · cases hout
      | admitClear now bench | benchMax untilMs | successBench | healthBench now => cases hm
      | word p =>
        refine Or.inr ?_
        change step config s.shared (.word p) choice = _ at hm
        have hword : (erase s).pc i = some p := by
          show (s.pc i).bind Pc.erase = some p
          rw [hp]
          rfl
        unfold step at hm
        dsimp only at hm
        unfold Machine.result
        rw [hword]
        dsimp only
        split at hm
        · cases hm
        · cases hm
        · next words r hstep =>
          rw [Option.some.injEq, Prod.mk.injEq] at hm
          obtain ⟨_, hout⟩ := hm
          have hstep' : (wordMachine config).step (erase s).shared p choice = _ := hstep
          rw [hstep']
          have hr : r = .admission a := by
            unfold afterWord at hout
            split at hout
            · cases hout
            · cases hout
            · cases hout
              rfl
          rw [hr]
    · cases h

/-- What benches do, in any state of any run. -/
structure BenchLaw (config : Config) (s : State ι Shared Pc) : Prop where
  /-- Once a `bench_until(d)` has returned, and as long as no `admit` with a
  reading at or past `d` and no recorded success has run, an `admit` with an
  earlier reading is refused by its first step. -/
  refused : ∀ j d choice s₁ s₂, s.pc j = some (.benchMax d) →
    (machine config).next s (.step j choice) = some s₁ →
    Reach (((machine config).system (· = Shared.new)).after s₁) (Quiet d) s₂ →
    ∀ i now choice', s₂.pc i = some (.admitBench now) → now < d →
      (machine config).result s₂ i choice' = some (.admission .no)
  /-- Benches resolve to the latest deadline. -/
  latest : s.shared.benchUntilMs = latest s.shared.deadlines
  /-- Past every deadline the answers are those of the breaker without
  benches. -/
  unbenched : Reach ((wordMachine config).system (· = Words.new)) free (erase s) ∧
    ∀ i choice a, (machine config).result s i choice = some (.admission a) →
      (∃ now d, s.pc i = some (.admitBench now) ∧ d ∈ s.shared.deadlines ∧ now < d ∧ a = .no) ∨
        (wordMachine config).result (erase s) i choice = some (.admission a)
  /-- The deadline never moves earlier but for a recorded success or an
  `admit` past it. -/
  shortened : ∀ i choice s', (machine config).next s (.step i choice) = some s' →
    s'.shared.benchUntilMs < s.shared.benchUntilMs →
    s.pc i = some .successBench ∨
      ∃ now, s.pc i = some (.admitClear now s.shared.benchUntilMs) ∧ s.shared.benchUntilMs ≤ now
  /-- An `admit` past the deadline it read does not leave it behind. -/
  cleared : ∀ i choice now d s', s.pc i = some (.admitClear now d) →
    (machine config).next s (.step i choice) = some s' → s'.shared.benchUntilMs ≠ d

omit [DecidableEq ι] in
theorem exists_deadline {deadlines : List Nat} {now : Nat} (h : now < latest deadlines) :
    ∃ d ∈ deadlines, now < d := by
  induction deadlines with
  | nil => exact absurd h (Nat.not_lt_zero now)
  | cons d rest ih =>
    rcases lt_max_iff.mp h with hd | hrest
    · exact ⟨d, List.mem_cons_self, hd⟩
    · obtain ⟨e, he, hlt⟩ := ih hrest
      exact ⟨e, List.mem_cons_of_mem _ he, hlt⟩

theorem next_step {s s' : State ι Shared Pc} {i : ι} {choice : Bool} {p : Pc}
    (hp : s.pc i = some p) (h : (machine config).next s (.step i choice) = some s') :
    ∃ out, step config s.shared p choice = some (s'.shared, out) := by
  rcases Machine.next_cases _ h with ⟨_, _, ha, _⟩ | ⟨j, choice', q, shared, out, ha, hq, hm, rfl⟩
  · cases ha
  · cases ha
    rw [hp, Option.some.injEq] at hq
    subst hq
    exact ⟨out, hm⟩

/-- The law of benches, for any number of threads in any interleaving, with
any clock readings. -/
theorem bench_law {s : State ι Shared Pc}
    (h : Reach ((machine config).system (· = Shared.new)) free s) : BenchLaw config s := by
  have hinv := reach_bench h
  refine ⟨?_, hinv.shared, ⟨erase_reach h, ?_⟩, ?_, ?_⟩
  · intro j d choice s₁ s₂ hj hnext hreach i now choice' hi hlt
    have hd : d ≤ s₁.shared.benchUntilMs := by
      obtain ⟨out, hm⟩ := next_step hj hnext
      change some (_, _) = some (s₁.shared, out) at hm
      rw [Option.some.injEq, Prod.mk.injEq] at hm
      rw [← hm.1]
      exact Nat.le_max_right _ _
    have hbench := bench_holds (reach_bench (.step h trivial hnext)) hd hreach
    have hne : s₂.shared.benchUntilMs ≠ 0 := by omega
    have hnow : now < s₂.shared.benchUntilMs := by omega
    have hstep : (machine config).step s₂.shared (.admitBench now) choice' =
        some (s₂.shared, .returns (.admission .no)) := by
      show step config s₂.shared (.admitBench now) choice' = _
      unfold step
      dsimp only
      rw [if_pos hne, if_pos hnow]
    unfold Machine.result
    rw [hi]
    dsimp only
    rw [hstep]
  · intro i choice a hresult
    rcases result_erase hresult with ⟨now, hi, hlt, ha⟩ | hword
    · rw [hinv.shared] at hlt
      obtain ⟨d, hd, hlt⟩ := exists_deadline hlt
      exact Or.inl ⟨now, d, hi, hd, hlt, ha⟩
    · exact Or.inr hword
  · intro i choice s' hnext hlt
    cases hp : s.pc i with
    | none =>
      unfold Machine.next at hnext
      dsimp only at hnext
      rw [hp] at hnext
      cases hnext
    | some p =>
      obtain ⟨out, hm⟩ := next_step hp hnext
      generalize s'.shared = shared at hm hlt
      cases step_moves hm with
      | keeps hbench _ => exact absurd hbench (Nat.ne_of_lt hlt)
      | benches untilMs => exact absurd hlt (not_lt.mpr (Nat.le_max_left _ _))
      | expires now => exact Or.inr ⟨now, rfl, (hinv.thread i _ hp).2⟩
      | succeeds => exact Or.inl rfl
  · intro i choice now d s' hi hnext
    obtain ⟨hne, _⟩ := hinv.thread i _ hi
    obtain ⟨out, hm⟩ := next_step hi hnext
    unfold step at hm
    dsimp only at hm
    rw [Option.some.injEq, Prod.mk.injEq] at hm
    obtain ⟨hshared, _⟩ := hm
    rw [← hshared]
    split
    · exact hne.symm
    · next hother => exact hother

end

instance {ι : Type} (d : Nat) (s : State ι Shared Pc) (a : Label ι Call Bool) :
    Decidable (Quiet d s a) :=
  match a with
  | .invoke _ _ => isTrue trivial
  | .step i _ => inferInstanceAs (Decidable ((s.pc i).all (quiet d) = true))

/-- A seat benched until 100; an `admit` at 150 is about to clear that when
the seat is benched until 500. -/
def clearingTrace : List (Label (Fin 3) Call Bool) :=
  [.invoke 0 (.benchUntil 100), .step 0 false, .invoke 1 (.admitAt 150), .step 1 false,
    .invoke 0 (.benchUntil 500)]

/-- Then the clearing goes on, and an `admit` at 400 begins. -/
def refusedTrace : List (Label (Fin 3) Call Bool) :=
  [.step 1 false, .step 1 false, .invoke 2 (.admitAt 400)]

def plainConfig : Config := ⟨1, 100, 10⟩

theorem bench_law_clearing :
    ∃ s : State (Fin 3) Shared Pc, BenchLaw plainConfig s ∧ s.shared.benchUntilMs = 100 ∧
      ∃ s₁ s₂ : State (Fin 3) Shared Pc,
        (machine plainConfig).next s (.step 0 false) = some s₁ ∧
          run (machine plainConfig).next s₁ refusedTrace = some s₂ ∧
          (machine plainConfig).result s₂ 2 false = some (.admission .no) := by
  have hstart : ((machine plainConfig).system (· = Shared.new)).init
      (Machine.initial Shared.new : State (Fin 3) Shared Pc) := ⟨_, rfl, rfl⟩
  have hreach := Reach.of_trace free (machine plainConfig).next hstart clearingTrace (by decide)
    (by decide)
  have hlaw := bench_law hreach
  refine ⟨_, hlaw, rfl, _, _, rfl, rfl, ?_⟩
  refine hlaw.refused 0 500 false _ _ rfl rfl ?_ 2 400 false rfl (by decide)
  exact Reach.of_run refusedTrace (.start rfl) (by decide) rfl

end RapidRouter.Core.Breaker
