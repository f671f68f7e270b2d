import RapidRouter.Core.Breaker

/-!
# A tripped breaker

Open and half-open share one word and one timestamp, which an `admit` that
wins the probe and a failure that opens the breaker both rewrite. `event` is
what a step does to that word, and a run is taken with the list of its
events. The word is always the one the latest event wrote (`LogInv`), so what
an exchange requires of the word it replaces is a relation between an event
and the one before it (`Event.Follows`): a probe comes a cooldown after
whatever it follows, and a failure never opens an open breaker.

What follows is `trip_law`. Its last part is about runs that leave the word
alone: there an `admit` past the cooldown can be answered by a probe only, and
its fourth step, not counting exchanges that fail without a reason, is that
answer.
-/

namespace RapidRouter.Core.Breaker

open Interleave Lts

/-- What a step wrote to the word. -/
inductive Event where
  | opened (now : Nat)
  | probed (now : Nat)
  | reset
  deriving DecidableEq

/-- The reading of the call that wrote the word. -/
def Event.reading : Event → Nat
  | .opened now | .probed now => now
  | .reset => 0

def Event.state : Event → Nat
  | .opened _ => open_
  | .probed _ => halfOpen
  | .reset => closed

def Event.word (e : Event) : Nat := pack e.reading e.state

def wordEvent (s : Words) (p : WordPc) (spurious : Bool) : Option Event :=
  match p with
  | .admitProbe now current => if !spurious && s.word = current then some (.probed now) else none
  | .failureOpen now current => if !spurious && s.word = current then some (.opened now) else none
  | .successWord => some .reset
  | _ => none

def event {ι : Type} (s : State ι Shared Pc) : Label ι Call Bool → Option Event
  | .invoke _ _ => none
  | .step i choice =>
    match s.pc i with
    | some (.word p) => wordEvent s.shared.words p choice
    | _ => none

/-! ## One step and the word -/

theorem unpack_pack {sinceMs state : Nat} (hsince : sinceMs < 2 ^ 62) (hstate : state < 4) :
    unpack (pack sinceMs state) = (sinceMs, state) := by
  unfold unpack pack
  have hfits : sinceMs * 4 % 2 ^ 64 = sinceMs * 4 := Nat.mod_eq_of_lt (by omega)
  rw [hfits, Prod.mk.injEq]
  omega

variable {config : Config}

theorem wordStep_word {s s' : Words} {p : WordPc} {spurious : Bool} {out : Outcome WordPc Ret}
    (h : wordStep config s p spurious = some (s', out)) :
    s'.word = ((wordEvent s p spurious).map Event.word).getD s.word := by
  cases p with
  | admitProbe now current | failureOpen now current =>
    unfold wordStep at h
    unfold wordEvent
    dsimp only at h ⊢
    split at h
    · next hswap =>
      cases h
      rw [if_pos hswap]
      rfl
    · next hswap =>
      cases h
      rw [if_neg hswap]
      rfl
  | failureRestart now current windowStart =>
    unfold wordStep at h
    dsimp only at h
    split at h <;> cases h <;> rfl
  | admitLoad now | successFailures | successWord | failureLoad now | failureWindow now current
  | failureFirst now current | failureCount now current | healthLoad now =>
    cases h
    rfl

/-- What a position knows of the word it has read: an `admit` about to claim
the probe found the cooldown over, a failure about to open the breaker did not
find it open. -/
def Sound (config : Config) : WordPc → Prop
  | .admitLoad now | .failureLoad now | .healthLoad now => now < 2 ^ 62
  | .admitProbe now current =>
    now < 2 ^ 62 ∧ (unpack current).2 ≠ closed ∧ (unpack current).1 + config.cooldownMs ≤ now
  | .failureOpen now current | .failureWindow now current | .failureRestart now current _
  | .failureFirst now current | .failureCount now current =>
    now < 2 ^ 62 ∧ (unpack current).2 ≠ open_
  | .successFailures | .successWord => True

theorem sound_admitFrom (hcool : 0 < config.cooldownMs) {now current : Nat} (hnow : now < 2 ^ 62)
    {q : WordPc} (h : admitFrom config now current = .goes q) : Sound config q := by
  unfold admitFrom at h
  split at h
  · cases h
  · next hstate =>
    split at h
    · cases h
    · next hwait =>
      cases h
      -- the source's saturating difference is positive here, so it is exact
      exact ⟨hnow, hstate, by omega⟩

theorem sound_failureFrom {now current : Nat} (hnow : now < 2 ^ 62) {q : WordPc}
    (h : failureFrom now current = .goes q) : Sound config q := by
  unfold failureFrom at h
  split at h
  · cases h
  · next hopen =>
    split at h <;> cases h <;> exact ⟨hnow, hopen⟩

theorem sound_tripFrom {now current count : Nat}
    (hpc : now < 2 ^ 62 ∧ (unpack current).2 ≠ open_) {q : WordPc}
    (h : tripFrom config now current count = .goes q) : Sound config q := by
  unfold tripFrom at h
  split at h <;> cases h
  exact hpc

theorem sound_step (hcool : 0 < config.cooldownMs) {s s' : Words} {p q : WordPc} {spurious : Bool}
    (hp : Sound config p) (h : wordStep config s p spurious = some (s', .goes q)) :
    Sound config q := by
  have hout : ∀ {words : Words} {out : Outcome WordPc Ret},
      some (words, out) = some (s', .goes q) → out = .goes q := by
    intro words out heq
    rw [Option.some.injEq, Prod.mk.injEq] at heq
    exact heq.2
  cases p with
  | admitLoad now => exact sound_admitFrom hcool hp (hout h)
  | admitProbe now current =>
    unfold wordStep at h
    dsimp only at h
    split at h
    · cases h
    · exact sound_admitFrom hcool hp.1 (hout h)
  | successFailures =>
    cases h
    trivial
  | successWord | healthLoad now => cases h
  | failureLoad now => exact sound_failureFrom hp (hout h)
  | failureOpen now current =>
    unfold wordStep at h
    dsimp only at h
    split at h
    · cases h
    · exact sound_failureFrom hp.1 (hout h)
  | failureWindow now current =>
    have hgoes := hout h
    split at hgoes <;> cases hgoes <;> exact hp
  | failureRestart now current windowStart =>
    unfold wordStep at h
    dsimp only at h
    split at h <;> cases h <;> exact hp
  | failureFirst now current | failureCount now current => exact sound_tripFrom hp (hout h)

/-! ## The events of a run -/

/-- An event may come right after the word it replaces. -/
def Event.Follows (config : Config) : Event → Nat → Prop
  | .probed now, word =>
    (unpack word).2 ≠ closed ∧ (unpack word).1 + config.cooldownMs ≤ now
  | .opened _, word => (unpack word).2 ≠ open_
  | .reset, _ => True

theorem wordEvent_follows {s : Words} {p : WordPc} {spurious : Bool} {e : Event}
    (hp : Sound config p) (h : wordEvent s p spurious = some e) :
    e.reading < 2 ^ 62 ∧ e.Follows config s.word := by
  unfold wordEvent at h
  cases p with
  | admitProbe now current =>
    dsimp only at h
    split at h <;> cases h
    next hswap =>
      rw [Bool.and_eq_true, decide_eq_true_eq] at hswap
      rw [hswap.2]
      exact hp
  | failureOpen now current =>
    dsimp only at h
    split at h <;> cases h
    next hswap =>
      rw [Bool.and_eq_true, decide_eq_true_eq] at hswap
      rw [hswap.2]
      exact hp
  | successWord =>
    cases h
    exact ⟨by show 0 < _; omega, trivial⟩
  | admitLoad now | successFailures | failureLoad now | failureWindow now current
  | failureRestart now current windowStart | failureFirst now current | failureCount now current
  | healthLoad now => cases h

/-- The word the latest event wrote. -/
def lastWord : List Event → Nat
  | [] => pack 0 closed
  | e :: _ => e.word

/-- Every event may follow the ones before it, the latest first. -/
def History (config : Config) : List Event → Prop
  | [] => True
  | e :: earlier =>
    (e.reading < 2 ^ 62 ∧ e.Follows config (lastWord earlier)) ∧ History config earlier

theorem History.drop {later earlier : List Event} (h : History config (later ++ earlier)) :
    History config earlier := by
  induction later with
  | nil => exact h
  | cons e later ih => exact ih h.2

theorem Event.state_lt (e : Event) : e.state < 4 := by
  cases e with
  | opened now => show open_ < 4; decide
  | probed now => show halfOpen < 4; decide
  | reset => show closed < 4; decide

theorem unpack_word {e : Event} (h : e.reading < 2 ^ 62) : unpack e.word = (e.reading, e.state) :=
  unpack_pack h e.state_lt

/-- A probe comes a cooldown after the event it follows, whatever it is. -/
theorem probed_after {now : Nat} {e : Event} {earlier : List Event}
    (h : History config (.probed now :: e :: earlier)) :
    e.reading + config.cooldownMs ≤ now := by
  obtain ⟨⟨_, _, hwait⟩, ⟨hreading, _⟩, _⟩ := h
  have hsince : (unpack e.word).1 = e.reading := by rw [unpack_word hreading]
  change (unpack e.word).1 + config.cooldownMs ≤ now at hwait
  omega

/-- Through any number of probes. -/
theorem probed_spaced {now : Nat} {e : Event} {between earlier : List Event}
    (hbetween : ∀ b ∈ between, ∃ n, b = .probed n)
    (h : History config (.probed now :: (between ++ e :: earlier))) :
    e.reading + config.cooldownMs ≤ now := by
  induction between generalizing now with
  | nil => exact probed_after h
  | cons b between ih =>
    obtain ⟨n, rfl⟩ := hbetween b List.mem_cons_self
    have hrest := ih (fun c hc => hbetween c (List.mem_cons_of_mem _ hc)) h.2
    have hlast : n + config.cooldownMs ≤ now := probed_after h
    omega

/-- No failure opens an open breaker. -/
theorem not_opened_twice {now t : Nat} {earlier : List Event}
    (h : History config (.opened now :: .opened t :: earlier)) : False := by
  obtain ⟨⟨_, hfollows⟩, ⟨hreading, _⟩, _⟩ := h
  apply hfollows
  show (unpack (Event.opened t).word).2 = open_
  rw [unpack_word hreading]
  rfl

/-- Only a probe or a success comes between two openings. -/
theorem between_opened {t : Nat} {between earlier : List Event}
    (hbetween : ∀ b ∈ between, b ≠ .reset ∧ ∀ n, b ≠ .probed n)
    (h : History config (between ++ .opened t :: earlier)) : between = [] := by
  rcases List.eq_nil_or_concat between with hnil | ⟨front, b, hconcat⟩
  · exact hnil
  · exfalso
    rw [List.concat_eq_append] at hconcat
    subst hconcat
    obtain ⟨hreset, hprobed⟩ := hbetween b (by simp)
    rw [List.append_assoc] at h
    cases b with
    | opened now => exact not_opened_twice h.drop
    | probed now => exact hprobed now rfl
    | reset => exact hreset rfl

/-! ## The runs -/

/-- The clock reading a call is made with. -/
def Call.reading : Call → Nat
  | .admitAt now | .recordFailure now | .looksHealthy now => now
  | .benchUntil _ | .recordSuccess => 0

section
variable {ι : Type}

/-- The timestamps packed into the word keep all their bits. -/
def Fits : Label ι Call Bool → Prop
  | .invoke _ call => call.reading < 2 ^ 62
  | .step _ _ => True

/-- `Sound`, of every position. -/
def Timed (config : Config) : Pc → Prop
  | .admitBench now | .admitClear now _ | .healthBench now => now < 2 ^ 62
  | .benchMax _ | .successBench => True
  | .word p => Sound config p

theorem timed_start {call : Call} (h : call.reading < 2 ^ 62) : Timed config (start call) := by
  cases call with
  | admitAt now | recordFailure now | looksHealthy now => exact h
  | benchUntil untilMs | recordSuccess => trivial

theorem timed_step (hcool : 0 < config.cooldownMs) {s s' : Shared} {p q : Pc} {spurious : Bool}
    (hp : Timed config p) (h : step config s p spurious = some (s', .goes q)) :
    Timed config q := by
  cases p with
  | admitBench now =>
    change some (s, _) = some (s', _) at h
    rw [Option.some.injEq, Prod.mk.injEq] at h
    obtain ⟨_, hout⟩ := h
    split at hout
    · split at hout <;> cases hout
      exact hp
    · cases hout
      exact hp
  | admitClear now bench =>
    cases h
    exact hp
  | benchMax untilMs | successBench | healthBench now => cases h
  | word p =>
    unfold step at h
    dsimp only at h
    split at h
    · cases h
    · next words r hstep =>
      cases h
      exact sound_step hcool hp hstep
    · next words r hstep =>
      rw [Option.some.injEq, Prod.mk.injEq] at h
      obtain ⟨_, hout⟩ := h
      unfold afterWord at hout
      split at hout <;> cases hout
      · trivial
      · exact hp

/-- The words after a step are those of its event. -/
theorem step_word {s s' : Shared} {p : Pc} {spurious : Bool} {out : Outcome Pc Ret}
    (h : step config s p spurious = some (s', out)) :
    s'.words.word = (match p with
      | .word p => ((wordEvent s.words p spurious).map Event.word).getD s.words.word
      | _ => s.words.word) := by
  cases p with
  | admitBench now | benchMax untilMs | successBench | healthBench now =>
    cases h
    rfl
  | admitClear now bench =>
    cases h
    dsimp only
    split <;> rfl
  | word p =>
    unfold step at h
    dsimp only at h
    split at h <;> cases h
    · next hstep => exact wordStep_word hstep
    · next hstep => exact wordStep_word hstep

variable [DecidableEq ι]

/-- The breaker with the events of the run so far. -/
def tripNext (config : Config) :
    State ι Shared Pc × List Event → Label ι Call Bool → Option (State ι Shared Pc × List Event) :=
  logged (machine config).next event

def tripSystem (config : Config) : System (State ι Shared Pc × List Event) (Label ι Call Bool) :=
  ofNext (· = (Machine.initial Shared.new, [])) (tripNext config)

/-- The word is the latest event's, and the events follow one another. -/
structure LogInv (config : Config) (s : State ι Shared Pc) (log : List Event) : Prop where
  word : s.shared.words.word = lastWord log
  history : History config log
  threads : Machine.Inv (fun _ => True) (fun _ p => Timed config p) s

theorem logInv_step (hcool : 0 < config.cooldownMs) {s s' : State ι Shared Pc} {log log' : List Event}
    {a : Label ι Call Bool} (hinv : LogInv config s log) (hfits : Fits a)
    (h : tripNext config (s, log) a = some (s', log')) : LogInv config s' log' := by
  obtain ⟨hnext, hlog⟩ := logged_cases h
  dsimp only at hnext hlog
  have hthreads : Machine.Inv (fun _ => True) (fun _ p => Timed config p) s' := by
    refine Machine.inv_step hinv.threads ?_ ?_ hnext
    · intro i call ha _
      subst ha
      exact timed_start hfits
    · intro i choice p shared out _ _ _ hp hm
      refine ⟨trivial, fun q hq => ?_, fun _ _ _ _ hq => hq⟩
      subst hq
      exact timed_step hcool hp hm
  rcases Machine.next_cases _ hnext with ⟨i, call, rfl, _, rfl⟩ |
    ⟨i, choice, p, shared, out, rfl, hp, hm, rfl⟩
  · subst hlog
    exact ⟨hinv.word, hinv.history, hthreads⟩
  · have hword := step_word hm
    have hquiet : (∀ q, p ≠ .word q) → LogInv config
        (⟨shared, Function.update s.pc i out.position⟩ : State ι Shared Pc) log' := by
      intro hother
      have hevent : event s (.step i choice) = none := by
        unfold event
        dsimp only
        rw [hp]
        cases p with
        | word q => exact absurd rfl (hother q)
        | admitBench now | admitClear now bench | benchMax untilMs | successBench
        | healthBench now => rfl
      rw [hevent] at hlog
      subst hlog
      refine ⟨?_, hinv.history, hthreads⟩
      refine Eq.trans ?_ hinv.word
      cases p with
      | word q => exact absurd rfl (hother q)
      | admitBench now | admitClear now bench | benchMax untilMs | successBench
      | healthBench now => exact hword
    cases p with
    | admitBench now | admitClear now bench | benchMax untilMs | successBench
    | healthBench now => exact hquiet fun q hq => by cases hq
    | word p =>
      have hevent : event s (.step i choice) = wordEvent s.shared.words p choice := by
        unfold event
        dsimp only
        rw [hp]
      rw [hevent] at hlog
      have hsound : Sound config p := hinv.threads.thread i _ hp
      change shared.words.word = ((wordEvent s.shared.words p choice).map Event.word).getD _ at hword
      cases he : wordEvent s.shared.words p choice with
      | none =>
        rw [he] at hlog hword
        subst hlog
        exact ⟨hword.trans hinv.word, hinv.history, hthreads⟩
      | some e =>
        rw [he] at hlog hword
        subst hlog
        obtain ⟨hreading, hfollows⟩ := wordEvent_follows hsound he
        rw [hinv.word] at hfollows
        exact ⟨hword, ⟨⟨hreading, hfollows⟩, hinv.history⟩, hthreads⟩

theorem reach_logInv (hcool : 0 < config.cooldownMs) {s : State ι Shared Pc × List Event}
    (h : Reach (tripSystem config) (fun _ a => Fits a) s) : LogInv config s.1 s.2 := by
  refine h.invariant (I := fun s => LogInv config s.1 s.2) ?_ ?_
  · intro s hs
    rw [show s = _ from hs]
    exact ⟨rfl, trivial, trivial, fun i p hp => by cases hp⟩
  · intro s a s' hs hfits hnext
    exact logInv_step hcool hs hfits hnext

/-! ## What an `admit` answers -/

omit [DecidableEq ι] in
/-- The last step of an `admit`. -/
theorem result_cases {s : State ι Shared Pc} {i : ι} {choice : Bool} {a : Admission}
    (h : (machine config).result s i choice = some (.admission a)) :
    (∃ now, s.pc i = some (.admitBench now) ∧ now < s.shared.benchUntilMs ∧ a = .no) ∨
      ∃ p words, s.pc i = some (.word p) ∧
        wordStep config s.shared.words p choice = some (words, .returns (.admission a)) := by
  rcases result_erase h with hbench | hword
  · exact Or.inl hbench
  · obtain ⟨p, words, hp, hm⟩ := Machine.result_eq_some.mp hword
    obtain ⟨q, shared, hq, hstep⟩ := Machine.result_eq_some.mp h
    have herase : (s.pc i).bind Pc.erase = some p := hp
    refine Or.inr ⟨p, words, ?_, hm⟩
    rw [hq] at herase ⊢
    change q.erase = some p at herase
    cases q with
    | word q => exact congrArg (some ∘ Pc.word) (Option.some.inj herase)
    | admitClear now bench => cases hstep
    | admitBench now | benchMax untilMs | successBench | healthBench now => cases herase

theorem admitFrom_answers {now current : Nat} {a : Admission}
    (h : admitFrom config now current = .returns (.admission a)) :
    (a = .yes ∧ (unpack current).2 = closed) ∨ a = .no := by
  unfold admitFrom at h
  split at h
  · next hclosed =>
    cases h
    exact Or.inl ⟨rfl, hclosed⟩
  · split at h <;> cases h
    exact Or.inr rfl

theorem failureFrom_answers {now current : Nat} {a : Admission} :
    failureFrom now current ≠ .returns (.admission a) := by
  unfold failureFrom
  split
  · intro h
    cases h
  · split <;> intro h <;> cases h

theorem tripFrom_answers {now current count : Nat} {a : Admission} :
    tripFrom config now current count ≠ .returns (.admission a) := by
  unfold tripFrom
  split <;> intro h <;> cases h

/-- The probe is the exchange of the word, and a request passes a closed
breaker only. -/
theorem wordStep_admission {s words : Words} {p : WordPc} {choice : Bool} {a : Admission}
    (h : wordStep config s p choice = some (words, .returns (.admission a))) :
    (∃ now, a = .probe ∧ wordEvent s p choice = some (.probed now)) ∨
      (a = .yes ∧ (unpack s.word).2 = closed) ∨ a = .no := by
  have hout : ∀ {words' : Words} {out : Outcome WordPc Ret},
      some (words', out) = some (words, .returns (.admission a)) → out = .returns (.admission a) := by
    intro words' out heq
    rw [Option.some.injEq, Prod.mk.injEq] at heq
    exact heq.2
  cases p with
  | admitLoad now => exact Or.inr (admitFrom_answers (hout h))
  | admitProbe now current =>
    unfold wordStep at h
    dsimp only at h
    split at h
    · next hswap =>
      cases h
      exact Or.inl ⟨now, rfl, if_pos hswap⟩
    · exact Or.inr (admitFrom_answers (hout h))
  | failureLoad now => exact absurd (hout h) failureFrom_answers
  | failureOpen now current =>
    unfold wordStep at h
    dsimp only at h
    split at h
    · cases h
    · exact absurd (hout h) failureFrom_answers
  | failureWindow now current =>
    have hgoes := hout h
    split at hgoes <;> cases hgoes
  | failureRestart now current windowStart =>
    unfold wordStep at h
    dsimp only at h
    split at h <;> cases h
  | failureFirst now current | failureCount now current => exact absurd (hout h) tripFrom_answers
  | successFailures | successWord | healthLoad now => cases h

omit [DecidableEq ι] in
/-- A thread whose exchange goes through answers with the probe. -/
theorem probe_result {s : State ι Shared Pc} {i : ι} {now current : Nat} {choice : Bool}
    (hp : s.pc i = some (.word (.admitProbe now current)))
    (hswap : (!choice && decide (s.shared.words.word = current)) = true) :
    (machine config).result s i choice = some (.admission .probe) := by
  have hstep : wordStep config s.shared.words (.admitProbe now current) choice =
      some ({ s.shared.words with word := pack now halfOpen }, .returns (.admission .probe)) :=
    if_pos hswap
  refine Machine.result_eq_some.mpr
    ⟨_, { s.shared with words := { s.shared.words with word := pack now halfOpen } }, hp, ?_⟩
  show step config s.shared (.word (.admitProbe now current)) choice = _
  unfold step
  dsimp only
  rw [hstep]
  rfl

/-- The positions of an `admit` with a reading. -/
def Admitting (now : Nat) : Pc → Prop
  | .admitBench n | .admitClear n _ | .word (.admitLoad n) | .word (.admitProbe n _) => n = now
  | _ => False

/-- How many of its own steps an `admit` is from its exchange of the word. -/
def distance (word : Nat) : Pc → Nat
  | .admitBench _ => 3
  | .admitClear _ _ => 2
  | .word (.admitLoad _) => 1
  | .word (.admitProbe _ current) => if word = current then 0 else 1
  | _ => 0

theorem distance_le (word : Nat) (p : Pc) : distance word p ≤ 3 := by
  unfold distance
  split
  · exact le_rfl
  · omega
  · omega
  · split <;> omega
  · omega

theorem admitting_fits {now : Nat} {p : Pc} (hp : Timed config p) (hposition : Admitting now p) :
    now < 2 ^ 62 := by
  cases p with
  | admitBench n | admitClear n bench =>
    obtain rfl : n = now := hposition
    exact hp
  | word p =>
    cases p with
    | admitLoad n =>
      obtain rfl : n = now := hposition
      exact hp
    | admitProbe n current =>
      obtain rfl : n = now := hposition
      exact hp.1
    | successFailures | successWord | failureLoad n | failureOpen n current
    | failureWindow n current | failureRestart n current windowStart | failureFirst n current
    | failureCount n current | healthLoad n => cases hposition
  | benchMax untilMs | successBench | healthBench n => cases hposition

/-- A tripped breaker whose cooldown and deadline are over at a reading. -/
structure Ready (config : Config) (now : Nat) (s : Shared) : Prop where
  bench : s.benchUntilMs ≤ now
  state : (unpack s.words.word).2 ≠ closed
  waited : (unpack s.words.word).1 + config.cooldownMs ≤ now

theorem admitFrom_ready (hcool : 0 < config.cooldownMs) {now word : Nat}
    (hstate : (unpack word).2 ≠ closed) (hwaited : (unpack word).1 + config.cooldownMs ≤ now) :
    admitFrom config now word = .goes (.admitProbe now word) := by
  have hwait : ¬ now - (unpack word).1 < config.cooldownMs := by omega
  unfold admitFrom
  rw [if_neg hstate, if_neg hwait]

/-- One step of an `admit` on a breaker that is ready for it: the probe, or
an own step closer to it, or an exchange that failed without a reason. -/
theorem admitting_step (hcool : 0 < config.cooldownMs) {now : Nat} {s s' : Shared} {p : Pc}
    {choice : Bool} {out : Outcome Pc Ret} (hready : Ready config now s) (hp : Admitting now p)
    (h : step config s p choice = some (s', out)) :
    (out = .returns (.admission .probe) ∧ s'.words.word = pack now halfOpen) ∨
      ∃ q, out = .goes q ∧ Admitting now q ∧ s'.words.word = s.words.word ∧
        s'.benchUntilMs ≤ s.benchUntilMs ∧
        distance s.words.word q + (if choice then 0 else 1) ≤ distance s.words.word p := by
  have hcost : (if choice then 0 else 1) ≤ 1 := by split <;> omega
  have hfrom := admitFrom_ready hcool hready.state hready.waited
  have hzero : distance s.words.word (.word (.admitProbe now s.words.word)) = 0 := if_pos rfl
  cases p with
  | admitBench n =>
    obtain rfl : n = now := hp
    have hlate : ¬ n < s.benchUntilMs := Nat.not_lt.mpr hready.bench
    unfold step at h
    dsimp only at h
    rw [if_neg hlate] at h
    rw [Option.some.injEq, Prod.mk.injEq] at h
    obtain ⟨rfl, rfl⟩ := h
    refine Or.inr ?_
    split
    · exact ⟨_, rfl, rfl, rfl, le_rfl, by show 2 + _ ≤ 3; omega⟩
    · exact ⟨_, rfl, rfl, rfl, le_rfl, by show 1 + _ ≤ 3; omega⟩
  | admitClear n bench =>
    obtain rfl : n = now := hp
    cases h
    refine Or.inr ⟨_, rfl, rfl, ?_, ?_, by show 1 + _ ≤ 2; omega⟩
    · split <;> rfl
    · split
      · exact Nat.zero_le _
      · exact le_rfl
  | word p =>
    cases p with
    | admitLoad n =>
      obtain rfl : n = now := hp
      have hstep : wordStep config s.words (.admitLoad n) choice =
          some (s.words, .goes (.admitProbe n s.words.word)) := by
        show some (s.words, admitFrom config n s.words.word) = _
        rw [hfrom]
      unfold step at h
      dsimp only at h
      rw [hstep] at h
      cases h
      refine Or.inr ⟨_, rfl, rfl, rfl, le_rfl, ?_⟩
      rw [hzero]
      show 0 + _ ≤ 1
      omega
    | admitProbe n current =>
      obtain rfl : n = now := hp
      by_cases hswap : (!choice && decide (s.words.word = current)) = true
      · have hstep : wordStep config s.words (.admitProbe n current) choice =
            some ({ s.words with word := pack n halfOpen }, .returns (.admission .probe)) :=
          if_pos hswap
        unfold step at h
        dsimp only at h
        rw [hstep] at h
        cases h
        exact Or.inl ⟨rfl, rfl⟩
      · have hstep : wordStep config s.words (.admitProbe n current) choice =
            some (s.words, .goes (.admitProbe n s.words.word)) := by
          rw [← hfrom]
          exact if_neg hswap
        unfold step at h
        dsimp only at h
        rw [hstep] at h
        cases h
        refine Or.inr ⟨_, rfl, rfl, rfl, le_rfl, ?_⟩
        rw [hzero]
        show 0 + _ ≤ (if s.words.word = current then 0 else 1)
        -- only an exchange that fails without a reason finds the word it read
        cases choice with
        | true => exact Nat.zero_le _
        | false =>
          have hmoved : ¬ s.words.word = current := by simpa using hswap
          rw [if_neg hmoved]
          exact le_rfl
    | successFailures | successWord | failureLoad n | failureOpen n current
    | failureWindow n current | failureRestart n current windowStart | failureFirst n current
    | failureCount n current | healthLoad n => cases hp
  | benchMax untilMs | successBench | healthBench n => cases hp

/-! ## A run that leaves the word alone -/

/-- No seat is benched by the step, and it leaves the word as it is. -/
def Calm (config : Config) (s : State ι Shared Pc) : Label ι Call Bool → Prop
  | .invoke _ _ => True
  | .step i choice =>
    (∀ d, s.pc i ≠ some (.benchMax d)) ∧
      ∀ s', (machine config).next s (.step i choice) = some s' →
        s'.shared.words.word = s.shared.words.word

/-- A step of a thread, not an exchange made to fail. -/
def isOwn (i : ι) : Label ι Call Bool → Bool
  | .step j choice => j = i && !choice
  | .invoke _ _ => false

def ownSteps (i : ι) (as : List (Label ι Call Bool)) : Nat := as.countP (isOwn i)

/-- How an `admit` fares. -/
structure Wins (config : Config) (i : ι) (now : Nat) (steps : Nat) (s : State ι Shared Pc) :
    Prop where
  position : ∃ p, s.pc i = some p ∧ Admitting now p ∧ steps + distance s.shared.words.word p ≤ 3
  ready : Ready config now s.shared

theorem wins_step (hcool : 0 < config.cooldownMs) {i : ι} {now steps : Nat} (hnow : now < 2 ^ 62)
    {s s' : State ι Shared Pc} {a : Label ι Call Bool} (h : Wins config i now steps s)
    (hcalm : Calm config s a) (hnext : (machine config).next s a = some s') :
    Wins config i now (steps + if isOwn i a then 1 else 0) s' := by
  obtain ⟨⟨p, hp, hposition, hsteps⟩, hready⟩ := h
  rcases Machine.next_cases _ hnext with ⟨j, call, rfl, hidle, rfl⟩ |
    ⟨j, choice, q, shared, out, rfl, hq, hm, rfl⟩
  · have hij : i ≠ j := by
      intro hij
      rw [hij, hidle] at hp
      cases hp
    refine ⟨⟨p, ?_, hposition, hsteps⟩, hready⟩
    show Function.update s.pc j _ i = some p
    rw [Function.update_of_ne hij, hp]
  · have hword : shared.words.word = s.shared.words.word := hcalm.2 _ hnext
    by_cases hij : i = j
    · subst hij
      rw [hp, Option.some.injEq] at hq
      subst hq
      rcases admitting_step hcool hready hposition hm with ⟨_, hprobe⟩ |
        ⟨r, rfl, hr, _, hbench, hdistance⟩
      · -- the probe would have changed the word
        exfalso
        have hwaited := hready.waited
        rw [← hword, hprobe, unpack_pack hnow (by decide)] at hwaited
        omega
      · refine ⟨⟨r, Function.update_self .., hr, ?_⟩, ?_⟩
        · show _ + distance shared.words.word r ≤ 3
          rw [hword]
          have hown : (if isOwn i (.step i choice : Label ι Call Bool) then 1 else 0) =
              if choice then 0 else 1 := by
            unfold isOwn
            cases choice <;> simp
          omega
        · exact ⟨hbench.trans hready.bench, by rw [hword]; exact hready.state,
            by rw [hword]; exact hready.waited⟩
    · refine ⟨⟨p, ?_, hposition, ?_⟩, ?_, ?_, ?_⟩
      · show Function.update s.pc j _ i = some p
        rw [Function.update_of_ne hij, hp]
      · have hother : isOwn i (.step j choice : Label ι Call Bool) = false := by
          unfold isOwn
          simp [Ne.symm hij]
        show _ + distance shared.words.word p ≤ 3
        rw [hword, hother]
        exact hsteps
      · have hbench := hready.bench
        show shared.benchUntilMs ≤ now
        cases step_moves hm with
        | keeps hkeep _ => omega
        | benches untilMs => exact absurd hq (hcalm.1 untilMs)
        | expires n | succeeds => exact Nat.zero_le _
      · rw [hword]
        exact hready.state
      · rw [hword]
        exact hready.waited

/-- As long as the word is left alone, an `admit` past the cooldown is
answered by nothing but a probe, after at most three other steps of its
own. -/
theorem wins_run (hcool : 0 < config.cooldownMs) {i : ι} {now : Nat} (hnow : now < 2 ^ 62)
    {as : List (Label ι Call Bool)} {steps : Nat} {s s' : State ι Shared Pc}
    (h : Wins config i now steps s) (hcalm : Admitted (Calm config) (machine config).next s as)
    (hrun : run (machine config).next s as = some s') :
    Wins config i now (steps + ownSteps i as) s' := by
  induction as generalizing s steps with
  | nil =>
    cases hrun
    exact h
  | cons a as ih =>
    unfold run at hrun
    split at hrun
    · cases hrun
    · next t hnext =>
      have hrest : Admitted (Calm config) (machine config).next t as := by
        have hboth := hcalm.2
        rw [hnext] at hboth
        exact hboth
      have hstep := ih (wins_step hcool hnow h hcalm.1 hnext) hrest hrun
      have hcount : ownSteps i (a :: as) = (if isOwn i a then 1 else 0) + ownSteps i as := by
        unfold ownSteps
        rw [List.countP_cons, Nat.add_comm]
      rw [hcount, ← Nat.add_assoc]
      exact hstep

omit [DecidableEq ι] in
theorem Wins.result {i : ι} {now steps : Nat} {s : State ι Shared Pc} {choice : Bool} {r : Ret}
    (hcool : 0 < config.cooldownMs) (h : Wins config i now steps s)
    (hresult : (machine config).result s i choice = some r) : r = .admission .probe := by
  obtain ⟨⟨p, hp, hposition, _⟩, hready⟩ := h
  obtain ⟨q, shared, hq, hm⟩ := Machine.result_eq_some.mp hresult
  rw [hp, Option.some.injEq] at hq
  subst hq
  rcases admitting_step hcool hready hposition hm with ⟨hout, _⟩ | ⟨r', hout, _⟩
  · cases hout
    rfl
  · cases hout

omit [DecidableEq ι] in
theorem Wins.last {i : ι} {now : Nat} {s : State ι Shared Pc} (h : Wins config i now 3 s) :
    (machine config).result s i false = some (.admission .probe) := by
  obtain ⟨⟨p, hp, hposition, hdistance⟩, _⟩ := h
  have hzero : distance s.shared.words.word p = 0 := by omega
  cases p with
  | admitBench n => cases hzero
  | admitClear n bench => cases hzero
  | word p =>
    cases p with
    | admitLoad n => cases hzero
    | admitProbe n current =>
      have hsame : s.shared.words.word = current := by
        by_contra hmoved
        have hone : distance s.shared.words.word (.word (.admitProbe n current)) = 1 :=
          if_neg hmoved
        omega
      exact probe_result hp (by rw [Bool.not_false, Bool.true_and, decide_eq_true_eq]; exact hsame)
    | successFailures | successWord | failureLoad n | failureOpen n current
    | failureWindow n current | failureRestart n current windowStart | failureFirst n current
    | failureCount n current | healthLoad n => cases hposition
  | benchMax untilMs | successBench | healthBench n => cases hposition

/-! ## The law of a tripped breaker -/

/-- What a run has done to the word, and what an `admit` makes of it. -/
structure TripLaw (config : Config) (s : State ι Shared Pc) (log : List Event) : Prop where
  /-- The probes of the log are those `admit` returned. -/
  probes : ∀ i choice, (machine config).result s i choice = some (.admission .probe) ↔
    ∃ now, event s (.step i choice) = some (.probed now)
  /-- As long as no success is recorded after a failure opened the breaker,
  `admit` does not let a request through. -/
  refused : ∀ later t earlier, log = later ++ .opened t :: earlier → .reset ∉ later →
    ∀ i choice, (machine config).result s i choice ≠ some (.admission .yes)
  /-- The first probe after that comes a cooldown after that failure. -/
  first : ∀ later now between t earlier,
    log = later ++ .probed now :: (between ++ .opened t :: earlier) →
    (∀ b ∈ between, b ≠ .reset ∧ ∀ n, b ≠ .probed n) → t + config.cooldownMs ≤ now
  /-- Probes no failure comes between are a cooldown apart. -/
  apart : ∀ later now between t earlier,
    log = later ++ .probed now :: (between ++ .probed t :: earlier) →
    (∀ b ∈ between, b ≠ .reset ∧ ∀ n, b ≠ .opened n) → t + config.cooldownMs ≤ now
  /-- An `admit` a cooldown past the word's timestamp is answered by nothing
  but a probe as long as the word is left alone, and it is the fourth of its
  own steps at the latest. -/
  wins : ∀ i p now, s.pc i = some p → Admitting now p → Ready config now s.shared →
    ∀ as s', Admitted (Calm config) (machine config).next s as →
      run (machine config).next s as = some s' →
      ownSteps i as ≤ 3 ∧
        (ownSteps i as = 3 → (machine config).result s' i false = some (.admission .probe)) ∧
        (∃ q, s'.pc i = some q ∧ Admitting now q) ∧
        ∀ choice r, (machine config).result s' i choice = some r → r = .admission .probe

omit [DecidableEq ι] in
theorem event_word {s : State ι Shared Pc} {i : ι} {choice : Bool} {e : Event} :
    event s (.step i choice) = some e ↔
      ∃ p, s.pc i = some (.word p) ∧ wordEvent s.shared.words p choice = some e := by
  unfold event
  dsimp only
  constructor
  · intro h
    split at h
    · next p hp => exact ⟨p, hp, h⟩
    · cases h
  · rintro ⟨p, hp, h⟩
    rw [hp]
    exact h

omit [DecidableEq ι] in
/-- The step that wins the probe is the one that is logged. -/
theorem probe_iff_event (s : State ι Shared Pc) (i : ι) (choice : Bool) :
    (machine config).result s i choice = some (.admission .probe) ↔
      ∃ now, event s (.step i choice) = some (.probed now) := by
  constructor
  · intro h
    rcases result_cases h with ⟨_, _, _, hno⟩ | ⟨p, words, hp, hm⟩
    · cases hno
    · rcases wordStep_admission hm with ⟨now, _, he⟩ | ⟨hyes, _⟩ | hno
      · exact ⟨now, event_word.mpr ⟨p, hp, he⟩⟩
      · cases hyes
      · cases hno
  · rintro ⟨now, h⟩
    obtain ⟨p, hp, he⟩ := event_word.mp h
    unfold wordEvent at he
    split at he
    · next n current =>
      split at he <;> cases he
      next hswap => exact probe_result hp hswap
    · split at he <;> cases he
    · cases he
    · cases he

theorem trip_law (hcool : 0 < config.cooldownMs) {s : State ι Shared Pc} {log : List Event}
    (h : Reach (tripSystem config) (fun _ a => Fits a) (s, log)) : TripLaw config s log := by
  obtain ⟨hword, hhistory, hthreads⟩ := reach_logInv hcool h
  dsimp only at hword hhistory hthreads
  refine ⟨probe_iff_event s, ?_, ?_, ?_, ?_⟩
  · intro later t earlier hlog hreset i choice hyes
    rcases result_cases hyes with ⟨_, _, _, hno⟩ | ⟨p, words, hp, hm⟩
    · cases hno
    · rcases wordStep_admission hm with ⟨_, hprobe, _⟩ | ⟨_, hclosed⟩ | hno
      · cases hprobe
      · rw [hword, hlog] at hclosed
        rw [hlog] at hhistory
        cases later with
        | nil =>
          change (unpack (Event.opened t).word).2 = closed at hclosed
          rw [unpack_word hhistory.1.1] at hclosed
          cases hclosed
        | cons e later =>
          change (unpack e.word).2 = closed at hclosed
          rw [unpack_word hhistory.1.1] at hclosed
          cases e with
          | opened n | probed n => cases hclosed
          | reset => exact hreset List.mem_cons_self
      · cases hno
  · intro later now between t earlier hlog hbetween
    rw [hlog] at hhistory
    have hrun := hhistory.drop
    have hnil := between_opened hbetween hrun.2
    rw [hnil] at hrun
    exact probed_after hrun
  · intro later now between t earlier hlog hbetween
    rw [hlog] at hhistory
    refine @probed_spaced config now (.probed t) between earlier (fun b hb => ?_) hhistory.drop
    obtain ⟨hreset, hopened⟩ := hbetween b hb
    cases b with
    | opened n => exact absurd rfl (hopened n)
    | probed n => exact ⟨n, rfl⟩
    | reset => exact absurd rfl hreset
  · intro i p now hp hposition hready as s' hcalm hrun
    have hnow := admitting_fits (hthreads.thread i p hp) hposition
    have hdistance := distance_le s.shared.words.word p
    have hstart : Wins config i now 0 s := ⟨⟨p, hp, hposition, by omega⟩, hready⟩
    have hwins := wins_run hcool hnow hstart hcalm hrun
    rw [Nat.zero_add] at hwins
    obtain ⟨q, hq, hposition', hsteps⟩ := hwins.position
    refine ⟨by omega, fun hthree => ?_, ⟨q, hq, hposition'⟩, fun choice r => hwins.result hcool⟩
    rw [hthree] at hwins
    exact hwins.last

end

instance {ι : Type} (a : Label ι Call Bool) : Decidable (Fits a) :=
  match a with
  | .invoke _ call => inferInstanceAs (Decidable (call.reading < 2 ^ 62))
  | .step _ _ => isTrue trivial

/-- A failure at 5 opens the breaker, an `admit` at 15 is its probe, which
never reports, and another `admit` begins at 40. -/
def lostProbeTrace : List (Label (Fin 3) Call Bool) :=
  [.invoke 0 (.recordFailure 5), .step 0 false, .step 0 false, .step 0 false, .step 0 false,
    .invoke 1 (.admitAt 15), .step 1 false, .step 1 false, .step 1 false,
    .invoke 2 (.admitAt 40)]

theorem trip_law_lost_probe :
    ∃ s : State (Fin 3) Shared Pc, TripLaw plainConfig s [.probed 15, .opened 5] ∧
      s.pc 2 = some (.admitBench 40) ∧
      (∀ i choice, (machine plainConfig).result s i choice ≠ some (.admission .yes)) ∧
      5 + plainConfig.cooldownMs ≤ 15 := by
  have hstart : (tripSystem plainConfig).init
      ((Machine.initial Shared.new : State (Fin 3) Shared Pc), []) := rfl
  have hreach := Reach.of_trace (fun _ a => Fits a) (tripNext plainConfig) hstart lostProbeTrace
    (by decide) (by decide)
  have hlaw := trip_law (by decide) hreach
  refine ⟨_, hlaw, rfl, ?_, ?_⟩
  · exact hlaw.refused [.probed 15] 5 [] rfl (by decide)
  · exact hlaw.first [] 15 [] 5 [] rfl fun b hb => by cases hb

end RapidRouter.Core.Breaker
