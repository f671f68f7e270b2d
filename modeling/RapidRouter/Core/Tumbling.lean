import RapidRouter.Core.Trip

/-!
# When a breaker opens

One caller at a time: `alone` takes a call through its atomic steps with no
other thread between them and no exchange failing without a reason. A run is
a list of such calls with readings that never go back, and it keeps an
`Entry` for each of them.

The source counts failures with three words: a count that a success zeroes, a
window start that only a failure moves, and the state. What they add up to is
said of the entries alone. Only the failures recorded while the breaker is
closed count, and `failuresSince` are those of the current window since the
last success; the words agree with it (`Agrees`), so the breaker opens at the
failure that makes them as many as the threshold (`tumbles`).

If the failures recorded while the breaker is open moved the window as well,
as they would if every failure did, the answer would differ
(`open_failure_moves_no_window`).
-/

namespace RapidRouter.Core.Breaker

open Interleave Lts

/-! ## A call on its own -/

/-- The longest call is a failure that starts a window and opens the breaker. -/
def alone (config : Config) (s : Shared) (call : Call) : Option (Shared × Ret) :=
  (machine config).finish false 5 s (start call)

def isClosed (s : Shared) : Bool := (unpack s.words.word).2 = closed

variable {config : Config}

theorem finish_word_goes {fuel : Nat} {s : Shared} {words : Words} {p q : WordPc}
    (h : wordStep config s.words p false = some (words, .goes q)) :
    (machine config).finish false (fuel + 1) s (.word p) =
      (machine config).finish false fuel { s with words := words } (.word q) := by
  refine Machine.finish_goes ?_
  show step config s (.word p) false = _
  unfold step
  dsimp only
  rw [h]

theorem finish_word_returns {fuel : Nat} {s : Shared} {words : Words} {p : WordPc} {r : Ret}
    (h : wordStep config s.words p false = some (words, .returns r))
    (hp : afterWord p r = .returns r) :
    (machine config).finish false (fuel + 1) s (.word p) =
      some ({ s with words := words }, r) := by
  refine Machine.finish_returns ?_
  show step config s (.word p) false = _
  unfold step
  dsimp only
  rw [h]
  dsimp only
  rw [hp]

/-- The count and the window a failure leaves when it is counted. -/
def counted (config : Config) (s : Words) (now : Nat) : Words :=
  if now - s.windowStartMs > config.windowMs then { s with failures := 1, windowStartMs := now }
  else { s with failures := (s.failures + 1) % 2 ^ 32 }

/-- The words a failure leaves. -/
def failed (config : Config) (s : Words) (now : Nat) : Words :=
  if (unpack s.word).2 = open_ then s
  else if (unpack s.word).2 = halfOpen then { s with word := pack now open_ }
  else if (counted config s now).failures < config.failureThreshold then counted config s now
  else { counted config s now with word := pack now open_ }

theorem counted_word (s : Words) (now : Nat) : (counted config s now).word = s.word := by
  unfold counted
  split <;> rfl

/-- The exchange that opens the breaker, on the word just read. -/
theorem finish_failureOpen {fuel : Nat} {s : Shared} {now : Nat} :
    (machine config).finish false (fuel + 1) s (.word (.failureOpen now s.words.word)) =
      some ({ s with words := { s.words with word := pack now open_ } }, .done) := by
  refine finish_word_returns ?_ rfl
  show (if (!false && decide (s.words.word = s.words.word)) = true then _ else _) = _
  rw [if_pos (by rw [decide_eq_true rfl]; rfl)]

/-- With the failures counted. -/
theorem finish_trip (fuel : Nat) {s : Shared} {words : Words} {p : WordPc} {now : Nat}
    (hword : words.word = s.words.word) (hp : ∀ r, afterWord p r = .returns r)
    (h : wordStep config s.words p false =
      some (words, tripFrom config now s.words.word words.failures)) :
    (machine config).finish false (fuel + 2) s (.word p) =
      some ({ s with
        words := if words.failures < config.failureThreshold then words
          else { words with word := pack now open_ } }, .done) := by
  unfold tripFrom at h
  split at h
  · next hfew =>
    rw [finish_word_returns h (hp _), if_pos hfew]
  · next hmany =>
    rw [finish_word_goes h, if_neg hmany, ← hword]
    exact finish_failureOpen

theorem alone_failure (s : Shared) (now : Nat) :
    alone config s (.recordFailure now) =
      some ({ s with words := failed config s.words now }, .done) := by
  have hload : wordStep config s.words (.failureLoad now) false =
      some (s.words, failureFrom now s.words.word) := rfl
  unfold alone failed
  show (machine config).finish false 5 s (.word (.failureLoad now)) = _
  unfold failureFrom at hload
  split at hload
  · next hopen =>
    rw [finish_word_returns hload rfl, if_pos hopen]
  · next hopen =>
    rw [if_neg hopen]
    split at hload
    · next hhalf =>
      rw [finish_word_goes hload, if_pos hhalf]
      exact finish_failureOpen
    · next hhalf =>
      rw [finish_word_goes hload, if_neg hhalf]
      have hwindow : wordStep config s.words (.failureWindow now s.words.word) false =
          some (s.words, if now - s.words.windowStartMs > config.windowMs then
            .goes (.failureRestart now s.words.word s.words.windowStartMs)
            else .goes (.failureCount now s.words.word)) := rfl
      unfold counted
      split at hwindow
      · next hlate =>
        rw [finish_word_goes hwindow, if_pos hlate]
        have hrestart : wordStep config s.words
            (.failureRestart now s.words.word s.words.windowStartMs) false =
            some ({ s.words with windowStartMs := now }, .goes (.failureFirst now s.words.word)) :=
          if_pos rfl
        rw [finish_word_goes hrestart]
        exact finish_trip 0 rfl (fun _ => rfl) rfl
      · next hlate =>
        rw [finish_word_goes hwindow, if_neg hlate]
        exact finish_trip 1 rfl (fun _ => rfl) rfl

theorem alone_success (s : Shared) :
    alone config s .recordSuccess =
      some (⟨⟨pack 0 closed, 0, s.words.windowStartMs⟩, 0, []⟩, .done) := rfl

/-- What an `admit` makes of the word. -/
def admitWord (config : Config) (s : Words) (now : Nat) : Words × Admission :=
  if (unpack s.word).2 = closed then (s, .yes)
  else if now - (unpack s.word).1 < config.cooldownMs then (s, .no)
  else ({ s with word := pack now halfOpen }, .probe)

/-- The state an `admit` leaves, and its answer. -/
def admitAlone (config : Config) (s : Shared) (now : Nat) : Shared × Admission :=
  if s.benchUntilMs ≠ 0 ∧ now < s.benchUntilMs then (s, .no)
  else
    (⟨(admitWord config s.words now).1, 0, if s.benchUntilMs ≠ 0 then [] else s.deadlines⟩,
      (admitWord config s.words now).2)

theorem finish_admitLoad (s : Shared) (now fuel : Nat) :
    (machine config).finish false (fuel + 2) s (.word (.admitLoad now)) =
      some ({ s with words := (admitWord config s.words now).1 },
        .admission (admitWord config s.words now).2) := by
  have hload : wordStep config s.words (.admitLoad now) false =
      some (s.words, admitFrom config now s.words.word) := rfl
  unfold admitFrom at hload
  unfold admitWord
  split at hload
  · next hclosed =>
    rw [finish_word_returns hload rfl, if_pos hclosed]
  · next hclosed =>
    rw [if_neg hclosed]
    split at hload
    · next hwait =>
      rw [finish_word_returns hload rfl, if_pos hwait]
    · next hwait =>
      have hprobe : wordStep config s.words (.admitProbe now s.words.word) false =
          some ({ s.words with word := pack now halfOpen }, .returns (.admission .probe)) := by
        show (if (!false && decide (s.words.word = s.words.word)) = true then _ else _) = _
        rw [if_pos (by rw [decide_eq_true rfl]; rfl)]
      rw [finish_word_goes hload, finish_word_returns hprobe rfl, if_neg hwait]

theorem alone_admission (s : Shared) (now : Nat) :
    alone config s (.admitAt now) =
      some ((admitAlone config s now).1, .admission (admitAlone config s now).2) := by
  have hbench : (machine config).step s (.admitBench now) false =
      some (s, if s.benchUntilMs ≠ 0 then
          if now < s.benchUntilMs then .returns (.admission .no)
          else .goes (.admitClear now s.benchUntilMs)
        else .goes (.word (.admitLoad now))) := rfl
  unfold alone admitAlone
  show (machine config).finish false 5 s (.admitBench now) = _
  by_cases hset : s.benchUntilMs ≠ 0
  · rw [if_pos hset] at hbench
    by_cases hlt : now < s.benchUntilMs
    · rw [if_pos hlt] at hbench
      rw [Machine.finish_returns hbench, if_pos ⟨hset, hlt⟩]
    · rw [if_neg hlt] at hbench
      have hclear : (machine config).step s (.admitClear now s.benchUntilMs) false =
          some ({ s with benchUntilMs := 0, deadlines := [] }, .goes (.word (.admitLoad now))) := by
        show some (if s.benchUntilMs = s.benchUntilMs then _ else _, _) = _
        rw [if_pos rfl]
        rfl
      rw [Machine.finish_goes hbench, Machine.finish_goes hclear, finish_admitLoad,
        if_neg (fun h => hlt h.2), if_pos hset]
  · rw [if_neg hset] at hbench
    have hzero : s.benchUntilMs = 0 := not_not.mp hset
    rw [Machine.finish_goes hbench, finish_admitLoad, if_neg (fun h => hset h.1), if_neg hset]
    congr 2
    rw [hzero]

/-- An `admit` leaves the words of a closed breaker alone. -/
theorem admitAlone_words (s : Shared) (now : Nat) :
    (admitAlone config s now).1.words = s.words ∨ (unpack s.words.word).2 ≠ closed ∧
      (admitAlone config s now).1.words = { s.words with word := pack now halfOpen } := by
  unfold admitAlone
  split
  · exact Or.inl rfl
  · dsimp only
    unfold admitWord
    split
    · exact Or.inl rfl
    · next hclosed =>
      split
      · exact Or.inl rfl
      · exact Or.inr ⟨hclosed, rfl⟩

/-! ## The entries of a run -/

inductive Op where
  | admission
  | success
  | failure
  deriving DecidableEq

def Op.call : Op → Nat → Call
  | .admission, now => .admitAt now
  | .success, _ => .recordSuccess
  | .failure, now => .recordFailure now

/-- A call that was made, and whether the breaker was closed then. -/
structure Entry where
  now : Nat
  op : Op
  closed : Bool
  deriving DecidableEq

def sinceSuccess (log : List Entry) : List Entry := log.takeWhile (·.op ≠ .success)

/-- Where the current window starts, the latest entry first: the first window
starts at reading 0, and another one with the first entry that counts and is
past the one before. -/
def windowStart (windowMs : Nat) (counts : Entry → Bool) : List Entry → Nat
  | [] => 0
  | e :: earlier =>
    if counts e ∧ windowStart windowMs counts earlier + windowMs < e.now then e.now
    else windowStart windowMs counts earlier

/-- The entries that count since the last success and the start of the
window. -/
def failuresSince (windowMs : Nat) (counts : Entry → Bool) (log : List Entry) : List Entry :=
  (sinceSuccess log).filter fun e => counts e && windowStart windowMs counts log ≤ e.now

def anyFailure (e : Entry) : Bool := e.op = .failure

/-- A failure recorded while the breaker was closed. -/
def closedFailure (e : Entry) : Bool := e.op = .failure && e.closed

/-- The reading of the latest call. -/
def clock (log : List Entry) : Nat := (log.head?.map Entry.now).getD 0

def call (config : Config) (s : Shared) (a : Op × Nat) : Option Shared :=
  (alone config s (a.1.call a.2)).map Prod.fst

def entry (s : Shared) (a : Op × Nat) : Option Entry := some ⟨a.2, a.1, isClosed s⟩

/-- One call after another, from a new breaker. -/
def calls (config : Config) : System (Shared × List Entry) (Op × Nat) :=
  ofNext (· = (Shared.new, [])) (logged (call config) entry)

/-- Readings do not go back. -/
def Forward (s : Shared × List Entry) (a : Op × Nat) : Prop := clock s.2 ≤ a.2

/-! ## What the entries add up to -/

theorem closedFailure_iff {e : Entry} :
    closedFailure e = true ↔ e.op = .failure ∧ e.closed = true := by
  unfold closedFailure
  rw [Bool.and_eq_true, decide_eq_true_eq]

section
variable {windowMs : Nat} {counts : Entry → Bool} {e : Entry} {log : List Entry}

theorem windowStart_uncounted (h : counts e = false) :
    windowStart windowMs counts (e :: log) = windowStart windowMs counts log := by
  refine if_neg fun hc => ?_
  rw [h] at hc
  cases hc.1

theorem sinceSuccess_cons (h : e.op ≠ .success) :
    sinceSuccess (e :: log) = e :: sinceSuccess log :=
  List.takeWhile_cons_of_pos (decide_eq_true h)

theorem failuresSince_uncounted (hop : e.op ≠ .success) (h : counts e = false) :
    failuresSince windowMs counts (e :: log) = failuresSince windowMs counts log := by
  unfold failuresSince
  rw [windowStart_uncounted h, sinceSuccess_cons hop]
  exact List.filter_cons_of_neg (by rw [h, Bool.false_and]; exact Bool.false_ne_true)

theorem failuresSince_success (h : e.op = .success) :
    failuresSince windowMs counts (e :: log) = [] := by
  have hnone : sinceSuccess (e :: log) = [] :=
    List.takeWhile_cons_of_neg (by rw [decide_eq_true_eq]; exact fun hne => hne h)
  unfold failuresSince
  rw [hnone]
  rfl

/-- A failure within the window. -/
theorem failuresSince_within (hop : e.op ≠ .success) (h : counts e = true)
    (hstart : windowStart windowMs counts log ≤ e.now)
    (hwithin : e.now ≤ windowStart windowMs counts log + windowMs) :
    windowStart windowMs counts (e :: log) = windowStart windowMs counts log ∧
      failuresSince windowMs counts (e :: log) = e :: failuresSince windowMs counts log := by
  have hsame : windowStart windowMs counts (e :: log) = windowStart windowMs counts log :=
    if_neg fun hc => absurd hc.2 (not_lt.mpr hwithin)
  refine ⟨hsame, ?_⟩
  unfold failuresSince
  rw [hsame, sinceSuccess_cons hop]
  exact List.filter_cons_of_pos (by rw [h, Bool.true_and]; exact decide_eq_true hstart)

/-- A failure that starts a window is the first of it. -/
theorem failuresSince_fresh (hop : e.op ≠ .success) (h : counts e = true)
    (hfresh : windowStart windowMs counts log + windowMs < e.now)
    (hcovered : ∀ b ∈ log, counts b = true → b.now ≤ windowStart windowMs counts log + windowMs) :
    windowStart windowMs counts (e :: log) = e.now ∧
      failuresSince windowMs counts (e :: log) = [e] := by
  have hstart : windowStart windowMs counts (e :: log) = e.now := if_pos ⟨h, hfresh⟩
  refine ⟨hstart, ?_⟩
  unfold failuresSince
  rw [hstart, sinceSuccess_cons hop]
  have hrest : (sinceSuccess log).filter (fun b => counts b && decide (e.now ≤ b.now)) = [] := by
    rw [List.filter_eq_nil_iff]
    intro b hb hc
    rw [Bool.and_eq_true, decide_eq_true_eq] at hc
    have hb' := hcovered b ((List.takeWhile_sublist _).subset hb) hc.1
    omega
  rw [List.filter_cons_of_pos (by rw [h, Bool.true_and]; exact decide_eq_true le_rfl), hrest]

end

/-! ## The words agree with the entries -/

theorem state_pack (now : Nat) {state : Nat} (h : state < 4) : (unpack (pack now state)).2 = state := by
  unfold unpack pack
  dsimp only
  omega

structure Agrees (config : Config) (s : Shared) (log : List Entry) : Prop where
  state : (unpack s.words.word).2 < 3
  window : s.words.windowStartMs = windowStart config.windowMs closedFailure log
  count : isClosed s = true →
    s.words.failures = (failuresSince config.windowMs closedFailure log).length
  /-- A closed breaker has not counted enough to open. -/
  few : isClosed s = true → s.words.failures < config.failureThreshold ∨ s.words.failures = 0
  covered : ∀ e ∈ log, closedFailure e = true →
    e.now ≤ windowStart config.windowMs closedFailure log + config.windowMs
  begun : windowStart config.windowMs closedFailure log ≤ clock log

theorem isClosed_iff {s : Shared} : isClosed s = true ↔ (unpack s.words.word).2 = closed :=
  decide_eq_true_iff

section
variable {s : Shared} {log : List Entry}

/-- The words keep, and so does all that is said of them. -/
theorem Agrees.uncounted {s' : Shared} {e : Entry} (h : Agrees config s log)
    (hclock : clock log ≤ e.now) (hop : e.op ≠ .success) (he : closedFailure e = false)
    (hwindow : s'.words.windowStartMs = s.words.windowStartMs)
    (hstate : (unpack s'.words.word).2 < 3)
    (hclosed : isClosed s' = true → isClosed s = true ∧ s'.words.failures = s.words.failures) :
    Agrees config s' (e :: log) := by
  have hsame : windowStart config.windowMs closedFailure (e :: log) = _ :=
    windowStart_uncounted he
  refine ⟨hstate, ?_, ?_, ?_, ?_, ?_⟩
  · rw [hwindow, h.window, hsame]
  · intro hc
    obtain ⟨hs, hfailures⟩ := hclosed hc
    rw [hfailures, h.count hs, failuresSince_uncounted hop he]
  · intro hc
    obtain ⟨hs, hfailures⟩ := hclosed hc
    rw [hfailures]
    exact h.few hs
  · intro b hb hcounts
    rw [hsame]
    rcases List.mem_cons.mp hb with rfl | hb
    · rw [he] at hcounts
      cases hcounts
    · exact h.covered b hb hcounts
  · rw [hsame]
    exact h.begun.trans hclock

/-- The failure that is counted. -/
theorem Agrees.counted (h : Agrees config s log) (hbits : config.failureThreshold < 2 ^ 32)
    (hclosed : isClosed s = true) {now : Nat} (hclock : clock log ≤ now) :
    (counted config s.words now).windowStartMs =
        windowStart config.windowMs closedFailure (⟨now, .failure, true⟩ :: log) ∧
      (counted config s.words now).failures =
        (failuresSince config.windowMs closedFailure (⟨now, .failure, true⟩ :: log)).length ∧
      (∀ e ∈ (⟨now, .failure, true⟩ :: log : List Entry), closedFailure e = true →
        e.now ≤ windowStart config.windowMs closedFailure (⟨now, .failure, true⟩ :: log) +
          config.windowMs) ∧
      windowStart config.windowMs closedFailure (⟨now, .failure, true⟩ :: log) ≤ now := by
  have hwindow := h.window
  have hbegun := h.begun
  have hop : Op.failure ≠ Op.success := by decide
  by_cases hfresh : now - s.words.windowStartMs > config.windowMs
  · have hlate : windowStart config.windowMs closedFailure log + config.windowMs < now := by omega
    obtain ⟨hstart, hone⟩ := failuresSince_fresh (e := ⟨now, .failure, true⟩) hop rfl hlate
      h.covered
    have hcounted : Breaker.counted config s.words now =
        { s.words with failures := 1, windowStartMs := now } := if_pos hfresh
    rw [hcounted, hstart, hone]
    refine ⟨rfl, rfl, fun e he hcounts => ?_, le_rfl⟩
    rcases List.mem_cons.mp he with rfl | he
    · exact Nat.le_add_right _ _
    · have hcovered := h.covered e he hcounts
      show e.now ≤ now + config.windowMs
      omega
  · have hin : now ≤ windowStart config.windowMs closedFailure log + config.windowMs := by omega
    obtain ⟨hstart, hmore⟩ := failuresSince_within (e := ⟨now, .failure, true⟩) hop rfl
      (hbegun.trans hclock) hin
    have hcounted : Breaker.counted config s.words now =
        { s.words with failures := (s.words.failures + 1) % 2 ^ 32 } := if_neg hfresh
    have hfits : (s.words.failures + 1) % 2 ^ 32 = s.words.failures + 1 := by
      have hfew := h.few hclosed
      exact Nat.mod_eq_of_lt (by omega)
    rw [hcounted, hstart, hmore, List.length_cons, ← h.count hclosed]
    refine ⟨hwindow, hfits, fun e he hcounts => ?_, hbegun.trans hclock⟩
    rcases List.mem_cons.mp he with rfl | he
    · exact hin
    · exact h.covered e he hcounts

/-- What a failure does to a breaker that is closed. -/
theorem failed_closed (hclosed : isClosed s = true) (now : Nat) :
    failed config s.words now =
      if (counted config s.words now).failures < config.failureThreshold then
        counted config s.words now
      else { counted config s.words now with word := pack now open_ } := by
  have hstate := isClosed_iff.mp hclosed
  unfold failed
  rw [if_neg (by rw [hstate]; decide), if_neg (by rw [hstate]; decide)]

/-- And whether it is closed afterwards. -/
theorem closed_after_failure (hclosed : isClosed s = true) (now : Nat) :
    isClosed { s with words := failed config s.words now } = true ↔
      (counted config s.words now).failures < config.failureThreshold := by
  rw [isClosed_iff, failed_closed hclosed]
  by_cases hfew : (counted config s.words now).failures < config.failureThreshold
  · rw [if_pos hfew]
    dsimp only
    rw [counted_word]
    exact ⟨fun _ => hfew, fun _ => isClosed_iff.mp hclosed⟩
  · rw [if_neg hfew]
    dsimp only
    rw [state_pack now (by decide)]
    exact ⟨fun hc => (by cases hc), fun hc => absurd hc hfew⟩

theorem Agrees.failure (h : Agrees config s log) (hbits : config.failureThreshold < 2 ^ 32)
    {now : Nat} (hclock : clock log ≤ now) :
    Agrees config { s with words := failed config s.words now }
      (⟨now, .failure, isClosed s⟩ :: log) := by
  by_cases hclosed : isClosed s = true
  · obtain ⟨hwindow, hcount, hcovered, hbegun⟩ := h.counted hbits hclosed hclock
    rw [hclosed]
    have hfields : (failed config s.words now).windowStartMs =
          (Breaker.counted config s.words now).windowStartMs ∧
        (failed config s.words now).failures = (Breaker.counted config s.words now).failures := by
      rw [failed_closed hclosed]
      split <;> exact ⟨rfl, rfl⟩
    refine ⟨?_, hfields.1.trans hwindow, fun _ => hfields.2.trans hcount, fun hstays => ?_,
      hcovered, hbegun⟩
    · show (unpack (failed config s.words now).word).2 < 3
      rw [failed_closed hclosed]
      split
      · rw [counted_word]
        exact h.state
      · rw [state_pack now (by decide)]
        decide
    · refine Or.inl ?_
      show (failed config s.words now).failures < _
      rw [hfields.2]
      exact (closed_after_failure hclosed now).mp hstays
  · have hnot : isClosed s = false := Bool.not_eq_true _ ▸ hclosed
    have hstate := h.state
    have hclosed' : (unpack s.words.word).2 ≠ closed := fun hc => hclosed (isClosed_iff.mpr hc)
    -- it is open, or half-open, and stays so
    have hfailed : failed config s.words now = s.words ∨
        failed config s.words now = { s.words with word := pack now open_ } := by
      unfold failed
      by_cases hopen : (unpack s.words.word).2 = open_
      · exact Or.inl (if_pos hopen)
      · rw [if_neg hopen]
        have hhalf : (unpack s.words.word).2 = halfOpen := by
          unfold closed at hclosed'
          unfold open_ at hopen
          unfold halfOpen
          omega
        exact Or.inr (if_pos hhalf)
    rw [hnot]
    have hop : Op.failure ≠ Op.success := by decide
    rcases hfailed with hkeep | hopened
    · rw [hkeep]
      refine h.uncounted hclock hop rfl rfl h.state fun hc => ?_
      exact absurd hc hclosed
    · rw [hopened]
      refine h.uncounted hclock hop rfl rfl ?_ fun hc => ?_
      · show (unpack (pack now open_)).2 < 3
        rw [state_pack now (by decide)]
        decide
      · have hopen := isClosed_iff.mp hc
        change (unpack (pack now open_)).2 = closed at hopen
        rw [state_pack now (by decide)] at hopen
        cases hopen

theorem Agrees.success (h : Agrees config s log) {now : Nat} (hclock : clock log ≤ now) :
    Agrees config ⟨⟨pack 0 closed, 0, s.words.windowStartMs⟩, 0, []⟩
      (⟨now, .success, isClosed s⟩ :: log) := by
  have hsame : windowStart config.windowMs closedFailure (⟨now, .success, isClosed s⟩ :: log) =
      windowStart config.windowMs closedFailure log := windowStart_uncounted rfl
  refine ⟨(by decide : (unpack (pack 0 closed)).2 < 3), h.window.trans hsame.symm, fun _ => ?_, fun _ => Or.inr rfl, ?_, ?_⟩
  · rw [failuresSince_success rfl]
    rfl
  · intro e he hcounts
    rw [hsame]
    rcases List.mem_cons.mp he with rfl | he
    · cases hcounts
    · exact h.covered e he hcounts
  · rw [hsame]
    exact h.begun.trans hclock

theorem Agrees.admission {s' : Shared} (h : Agrees config s log) {now : Nat}
    (hclock : clock log ≤ now)
    (hwords : s'.words = s.words ∨ (unpack s.words.word).2 ≠ closed ∧
      s'.words = { s.words with word := pack now halfOpen }) :
    Agrees config s' (⟨now, .admission, isClosed s⟩ :: log) := by
  have hop : Op.admission ≠ Op.success := by decide
  rcases hwords with hsame | ⟨_, hprobe⟩
  · refine h.uncounted hclock hop rfl (by rw [hsame]) (by rw [hsame]; exact h.state) fun hc => ?_
    rw [isClosed_iff, hsame] at hc
    exact ⟨isClosed_iff.mpr hc, by rw [hsame]⟩
  · refine h.uncounted hclock hop rfl (by rw [hprobe]) ?_ fun hc => ?_
    · rw [hprobe]
      dsimp only
      rw [state_pack now (by decide)]
      decide
    · rw [isClosed_iff, hprobe] at hc
      dsimp only at hc
      rw [state_pack now (by decide)] at hc
      cases hc

theorem agrees_step (hbits : config.failureThreshold < 2 ^ 32) {t t' : Shared × List Entry}
    {a : Op × Nat} (h : Agrees config t.1 t.2) (hforward : Forward t a)
    (hnext : logged (call config) entry t a = some t') : Agrees config t'.1 t'.2 := by
  obtain ⟨s, log⟩ := t
  obtain ⟨s', log'⟩ := t'
  obtain ⟨op, now⟩ := a
  obtain ⟨hcall, hlog⟩ := logged_cases hnext
  dsimp only at hcall hlog
  subst hlog
  unfold call at hcall
  cases op with
  | admission =>
    change (alone config s (.admitAt now)).map Prod.fst = some s' at hcall
    rw [alone_admission] at hcall
    cases hcall
    exact h.admission hforward (admitAlone_words s now)
  | success =>
    cases hcall
    exact h.success hforward
  | failure =>
    change (alone config s (.recordFailure now)).map Prod.fst = some s' at hcall
    rw [alone_failure] at hcall
    cases hcall
    exact h.failure hbits hforward

theorem reach_agrees (hbits : config.failureThreshold < 2 ^ 32) {t : Shared × List Entry}
    (h : Reach (calls config) Forward t) : Agrees config t.1 t.2 := by
  refine h.invariant (I := fun t => Agrees config t.1 t.2) ?_ ?_
  · intro t ht
    rw [show t = _ from ht]
    exact ⟨by decide, rfl, fun _ => rfl, fun _ => Or.inr rfl, fun e he => (by cases he), le_rfl⟩
  · intro t a t' ht hforward hnext
    exact agrees_step hbits ht hforward hnext

end

/-! ## When it opens -/

/-- When a breaker leaves CLOSED, by the entries that count. -/
structure Tumbles (config : Config) (counts : Entry → Bool) (s : Shared) (log : List Entry) :
    Prop where
  /-- A failure opens a closed breaker when the failures that count, itself
  among them, are as many as the threshold. -/
  opens : ∀ now, clock log ≤ now → isClosed s = true →
    ∃ s', alone config s (.recordFailure now) = some (s', .done) ∧
      (isClosed s' = false ↔ config.failureThreshold ≤
        (failuresSince config.windowMs counts (⟨now, .failure, true⟩ :: log)).length)
  /-- Nothing else does. -/
  stays : ∀ (op : Op) now, op ≠ .failure → isClosed s = true →
    ∃ s' r, alone config s (op.call now) = some (s', r) ∧ isClosed s' = true
  /-- It takes as many failures as the threshold, all within a window of each
  other and with no success between them. -/
  burst : ∀ now s' r, clock log ≤ now → isClosed s = true →
    alone config s (.recordFailure now) = some (s', r) → isClosed s' = false →
    ∃ fs, List.Sublist fs (sinceSuccess (⟨now, .failure, true⟩ :: log)) ∧
      config.failureThreshold ≤ fs.length ∧
      (∀ e ∈ fs, e.op = .failure) ∧ ∀ e ∈ fs, ∀ e' ∈ fs, e.now ≤ e'.now + config.windowMs

theorem tumbles (hbits : config.failureThreshold < 2 ^ 32) {s : Shared} {log : List Entry}
    (h : Reach (calls config) Forward (s, log)) : Tumbles config closedFailure s log := by
  have hagrees : Agrees config s log := reach_agrees hbits h
  have hopens : ∀ now, clock log ≤ now → isClosed s = true →
      (isClosed { s with words := failed config s.words now } = false ↔
        config.failureThreshold ≤ (failuresSince config.windowMs closedFailure
          (⟨now, .failure, true⟩ :: log)).length) := by
    intro now hclock hclosed
    obtain ⟨_, hcount, _⟩ := hagrees.counted hbits hclosed hclock
    rw [← hcount, ← not_lt, ← closed_after_failure hclosed now, Bool.not_eq_true]
  refine ⟨?_, ?_, ?_⟩
  · intro now hclock hclosed
    exact ⟨_, alone_failure s now, hopens now hclock hclosed⟩
  · intro op now hop hclosed
    cases op with
    | admission =>
      refine ⟨_, _, alone_admission s now, ?_⟩
      rcases @admitAlone_words config s now with hsame | ⟨hother, _⟩
      · rw [isClosed_iff, hsame]
        exact isClosed_iff.mp hclosed
      · exact absurd (isClosed_iff.mp hclosed) hother
    | success => exact ⟨_, _, alone_success s, (by decide : decide ((unpack (pack 0 closed)).2 = closed) = true)⟩
    | failure => exact absurd rfl hop
  · intro now s' r hclock hclosed halone hopened
    rw [alone_failure] at halone
    cases halone
    obtain ⟨_, _, hcovered, _⟩ := hagrees.counted hbits hclosed hclock
    refine ⟨_, List.filter_sublist, (hopens now hclock hclosed).mp hopened, ?_, ?_⟩
    · intro e he
      have hcounts := (List.mem_filter.mp he).2
      rw [Bool.and_eq_true] at hcounts
      exact (closedFailure_iff.mp hcounts.1).1
    · intro e he e' he'
      obtain ⟨hmem, hcounts⟩ := List.mem_filter.mp he
      have hcounts' := (List.mem_filter.mp he').2
      rw [Bool.and_eq_true, decide_eq_true_eq] at hcounts hcounts'
      have htop := hcovered e ((List.takeWhile_sublist _).subset hmem) hcounts.1
      omega

instance (t : Shared × List Entry) (a : Op × Nat) : Decidable (Forward t a) :=
  inferInstanceAs (Decidable (_ ≤ _))

/-- Two failures open the breaker, a third one comes while it is open, a
probe succeeds, and a failure comes after that. -/
def lateFailure : List (Op × Nat) :=
  [(.failure, 10), (.failure, 20), (.failure, 150), (.success, 160), (.failure, 170)]

def pairConfig : Config := ⟨2, 100, 10⟩

/-- Where they leave it. -/
def lateLog : List Entry :=
  [⟨170, .failure, true⟩, ⟨160, .success, false⟩, ⟨150, .failure, false⟩, ⟨20, .failure, true⟩,
    ⟨10, .failure, true⟩]

theorem reach_late : Reach (calls pairConfig) Forward (⟨⟨0, 1, 170⟩, 0, []⟩, lateLog) :=
  Reach.of_run lateFailure (.start rfl) (by decide) rfl

theorem tumbles_late_failure :
    Tumbles pairConfig closedFailure ⟨⟨0, 1, 170⟩, 0, []⟩ lateLog ∧
      ∃ s', alone pairConfig ⟨⟨0, 1, 170⟩, 0, []⟩ (.recordFailure 260) = some (s', .done) ∧
        isClosed s' = false := by
  have hlaw := tumbles (by decide) reach_late
  refine ⟨hlaw, ?_⟩
  obtain ⟨s', halone, hopens⟩ := hlaw.opens 260 (by decide) (by decide)
  exact ⟨s', halone, hopens.mpr (by decide)⟩

/-- If every failure moved the window, the failure at 260 would start one and
leave the breaker closed. -/
theorem open_failure_moves_no_window :
    ¬ ∀ config : Config, config.failureThreshold < 2 ^ 32 → ∀ s log,
      Reach (calls config) Forward (s, log) → Tumbles config anyFailure s log := by
  intro h
  obtain ⟨s', halone, hopens⟩ := (h pairConfig (by decide) _ _ reach_late).opens 260 (by decide)
    (by decide)
  rw [alone_failure] at halone
  cases halone
  exact absurd (hopens.mp (by decide)) (by decide)

end RapidRouter.Core.Breaker
