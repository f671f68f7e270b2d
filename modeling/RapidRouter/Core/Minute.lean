import RapidRouter.Core.Reload

/-!
# What a request limit lets through

A key with a limit of `L` requests a minute has a bucket of `L`, refilled with
`L.div_ceil(60)` a second (`router-core/src/router.rs`): a burst of a whole
minute is allowed, and beyond it the rate is that of the limit, rounded up to
whole requests a second. `sustained_iff` says for which limits a stretch of
time never sees more than the limit allows it. Rounding up is exact for
multiples of sixty only; between them it adds up to fifty-nine requests a
minute, which for a small limit is many times the limit.

Calls on the key follow each other, on a clock that does not go back.
-/

namespace RapidRouter.Core.Live

open TokenBucket (Bucket wrappingMul saturatingMul)

/-! ## The calls on a key's limiters -/

inductive KeyCall where
  /-- A request asks to be admitted. -/
  | attempt (now : Nat)
  /-- `has_headroom`, which refills both limiters. -/
  | headroom (now : Nat)
  /-- `debit_tokens`. -/
  | settle (tokens now : Nat)

def KeyCall.now : KeyCall → Nat
  | .attempt now | .headroom now | .settle _ now => now

/-- A call, and whether a request was admitted by it. -/
def Cells.after (c : Cells) : KeyCall → Cells × Bool
  | .attempt now => c.tryAdmitRequest now
  | .headroom now =>
    ({ c with rpm := c.rpm.map fun b => (b.tryConsume 0 now).1
              tpm := c.tpm.map fun b => (b.tryConsume 0 now).1 }, false)
  | .settle tokens now => ({ c with tpm := c.tpm.map (·.debitSaturating tokens now) }, false)

/-- The requests admitted between two readings, both included. -/
def admittedIn (lo hi : Nat) : Cells → List KeyCall → Nat
  | _, [] => 0
  | c, call :: rest =>
    (if (c.after call).2 = true ∧ lo ≤ call.now ∧ call.now ≤ hi then 1 else 0) +
      admittedIn lo hi (c.after call).1 rest

/-- What a call does to a request limiter: what it admits comes out of the
room the bucket had at the reading. -/
structure Charged (b b' : Bucket) (now : Nat) (admitted : Bool) : Prop where
  limits : b'.limits = b.limits
  held : b'.available ≤ b.limits.capacityMilli
  room : b'.room now + (if admitted then 1000 else 0) ≤ b.room now

theorem charged_refl {b : Bucket} (h : b.available ≤ b.limits.capacityMilli) (now : Nat) :
    Charged b b now false := ⟨rfl, h, le_rfl⟩

theorem charged_take {b : Bucket} (h : b.available ≤ b.limits.capacityMilli) (now : Nat) :
    Charged b (b.tryConsume 1 now).1 now (b.tryConsume 1 now).2 := by
  obtain ⟨hlimits, hheld, hroom⟩ := Bucket.tryConsume_one_room h now
  exact ⟨hlimits, hheld, hroom⟩

theorem charged_refill {b : Bucket} (h : b.available ≤ b.limits.capacityMilli) (now : Nat) :
    Charged b (b.tryConsume 0 now).1 now false := by
  have hleft := Bucket.available_refill_le h now
  have hlast := Bucket.le_refill b now
  have hnone : now - (b.refill now).lastRefillMs = 0 := by omega
  rw [Bucket.tryConsume_zero]
  refine ⟨Bucket.refill_limits b now, hleft.trans (b.room_le now), ?_⟩
  show (b.refill now).room now + 0 ≤ b.room now
  unfold Bucket.room at hleft ⊢
  rw [hnone, Bucket.refill_limits]
  omega

/-- The step. -/
theorem charged_after {c : Cells} {b : Bucket} (hb : c.rpm = some b)
    (hheld : b.available ≤ b.limits.capacityMilli) (call : KeyCall) :
    ∃ b', (c.after call).1.rpm = some b' ∧ Charged b b' call.now (c.after call).2 := by
  cases call with
  | attempt now =>
    unfold Cells.after Cells.tryAdmitRequest
    dsimp only [KeyCall.now]
    have hrpm : (c.tokensLeft now).1.rpm = some b := by
      unfold Cells.tokensLeft
      split
      · exact hb
      · exact hb
    by_cases hleft : (c.tokensLeft now).2 = true
    · rw [if_pos hleft]
      unfold Cells.takeRequest
      rw [hrpm]
      exact ⟨_, rfl, charged_take hheld now⟩
    · rw [if_neg hleft]
      exact ⟨b, hrpm, charged_refl hheld now⟩
  | headroom now =>
    refine ⟨(b.tryConsume 0 now).1, ?_, charged_refill hheld now⟩
    show c.rpm.map _ = _
    rw [hb]
    rfl
  | settle tokens now => exact ⟨b, hb, charged_refl hheld now⟩

/-! ## A stretch of time -/

/-- The clock does not go back. -/
def InOrder (calls : List KeyCall) : Prop := calls.Pairwise fun a b => a.now ≤ b.now

theorem admittedIn_late {lo hi : Nat} (calls : List KeyCall) :
    ∀ c : Cells, (∀ call ∈ calls, hi < call.now) → admittedIn lo hi c calls = 0 := by
  induction calls with
  | nil =>
    intro c _
    rfl
  | cons call rest ih =>
    intro c hlate
    have hcall := hlate call List.mem_cons_self
    unfold admittedIn
    rw [if_neg (by omega), ih _ fun d hd => hlate d (List.mem_cons_of_mem _ hd)]

/-- From a reading within the stretch: what the bucket has room for then, and
what the rest of the stretch refills. -/
theorem admittedIn_room {lo hi : Nat} (calls : List KeyCall) :
    ∀ (c : Cells) (b : Bucket) (start : Nat), c.rpm = some b →
      b.available ≤ b.limits.capacityMilli → InOrder calls → (∀ call ∈ calls, start ≤ call.now) →
        1000 * admittedIn lo hi c calls ≤
          b.room start + b.limits.refillMilliPerMs * (hi - start) := by
  induction calls with
  | nil =>
    intro c b start _ _ _ _
    exact Nat.zero_le _
  | cons call rest ih =>
    intro c b start hb hheld horder hstart
    obtain ⟨hfirst, hrest⟩ := List.pairwise_cons.mp horder
    have hcall := hstart call List.mem_cons_self
    by_cases hlate : hi < call.now
    · have hnone : admittedIn lo hi c (call :: rest) = 0 := by
        refine admittedIn_late _ c fun d hd => ?_
        rcases List.mem_cons.mp hd with rfl | hd
        · exact hlate
        · exact hlate.trans_le (hfirst d hd)
      rw [hnone]
      exact Nat.zero_le _
    · obtain ⟨b', hb', hcharged⟩ := charged_after hb hheld call
      have hlater := ih _ b' call.now hb' (hcharged.limits ▸ hcharged.held) hrest hfirst
      rw [hcharged.limits] at hlater
      have hroom := hcharged.room
      have hgrown := b.room_add_le start (call.now - start)
      have hsplit : b.limits.refillMilliPerMs * (call.now - start) +
          b.limits.refillMilliPerMs * (hi - call.now) =
            b.limits.refillMilliPerMs * (hi - start) := by
        rw [← Nat.mul_add]
        congr 1
        omega
      have hat : start + (call.now - start) = call.now := by omega
      rw [hat] at hgrown
      unfold admittedIn
      split
      · next hserved =>
        rw [hserved.1] at hroom
        simp only [if_true] at hroom
        omega
      · omega

/-- Over a whole run: a full bucket, and what the stretch refills. -/
theorem admittedIn_le {lo hi : Nat} (calls : List KeyCall) :
    ∀ (c : Cells) (b : Bucket), c.rpm = some b → b.available ≤ b.limits.capacityMilli →
      InOrder calls → 1000 * admittedIn lo hi c calls ≤
        b.limits.capacityMilli + b.limits.refillMilliPerMs * (hi - lo) := by
  induction calls with
  | nil =>
    intro c b _ _ _
    exact Nat.zero_le _
  | cons call rest ih =>
    intro c b hb hheld horder
    obtain ⟨hfirst, hrest⟩ := List.pairwise_cons.mp horder
    by_cases hearly : call.now < lo
    · obtain ⟨b', hb', hcharged⟩ := charged_after hb hheld call
      have hlater := ih _ b' hb' (hcharged.limits ▸ hcharged.held) hrest
      rw [hcharged.limits] at hlater
      unfold admittedIn
      rw [if_neg (by omega), Nat.zero_add]
      exact hlater
    · have hall : ∀ d ∈ call :: rest, lo ≤ d.now := by
        intro d hd
        rcases List.mem_cons.mp hd with rfl | hd
        · omega
        · have hd' := hfirst d hd
          omega
      have hroom := @admittedIn_room lo hi (call :: rest) c b lo hb hheld horder hall
      have hfull := b.room_le lo
      omega

/-! ## The limit -/

/-- A limiter made for this limit, whatever of it has been used. -/
structure LimiterOf (limit : Nat) (b : Bucket) : Prop where
  limits : b.limits = (newBucket limit).limits
  held : b.available ≤ b.limits.capacityMilli

/-- No stretch of time sees more requests than the limit and its share of the
stretch. -/
def Sustained (limit : Nat) : Prop :=
  ∀ (c : Cells) (b : Bucket), c.rpm = some b → LimiterOf limit b →
    ∀ calls : List KeyCall, InOrder calls → (∀ call ∈ calls, call.now < 2 ^ 64) →
      ∀ t ms : Nat, 60000 * admittedIn t (t + ms) c calls ≤ 60000 * limit + limit * ms

/-- Readings end with the word they are kept in. -/
theorem admittedIn_clip {lo hi : Nat} (calls : List KeyCall) :
    ∀ c : Cells, (∀ call ∈ calls, call.now < 2 ^ 64) →
      admittedIn lo hi c calls = admittedIn lo (min hi (2 ^ 64 - 1)) c calls := by
  induction calls with
  | nil =>
    intro c _
    rfl
  | cons call rest ih =>
    intro c hwords
    have hcall := hwords call List.mem_cons_self
    have hsame : call.now ≤ min hi (2 ^ 64 - 1) ↔ call.now ≤ hi := by omega
    unfold admittedIn
    rw [ih _ fun d hd => hwords d (List.mem_cons_of_mem _ hd)]
    simp only [hsame]

theorem sustained_of {limit : Nat} (h : 60 ∣ limit ∨ 2 ^ 64 ≤ 1000 * limit) : Sustained limit := by
  intro c b hb hlimiter calls horder hwords t ms
  rw [admittedIn_clip calls c hwords]
  have hbound := @admittedIn_le t (min (t + ms) (2 ^ 64 - 1)) calls c b hb hlimiter.held horder
  have hcapacity : b.limits.capacityMilli = limit * 1000 % 2 ^ 64 := by
    rw [hlimiter.limits]
    rfl
  have hrate : b.limits.refillMilliPerMs = (limit + 59) / 60 := by
    rw [hlimiter.limits]
    rfl
  rw [hcapacity, hrate] at hbound
  generalize hstretch : min (t + ms) (2 ^ 64 - 1) - t = stretch at hbound
  have hshort : stretch ≤ ms := by omega
  have hshare : limit * stretch ≤ limit * ms := Nat.mul_le_mul_left limit hshort
  rcases h with ⟨q, rfl⟩ | hlarge
  · -- Nothing is rounded.
    have hround : (60 * q + 59) / 60 = q := by omega
    have hmod := Nat.mod_le (60 * q * 1000) (2 ^ 64)
    have hsixty : 60 * q * stretch = 60 * (q * stretch) := Nat.mul_assoc ..
    rw [hround] at hbound
    omega
  · -- What the capacity lost by wrapping is more than rounding can add.
    have hmod : limit * 1000 % 2 ^ 64 + 2 ^ 64 ≤ 1000 * limit := by omega
    have hround : 60 * ((limit + 59) / 60) ≤ limit + 59 := by omega
    have hrefill := Nat.mul_le_mul_right stretch hround
    have hsplit : (limit + 59) * stretch = limit * stretch + 59 * stretch := Nat.add_mul ..
    have hassoc : 60 * ((limit + 59) / 60) * stretch = 60 * ((limit + 59) / 60 * stretch) :=
      Nat.mul_assoc ..
    omega

/-! ## A minute that sees too many -/

/-- A key with a request limiter and no other. -/
def limitedBy (b : Bucket) : Cells := ⟨.new, some b, none, 0⟩

theorem after_limitedBy (b : Bucket) (now : Nat) :
    (limitedBy b).after (.attempt now) =
      (limitedBy (b.tryConsume 1 now).1, (b.tryConsume 1 now).2) := rfl

/-- A bucket with so many whole requests left at a reading. -/
def left (limit requests now : Nat) : Bucket :=
  ⟨(newBucket limit).limits, 1000 * requests, now⟩

theorem tryConsume_left {limit requests now : Nat} :
    (left limit (requests + 1) now).tryConsume 1 now = (left limit requests now, true) := by
  unfold Bucket.tryConsume
  rw [Bucket.refill_of_le (le_refl now)]
  dsimp only
  have hone : wrappingMul 1 1000 = 1000 := rfl
  have henough : ¬ (left limit (requests + 1) now).available < wrappingMul 1 1000 := by
    show ¬ 1000 * (requests + 1) < 1000
    omega
  rw [if_neg henough, hone]
  have hrest : (left limit (requests + 1) now).available - 1000 = 1000 * requests := by
    show 1000 * (requests + 1) - 1000 = 1000 * requests
    omega
  rw [hrest]
  rfl

/-- Requests at one reading are all admitted while the bucket lasts. -/
theorem admittedIn_burst {lo hi limit now : Nat} (hlo : lo ≤ now) (hhi : now ≤ hi)
    (rest : List KeyCall) (n : Nat) :
    admittedIn lo hi (limitedBy (left limit n now)) (List.replicate n (.attempt now) ++ rest) =
      n + admittedIn lo hi (limitedBy (left limit 0 now)) rest := by
  induction n with
  | zero =>
    rw [Nat.zero_add]
    rfl
  | succ n ih =>
    rw [List.replicate_succ, List.cons_append, admittedIn, after_limitedBy, tryConsume_left]
    rw [if_pos ⟨rfl, hlo, hhi⟩, ih]
    omega

/-- What a second refills. -/
def perSecond (limit : Nat) : Nat := (limit + 59) / 60

theorem refill_second {limit now : Nat} (hfits : 1000 * limit < 2 ^ 64) :
    (left limit 0 now).refill (now + 1000) = left limit (perSecond limit) (now + 1000) := by
  have hwhole : perSecond limit ≤ limit := by
    unfold perSecond
    omega
  have hcapacity : wrappingMul limit 1000 = 1000 * limit := by
    unfold wrappingMul
    omega
  have hpassed : now + 1000 - now = 1000 := by omega
  have hcredit : saturatingMul 1000 (perSecond limit) = 1000 * perSecond limit := by
    unfold saturatingMul
    omega
  unfold Bucket.refill
  rw [if_neg (by show ¬ now + 1000 ≤ now; omega)]
  unfold TokenBucket.credited
  show (⟨(newBucket limit).limits, min ((1000 * 0 +
    saturatingMul (now + 1000 - now) (perSecond limit)) % 2 ^ 64) (wrappingMul limit 1000),
      now + 1000⟩ : Bucket) = left limit (perSecond limit) (now + 1000)
  rw [hpassed, hcredit, hcapacity]
  unfold left
  congr 1
  omega

theorem tryConsume_refill (b : Bucket) (tokens now : Nat) :
    (b.refill now).tryConsume tokens now = b.tryConsume tokens now := by
  unfold Bucket.tryConsume
  rw [Bucket.refill_refill]

/-- A request finds the bucket refilled. -/
theorem admittedIn_refill {lo hi now : Nat} (b : Bucket) (rest : List KeyCall) :
    admittedIn lo hi (limitedBy (b.refill now)) (.attempt now :: rest) =
      admittedIn lo hi (limitedBy b) (.attempt now :: rest) := by
  rw [admittedIn, admittedIn, after_limitedBy, after_limitedBy, tryConsume_refill]

/-- So many bursts of a second's worth, a second apart. -/
def bursts (limit : Nat) : Nat → Nat → List KeyCall
  | _, 0 => []
  | now, seconds + 1 =>
    List.replicate (perSecond limit) (.attempt (now + 1000)) ++ bursts limit (now + 1000) seconds

theorem admittedIn_bursts {lo hi limit : Nat} (hfits : 1000 * limit < 2 ^ 64)
    (hpositive : 0 < perSecond limit) (seconds : Nat) :
    ∀ now, lo ≤ now → now + 1000 * seconds ≤ hi →
      admittedIn lo hi (limitedBy (left limit 0 now)) (bursts limit now seconds) =
        perSecond limit * seconds := by
  induction seconds with
  | zero =>
    intro now _ _
    rfl
  | succ seconds ih =>
    intro now hlo hhi
    have hnext : now + 1000 + 1000 * seconds = now + 1000 * (seconds + 1) := by ring
    have hlow : lo ≤ now + 1000 := hlo.trans (Nat.le_add_right now 1000)
    have hrest : now + 1000 + 1000 * seconds ≤ hi := le_of_eq_of_le hnext hhi
    have hhigh : now + 1000 ≤ hi := (Nat.le_add_right _ _).trans hrest
    obtain ⟨n, hn⟩ := Nat.exists_eq_add_of_lt hpositive
    have hfirst : admittedIn lo hi (limitedBy (left limit 0 now)) (bursts limit now (seconds + 1)) =
        admittedIn lo hi (limitedBy (left limit (perSecond limit) (now + 1000)))
          (bursts limit now (seconds + 1)) := by
      rw [← refill_second hfits]
      unfold bursts
      rw [hn, Nat.zero_add, List.replicate_succ, List.cons_append]
      exact (admittedIn_refill _ _).symm
    rw [hfirst, bursts, admittedIn_burst hlow hhigh, ih (now + 1000) hlow hrest]
    rw [Nat.mul_add, Nat.mul_one, Nat.add_comm]

theorem mem_bursts {limit : Nat} (seconds : Nat) :
    ∀ now, ∀ call ∈ bursts limit now seconds, now < call.now ∧ call.now ≤ now + 1000 * seconds := by
  induction seconds with
  | zero =>
    intro now call hcall
    cases hcall
  | succ seconds ih =>
    intro now call hcall
    rcases List.mem_append.mp hcall with hcall | hcall
    · rw [(List.mem_replicate.mp hcall).2]
      show now < now + 1000 ∧ now + 1000 ≤ now + 1000 * (seconds + 1)
      omega
    · have hlater := ih (now + 1000) call hcall
      omega

theorem inOrder_burst {now n : Nat} {rest : List KeyCall} (hrest : InOrder rest)
    (hlater : ∀ call ∈ rest, now ≤ call.now) :
    InOrder (List.replicate n (.attempt now) ++ rest) := by
  refine List.pairwise_append.mpr ⟨?_, hrest, fun a ha d hd => ?_⟩
  · exact List.pairwise_replicate.mpr (Or.inr le_rfl)
  · rw [(List.mem_replicate.mp ha).2]
    exact hlater d hd

theorem inOrder_bursts {limit : Nat} (seconds : Nat) :
    ∀ now, InOrder (bursts limit now seconds) := by
  induction seconds with
  | zero =>
    intro now
    exact List.Pairwise.nil
  | succ seconds ih =>
    intro now
    refine inOrder_burst (ih (now + 1000)) fun call hcall => ?_
    exact (mem_bursts seconds (now + 1000) call hcall).1.le

/-- The minute: a full bucket, and then what each second refills. -/
def crowded (limit : Nat) : List KeyCall :=
  List.replicate limit (.attempt 0) ++ bursts limit 0 60

theorem admittedIn_crowded {limit : Nat} (hfits : 1000 * limit < 2 ^ 64)
    (hpositive : 0 < perSecond limit) :
    admittedIn 0 60000 (limitedBy (newBucket limit)) (crowded limit) =
      limit + perSecond limit * 60 := by
  have hnew : newBucket limit = left limit limit 0 := by
    have hcapacity : wrappingMul limit 1000 = 1000 * limit := by
      unfold wrappingMul
      omega
    unfold left newBucket Bucket.new
    rw [hcapacity]
  unfold crowded
  rw [hnew, admittedIn_burst le_rfl (by omega),
    admittedIn_bursts hfits hpositive 60 0 le_rfl (by omega)]

theorem not_sustained {limit : Nat} (hround : ¬ 60 ∣ limit) (hfits : 1000 * limit < 2 ^ 64) :
    ¬ Sustained limit := by
  intro hsustained
  have hrate : limit < 60 * perSecond limit := by
    unfold perSecond
    omega
  have hlimiter : LimiterOf limit (newBucket limit) := ⟨rfl, le_rfl⟩
  have horder : InOrder (crowded limit) :=
    inOrder_burst (inOrder_bursts 60 0) fun call _ => Nat.zero_le _
  have hwords : ∀ call ∈ crowded limit, call.now < 2 ^ 64 := by
    intro call hcall
    rcases List.mem_append.mp hcall with hcall | hcall
    · rw [(List.mem_replicate.mp hcall).2]
      decide
    · have hlast := (mem_bursts 60 0 call hcall).2
      omega
  have hbound := hsustained (limitedBy (newBucket limit)) _ rfl hlimiter (crowded limit) horder
    hwords 0 60000
  rw [Nat.zero_add, admittedIn_crowded hfits (by omega)] at hbound
  omega

/-- Which limits hold: the multiples of sixty, and those too large for the
word of their bucket, which then holds less. -/
theorem sustained_iff (limit : Nat) : Sustained limit ↔ 60 ∣ limit ∨ 2 ^ 64 ≤ 1000 * limit := by
  refine ⟨fun hsustained => ?_, sustained_of⟩
  by_contra hother
  rw [not_or, not_le] at hother
  exact not_sustained hother.1 hother.2 hsustained

/-- **One request a minute lets one through each second.** -/
theorem small_limit_not_sustained : ¬ ∀ limit : Nat, 0 < limit → Sustained limit := by
  intro hclaim
  exact @not_sustained 1 (by decide) (by decide) (hclaim 1 one_pos)

end RapidRouter.Core.Live
