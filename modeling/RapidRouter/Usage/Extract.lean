import RapidRouter.Lib.Json.Value
import RapidRouter.Providers.Dialect

/-!
# Token extraction

The part of `router-server/src/usage.rs` that reads token counts out of an
upstream response: one document for a plain response, the data of every event
line for a stream. Streams may repeat their usage, so counts are combined by
`mergeMax`, and `extractStream_le_iff` reads the result of a stream as a
maximum over its lines.
-/

namespace RapidRouter.Usage

open Json Providers

@[ext] structure TokenUsage where
  input : Nat
  output : Nat
  /-- Provider-cache reads. -/
  cached : Nat
  deriving DecidableEq, Repr

/-- One of the counts of a usage. -/
inductive Count where
  | input
  | output
  | cached
  deriving DecidableEq

namespace TokenUsage

/-- `TokenUsage::default`. -/
def zero : TokenUsage := ⟨0, 0, 0⟩

def mergeMax (self other : TokenUsage) : TokenUsage where
  input := max self.input other.input
  output := max self.output other.output
  cached := max self.cached other.cached

def get (usage : TokenUsage) : Count → Nat
  | .input => usage.input
  | .output => usage.output
  | .cached => usage.cached

theorem ext_get {a b : TokenUsage} (h : ∀ f, a.get f = b.get f) : a = b :=
  TokenUsage.ext (h .input) (h .output) (h .cached)

@[simp] theorem get_zero (f : Count) : zero.get f = 0 := by
  cases f <;> rfl

@[simp] theorem get_mergeMax (a b : TokenUsage) (f : Count) :
    (a.mergeMax b).get f = max (a.get f) (b.get f) := by
  cases f <;> rfl

end TokenUsage

/-- `u`. -/
def u (v : Value) : Nat := v.asU64.getD 0

def usageFromValue (dialect : Dialect) (v : Value) : TokenUsage :=
  match dialect with
  | .openAi | .codexResponses =>
    let usage :=
      if (v.index "usage").isObject then v.index "usage" else (v.index "response").index "usage"
    { input := max (u (usage.index "prompt_tokens")) (u (usage.index "input_tokens"))
      output := max (u (usage.index "completion_tokens")) (u (usage.index "output_tokens"))
      cached := max (u ((usage.index "prompt_tokens_details").index "cached_tokens"))
        (u ((usage.index "input_tokens_details").index "cached_tokens")) }
  | .anthropic =>
    let usage :=
      if (v.index "usage").isObject then v.index "usage" else (v.index "message").index "usage"
    { input := u (usage.index "input_tokens")
      output := u (usage.index "output_tokens")
      cached := u (usage.index "cache_read_input_tokens") }
  | .gemini =>
    { input := u ((v.index "usageMetadata").index "promptTokenCount")
      output := u ((v.index "usageMetadata").index "candidatesTokenCount")
      cached := u ((v.index "usageMetadata").index "cachedContentTokenCount") }
  | .bedrock =>
    { input := u ((v.index "usage").index "inputTokens")
      output := u ((v.index "usage").index "outputTokens")
      cached := u ((v.index "usage").index "cacheReadInputTokens") }

/-- `memmem::find`, and `str::contains`. -/
def contains (body : Bytes) (needle : String) : Bool := decide (utf8 needle <:+: body)

def extractSync (dialect : Dialect) (body : Bytes) : TokenUsage :=
  if !contains body "usage" && !contains body "usageMetadata" then .zero
  else
    match fromSlice body with
    | some v => usageFromValue dialect v
    | none => .zero

/-! ## Streams -/

structure StreamUsageScanner where
  dialect : Dialect
  usage : TokenUsage

namespace StreamUsageScanner

def new (dialect : Dialect) : StreamUsageScanner := ⟨dialect, .zero⟩

def onEventData (self : StreamUsageScanner) (data : Bytes) : StreamUsageScanner :=
  if !contains data "usage" && !contains data "usageMetadata" then self
  else
    match fromSlice data with
    | some v => { self with usage := self.usage.mergeMax (usageFromValue self.dialect v) }
    | none => self

def finish (self : StreamUsageScanner) : TokenUsage := self.usage

end StreamUsageScanner

/-- `split_inclusive('\n')`. -/
def splitInclusive : Bytes → List Bytes
  | [] => []
  | c :: rest =>
    if c = ascii '\n' then [c] :: splitInclusive rest
    else
      match splitInclusive rest with
      | [] => [[c]]
      | line :: lines => (c :: line) :: lines

/-- A line without its terminator, which is a newline with or without a
carriage return before it. -/
def stripTerminator (line : Bytes) : Bytes :=
  if line.getLast? = some (ascii '\n') then
    let line := line.dropLast
    if line.getLast? = some (ascii '\r') then line.dropLast else line
  else line

/-- `str::lines`. -/
def lines (text : Bytes) : List Bytes := (splitInclusive text).map stripTerminator

/-- `str::trim_start`, on the bytes of the text. -/
def trimStart : Bytes → Bytes
  | [] => []
  | c :: rest =>
    if (0x09 ≤ c && c ≤ 0x0D) || c = 0x20 then trimStart rest
    else
      match c, rest with
      | 0xC2, d :: rest => if d = 0x85 || d = 0xA0 then trimStart rest else c :: d :: rest
      | 0xE1, 0x9A :: 0x80 :: rest => trimStart rest
      | 0xE2, 0x80 :: d :: rest =>
        if (0x80 ≤ d && d ≤ 0x8A) || d = 0xA8 || d = 0xA9 || d = 0xAF then trimStart rest
        else c :: 0x80 :: d :: rest
      | 0xE2, 0x81 :: 0x9F :: rest => trimStart rest
      | 0xE3, 0x80 :: 0x80 :: rest => trimStart rest
      | _, _ => c :: rest

/-- `strip_prefix("data:")`. -/
def stripData (line : Bytes) : Option Bytes :=
  if utf8 "data:" <+: line then some (line.drop 5) else none

/-- One line of a stream. -/
def onLine (scanner : StreamUsageScanner) (line : Bytes) : StreamUsageScanner :=
  match stripData line with
  | some data => scanner.onEventData (trimStart data)
  | none => scanner

/-- What `complete` scans of a stream: nothing unless all of it is text. -/
def extractStream (dialect : Dialect) (body : Bytes) : TokenUsage :=
  let scanner := StreamUsageScanner.new dialect
  (if (fromUtf8? body).isSome then (lines body).foldl onLine scanner else scanner).finish

def extract (stream : Bool) (dialect : Dialect) (body : Bytes) : TokenUsage :=
  if stream then extractStream dialect body else extractSync dialect body

/-! ## A stream's usage is a maximum over its lines -/

/-- What one line reports. -/
def reported (dialect : Dialect) (line : Bytes) : TokenUsage :=
  (onLine (.new dialect) line).finish

theorem onEventData_dialect (s : StreamUsageScanner) (data : Bytes) :
    (s.onEventData data).dialect = s.dialect := by
  unfold StreamUsageScanner.onEventData
  split
  · rfl
  · split <;> rfl

theorem onEventData_usage (s : StreamUsageScanner) (data : Bytes) :
    (s.onEventData data).usage =
      s.usage.mergeMax ((StreamUsageScanner.new s.dialect).onEventData data).usage := by
  have hzero : ∀ a : TokenUsage, a.mergeMax .zero = a := by
    intro a
    exact TokenUsage.ext_get fun f => by simp
  have hzero' : ∀ a : TokenUsage, TokenUsage.zero.mergeMax a = a := by
    intro a
    exact TokenUsage.ext_get fun f => by simp
  unfold StreamUsageScanner.onEventData
  split
  · exact (hzero s.usage).symm
  · split
    · exact congrArg s.usage.mergeMax (hzero' _).symm
    · exact (hzero s.usage).symm

theorem onLine_dialect (s : StreamUsageScanner) (line : Bytes) :
    (onLine s line).dialect = s.dialect := by
  unfold onLine
  split
  · exact onEventData_dialect s _
  · rfl

theorem get_onLine (s : StreamUsageScanner) (line : Bytes) (f : Count) :
    (onLine s line).usage.get f = max (s.usage.get f) ((reported s.dialect line).get f) := by
  unfold reported onLine StreamUsageScanner.finish
  split
  · rw [onEventData_usage, TokenUsage.get_mergeMax]
  · show s.usage.get f = max (s.usage.get f) (TokenUsage.zero.get f)
    rw [TokenUsage.get_zero, Nat.max_zero]

/-- A count stays below a bound when it does so on every line. -/
theorem get_foldl_onLine_le (f : Count) (n : Nat) : ∀ (ls : List Bytes) (s : StreamUsageScanner),
    (ls.foldl onLine s).usage.get f ≤ n ↔
      s.usage.get f ≤ n ∧ ∀ line ∈ ls, (reported s.dialect line).get f ≤ n
  | [], s => by simp
  | line :: ls, s => by
    rw [List.foldl_cons, get_foldl_onLine_le f n ls (onLine s line), onLine_dialect, get_onLine,
      Nat.max_le, List.forall_mem_cons, and_assoc]

theorem extractStream_le_iff {dialect : Dialect} {body : Bytes}
    (h : (fromUtf8? body).isSome = true) (f : Count) (n : Nat) :
    (extractStream dialect body).get f ≤ n ↔
      ∀ line ∈ lines body, (reported dialect line).get f ≤ n := by
  unfold extractStream StreamUsageScanner.finish
  dsimp only
  rw [if_pos h, get_foldl_onLine_le]
  show TokenUsage.zero.get f ≤ n ∧ _ ↔ _
  rw [TokenUsage.get_zero]
  exact and_iff_right (Nat.zero_le n)

theorem le_extractStream_iff {dialect : Dialect} {body : Bytes}
    (h : (fromUtf8? body).isSome = true) (f : Count) (n : Nat) :
    n ≤ (extractStream dialect body).get f ↔
      n = 0 ∨ ∃ line ∈ lines body, n ≤ (reported dialect line).get f := by
  have hle := @extractStream_le_iff dialect body h f (n - 1)
  constructor
  · intro hn
    by_cases h0 : n = 0
    · exact Or.inl h0
    · refine Or.inr ?_
      by_contra hnone
      have : (extractStream dialect body).get f ≤ n - 1 := by
        rw [hle]
        intro line hline
        by_contra hlt
        exact hnone ⟨line, hline, by omega⟩
      omega
  · rintro (rfl | ⟨line, hline, hn⟩)
    · exact Nat.zero_le _
    · have := (@extractStream_le_iff dialect body h f _).mp le_rfl line hline
      omega

/-- Every positive count `ls` reports is reached by a line of `ls'`. -/
def Covers (dialect : Dialect) (ls' ls : List Bytes) : Prop :=
  ∀ f, ∀ line ∈ ls, (reported dialect line).get f = 0 ∨
    ∃ line' ∈ ls', (reported dialect line).get f ≤ (reported dialect line').get f

/-- The whole of one text reports no more than the whole of another exactly
when each of its lines is covered there. -/
theorem extractStream_le_extractStream {dialect : Dialect} {body body' : Bytes}
    (h : (fromUtf8? body).isSome = true) (h' : (fromUtf8? body').isSome = true) :
    (∀ f, (extractStream dialect body).get f ≤ (extractStream dialect body').get f) ↔
      Covers dialect (lines body') (lines body) := by
  refine forall_congr' fun f => ?_
  rw [extractStream_le_iff h]
  exact forall₂_congr fun line _ => le_extractStream_iff h' f _

end RapidRouter.Usage
