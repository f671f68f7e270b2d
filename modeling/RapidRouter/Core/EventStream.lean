import Mathlib.Tactic.Ring
import RapidRouter.Core.Sse
import RapidRouter.Lib.Json.Lossy

/-!
# The binary event stream

`router-core/src/eventstream.rs`: frames with their length in front and two
checksums, cut from a byte stream and decoded to the events of `sse.rs`.

A frame whose checksum fails says nothing, and the parser goes on after the
length it declares. `decode_stream` says that of frames sent one after another
the parser makes the events of exactly those that arrived whole, however the
stream was cut, as long as each is of a size the parser takes.

The checksum (`crc32fast::hash`) is a parameter.
-/

namespace RapidRouter.Core

open Json (Bytes ascii utf8 fromUtf8? lossy IsText)

namespace EventStream

/-! ## Numbers -/

/-- `from_be_bytes`. -/
def be (b : Bytes) : Nat := b.foldl (fun n c => n * 256 + c.toNat) 0

/-- `to_be_bytes` of a number of so many bytes, the number cut down to them. -/
def toBe : Nat → Nat → Bytes
  | 0, _ => []
  | k + 1, n => UInt8.ofNat (n / 256 ^ k % 256) :: toBe k n

theorem length_toBe (k n : Nat) : (toBe k n).length = k := by
  induction k with
  | zero => rfl
  | succ k ih => exact congrArg (· + 1) ih

theorem foldl_be (b : Bytes) (n : Nat) :
    b.foldl (fun n c => n * 256 + c.toNat) n = n * 256 ^ b.length + be b := by
  unfold be
  induction b generalizing n with
  | nil => simp
  | cons c b ih =>
    rw [List.foldl_cons, List.foldl_cons, ih, ih (0 * 256 + c.toNat), List.length_cons, pow_succ]
    ring

theorem be_toBe (k n : Nat) : be (toBe k n) = n % 256 ^ k := by
  induction k with
  | zero => exact (Nat.mod_one n).symm
  | succ k ih =>
    have hbyte : (UInt8.ofNat (n / 256 ^ k % 256)).toNat = n / 256 ^ k % 256 :=
      UInt8.toNat_ofNat_of_lt' (Nat.mod_lt _ (by decide))
    show (toBe k n).foldl (fun n c => n * 256 + c.toNat) (0 * 256 + (UInt8.ofNat _).toNat) = _
    rw [foldl_be, hbyte, ih, length_toBe, pow_succ, Nat.mod_mul]
    ring

/-! ## Frames -/

def preludeLen : Nat := 12

/-- 16 MiB. -/
def maxLen : Nat := 16 * 1024 * 1024

/-- The first `n` bytes and the rest, when there are as many. -/
def takeExact (n : Nat) (b : Bytes) : Option (Bytes × Bytes) :=
  if n ≤ b.length then some (b.take n, b.drop n) else none

def text (b : Bytes) : Option Bytes := if (fromUtf8? b).isSome then some b else none

/-- One header: its name, its value, and the headers after it. Only strings
are known. -/
def header (headers : Bytes) : Option ((Bytes × Bytes) × Bytes) := do
  let (nameLen, rest) ← takeExact 1 headers
  let (name, rest) ← takeExact (be nameLen) rest
  let name ← text name
  let (kind, rest) ← takeExact 1 rest
  if kind ≠ [7] then none
  let (len, rest) ← takeExact 2 rest
  let (value, rest) ← takeExact (be len) rest
  let value ← text value
  return ((name, value), rest)

theorem takeExact_length {n : Nat} {b x rest : Bytes} (h : takeExact n b = some (x, rest)) :
    rest.length + n = b.length := by
  unfold takeExact at h
  split at h
  · cases h
    rw [List.length_drop]
    omega
  · cases h

theorem header_length {headers rest : Bytes} {p : Bytes × Bytes}
    (h : header headers = some (p, rest)) : rest.length < headers.length := by
  unfold header at h
  simp only [Option.bind_eq_bind, Option.bind_eq_some_iff, Prod.exists] at h
  obtain ⟨nameLen, r₁, h₁, name, r₂, h₂, name', -, kind, r₃, h₃, h⟩ := h
  have hlen₁ := takeExact_length h₁
  have hlen₂ := takeExact_length h₂
  have hlen₃ := takeExact_length h₃
  split at h
  · cases h
  · simp only [Option.bind_eq_some_iff, Prod.exists] at h
    obtain ⟨len, r₄, h₄, value, r₅, h₅, value', -, h⟩ := h
    have hlen₄ := takeExact_length h₄
    have hlen₅ := takeExact_length h₅
    cases h
    omega

/-- What the headers say of the event and of the message. -/
structure Headers where
  eventType : Option Bytes
  messageType : Option Bytes

def Headers.add (h : Headers) (name value : Bytes) : Headers :=
  if name = utf8 ":event-type" then { h with eventType := some value }
  else if name = utf8 ":message-type" then { h with messageType := some value }
  else h

/-- The loop over the headers. -/
def readHeaders (acc : Headers) (headers : Bytes) : Option Headers :=
  if headers = [] then some acc
  else
    match _h : header headers with
    | none => none
    | some ((name, value), rest) => readHeaders (acc.add name value) rest
termination_by headers.length
decreasing_by exact header_length _h

variable (crc : Bytes → UInt32)

/-- A frame is never shorter than its prelude here. -/
def decodeFrame (frame : Bytes) : Option SseEvent :=
  let headersLen := be ((frame.drop 4).take 4)
  let declaredPreludeCrc := be ((frame.drop 8).take 4)
  if (crc (frame.take 8)).toNat ≠ declaredPreludeCrc then none
  else
    let payloadEnd := frame.length - 4
    let headersEnd := preludeLen + headersLen
    if headersEnd > payloadEnd then none
    else
      let declaredMessageCrc := be (frame.drop payloadEnd)
      if (crc (frame.take payloadEnd)).toNat ≠ declaredMessageCrc then none
      else
        (readHeaders ⟨none, none⟩ ((frame.take headersEnd).drop preludeLen)).map fun h =>
          { event := if h.messageType = some (utf8 "exception") then some (utf8 "exception")
              else h.eventType
            data := lossy ((frame.take payloadEnd).drop headersEnd) }

/-- What `encode_event` is given. -/
structure Frame where
  eventType : String
  payload : Bytes

def encodeHeader (name value : Bytes) : Bytes :=
  toBe 1 name.length ++ name ++ [7] ++ toBe 2 value.length ++ value

def Frame.headers (f : Frame) : Bytes :=
  encodeHeader (utf8 ":event-type") (utf8 f.eventType) ++
    (encodeHeader (utf8 ":message-type") (utf8 "event") ++
      encodeHeader (utf8 ":content-type") (utf8 "application/json"))

def Frame.totalLen (f : Frame) : Nat := preludeLen + f.headers.length + f.payload.length + 4

/-- `encode_event`. -/
def Frame.encode (f : Frame) : Bytes :=
  let lengths := toBe 4 f.totalLen ++ toBe 4 f.headers.length
  let prelude := lengths ++ toBe 4 (crc lengths).toNat
  let message := prelude ++ f.headers ++ f.payload
  message ++ toBe 4 (crc message).toNat

/-! ## A frame decoded -/

theorem takeExact_append {n : Nat} {a b : Bytes} (h : a.length = n) :
    takeExact n (a ++ b) = some (a, b) := by
  have hle : n ≤ (a ++ b).length := by
    rw [List.length_append]
    omega
  unfold takeExact
  rw [if_pos hle, ← h, List.take_left, List.drop_left]

theorem text_of_isText {b : Bytes} (h : IsText b) : text b = some b := if_pos h.fromUtf8

theorem header_encode {name value : Bytes} (hname : IsText name) (hvalue : IsText value)
    (hname' : name.length < 256) (hvalue' : value.length < 65536) (rest : Bytes) :
    header (encodeHeader name value ++ rest) = some ((name, value), rest) := by
  have hbe₁ : be (toBe 1 name.length) = name.length := by
    rw [be_toBe]
    exact Nat.mod_eq_of_lt hname'
  have hbe₂ : be (toBe 2 value.length) = value.length := by
    rw [be_toBe]
    exact Nat.mod_eq_of_lt hvalue'
  have hassoc : encodeHeader name value ++ rest =
      toBe 1 name.length ++ (name ++ ([7] ++ (toBe 2 value.length ++ (value ++ rest)))) := by
    unfold encodeHeader
    simp only [List.append_assoc]
  unfold header
  simp only [hassoc, takeExact_append (length_toBe 1 _), hbe₁, takeExact_append rfl,
    text_of_isText hname, takeExact_append (show ([7] : Bytes).length = 1 from rfl),
    takeExact_append (length_toBe 2 _), hbe₂, text_of_isText hvalue, Option.bind_eq_bind,
    Option.bind_some, ne_eq, not_true_eq_false, if_false]
  rfl

theorem readHeaders_encode {acc : Headers} {name value : Bytes} (hname : IsText name)
    (hvalue : IsText value) (hname' : name.length < 256) (hvalue' : value.length < 65536)
    (rest : Bytes) :
    readHeaders acc (encodeHeader name value ++ rest) = readHeaders (acc.add name value) rest := by
  have hne : encodeHeader name value ++ rest ≠ [] := by
    unfold encodeHeader
    simp
  have hheader := header_encode hname hvalue hname' hvalue' rest
  rw [readHeaders, if_neg hne]
  split
  · next hnone =>
    rw [hheader] at hnone
    cases hnone
  · next hsome =>
    rw [hheader] at hsome
    cases hsome
    rfl

theorem readHeaders_nil (acc : Headers) : readHeaders acc [] = some acc := by
  rw [readHeaders, if_pos rfl]

/-- A frame whose fields and length the format has room for, and the parser
takes. -/
structure Frame.Fits (f : Frame) : Prop where
  eventType : (utf8 f.eventType).length < 65536
  total : f.totalLen ≤ maxLen

theorem readHeaders_frame {f : Frame} (hf : f.Fits) : readHeaders ⟨none, none⟩ f.headers =
    some ⟨some (utf8 f.eventType), some (utf8 "event")⟩ := by
  unfold Frame.headers
  have htype : ":event-type" ≠ ":message-type" := by decide
  rw [readHeaders_encode ⟨_, rfl⟩ ⟨_, rfl⟩ (by decide) hf.eventType,
    readHeaders_encode ⟨_, rfl⟩ ⟨_, rfl⟩ (by decide) (by decide),
    ← List.append_nil (encodeHeader (utf8 ":content-type") _),
    readHeaders_encode ⟨_, rfl⟩ ⟨_, rfl⟩ (by decide) (by decide), readHeaders_nil]
  rfl

/-- The event a frame stands for. -/
def Frame.event (f : Frame) : SseEvent := ⟨some (utf8 f.eventType), lossy f.payload⟩

/-- A frame by its parts. -/
theorem decodeFrame_parts {lengths preludeCrc headers payload messageCrc : Bytes}
    (hlengths : lengths.length = 8) (hprelude : preludeCrc.length = 4)
    (hmessage : messageCrc.length = 4) (hheaders : be (lengths.drop 4) = headers.length)
    (hcrc : be preludeCrc = (crc lengths).toNat)
    (hcrc' : be messageCrc = (crc (lengths ++ preludeCrc ++ headers ++ payload)).toNat) :
    decodeFrame crc (lengths ++ preludeCrc ++ headers ++ payload ++ messageCrc) =
      (readHeaders ⟨none, none⟩ headers).map fun h =>
        { event := if h.messageType = some (utf8 "exception") then some (utf8 "exception")
            else h.eventType
          data := lossy payload } := by
  set frame := lengths ++ preludeCrc ++ headers ++ payload ++ messageCrc with hframe
  have hassoc : frame = lengths ++ (preludeCrc ++ (headers ++ (payload ++ messageCrc))) := by
    simp only [hframe, List.append_assoc]
  have hlen : frame.length = 8 + 4 + headers.length + payload.length + 4 := by
    simp only [hframe, List.length_append, hlengths, hprelude, hmessage]
  have hend : frame.length - 4 = (lengths ++ preludeCrc ++ headers ++ payload).length := by
    simp only [List.length_append, hlengths, hprelude, hlen]
    omega
  have hheadersLen : (frame.drop 4).take 4 = lengths.drop 4 := by
    rw [hassoc, List.drop_append_of_le_length (by omega),
      List.take_append_of_le_length (by rw [List.length_drop]; omega)]
    exact List.take_of_length_le (by rw [List.length_drop]; omega)
  have hdeclared : (frame.drop 8).take 4 = preludeCrc := by
    rw [hassoc, ← hlengths, List.drop_left, ← hprelude, List.take_left]
  have hprefix : frame.take 8 = lengths := by rw [hassoc, ← hlengths, List.take_left]
  have hbody : frame.take (frame.length - 4) = lengths ++ preludeCrc ++ headers ++ payload := by
    rw [hend, hframe, List.take_left]
  have htail : frame.drop (frame.length - 4) = messageCrc := by
    rw [hend, hframe, List.drop_left]
  have hfront : (lengths ++ preludeCrc).length = preludeLen := by
    rw [List.length_append, hlengths, hprelude]
    rfl
  have hheaders' : (frame.take (preludeLen + headers.length)).drop preludeLen = headers := by
    have hcut : preludeLen + headers.length = (lengths ++ preludeCrc ++ headers).length := by
      rw [List.length_append, hfront]
    rw [hcut, hframe, List.append_assoc _ payload, List.take_left, ← hfront, List.drop_left]
  have hpayload : (frame.take (frame.length - 4)).drop (preludeLen + headers.length) = payload := by
    have hcut : preludeLen + headers.length = (lengths ++ preludeCrc ++ headers).length := by
      rw [List.length_append, hfront]
    rw [hbody, hcut, List.drop_left]
  have hroom : ¬ preludeLen + headers.length > frame.length - 4 := by
    unfold preludeLen
    omega
  unfold decodeFrame
  dsimp only
  rw [hheadersLen, hheaders, hprefix, hdeclared, hcrc, if_neg (fun h => h rfl), if_neg hroom, htail,
    hcrc', hbody, if_neg (fun h => h rfl), hheaders', ← hbody, hpayload]

theorem be_crc (b : Bytes) : be (toBe 4 (crc b).toNat) = (crc b).toNat := by
  rw [be_toBe]
  exact Nat.mod_eq_of_lt (crc b).toNat_lt

theorem decodeFrame_headers {f : Frame} (h : f.headers.length < 256 ^ 4) :
    decodeFrame crc (f.encode crc) = (readHeaders ⟨none, none⟩ f.headers).map fun h =>
      { event := if h.messageType = some (utf8 "exception") then some (utf8 "exception")
          else h.eventType
        data := lossy f.payload } := by
  have hheaders : be ((toBe 4 f.totalLen ++ toBe 4 f.headers.length).drop 4) = f.headers.length := by
    have hdrop : (toBe 4 f.totalLen ++ toBe 4 f.headers.length).drop 4 = toBe 4 f.headers.length :=
      List.drop_left' (length_toBe 4 _)
    rw [hdrop, be_toBe, Nat.mod_eq_of_lt h]
  unfold Frame.encode
  dsimp only
  rw [decodeFrame_parts crc (by rw [List.length_append, length_toBe, length_toBe]) (length_toBe 4 _)
    (length_toBe 4 _) hheaders (be_crc crc _) (be_crc crc _)]

theorem decodeFrame_encode {f : Frame} (hf : f.Fits) :
    decodeFrame crc (f.encode crc) = some f.event := by
  have hlt : f.headers.length < 256 ^ 4 := by
    have htotal := hf.total
    unfold Frame.totalLen maxLen at htotal
    omega
  rw [decodeFrame_headers crc hlt, readHeaders_frame hf]
  rfl

/-! ## The parser -/

/-- The length a frame declares, and whether it is one to go by. -/
def declared (buf : Bytes) : Nat := be (buf.take 4)

def sized (total : Nat) : Bool := preludeLen + 4 ≤ total && total ≤ maxLen

/-- The loop of `push`; framing that cannot be made sense of drops the
buffer. -/
def takeFrames (buf : Bytes) : List SseEvent × Bytes :=
  if _hshort : buf.length < preludeLen then ([], buf)
  else if _hsized : sized (declared buf) = false then ([], [])
  else if buf.length < declared buf then ([], buf)
  else
    let (events, rest) := takeFrames (buf.drop (declared buf))
    ((decodeFrame crc (buf.take (declared buf))).toList ++ events, rest)
termination_by buf.length
decreasing_by
  unfold sized preludeLen at _hsized
  rw [Bool.not_eq_false, Bool.and_eq_true, decide_eq_true_iff] at _hsized
  unfold preludeLen at _hshort
  rw [List.length_drop]
  omega

/-- The front of a buffer, when it is a whole frame. -/
def cutFrame (buf : Bytes) : Option (Bytes × Bytes) :=
  if preludeLen ≤ buf.length ∧ sized (declared buf) = true ∧ declared buf ≤ buf.length then
    some (buf.take (declared buf), buf.drop (declared buf))
  else none

theorem sized_iff {total : Nat} : sized total = true ↔ 16 ≤ total ∧ total ≤ maxLen := by
  unfold sized preludeLen
  rw [Bool.and_eq_true, decide_eq_true_iff, decide_eq_true_iff]

theorem declared_append {buf : Bytes} (h : preludeLen ≤ buf.length) (s : Bytes) :
    declared (buf ++ s) = declared buf := by
  unfold preludeLen at h
  unfold declared
  rw [List.take_append_of_le_length (by omega)]

def framing : Framing UInt8 Bytes where
  cut := cutFrame
  shorter := by
    intro b r x h
    unfold cutFrame at h
    split at h
    · next hwhole =>
      obtain ⟨hlen, hsized, -⟩ := hwhole
      have htotal := (sized_iff.mp hsized).1
      unfold preludeLen at hlen
      cases h
      rw [List.length_drop]
      omega
    · cases h
  stable := by
    intro b r x s h
    unfold cutFrame at h ⊢
    split at h
    · next hwhole =>
      obtain ⟨hlen, hsized, hle⟩ := hwhole
      cases h
      rw [declared_append hlen, if_pos ⟨by rw [List.length_append]; omega, hsized,
        by rw [List.length_append]; omega⟩, List.take_append_of_le_length hle,
        List.drop_append_of_le_length hle]
    · cases h

/-- No frame begins with such a buffer. -/
def Broken (buf : Bytes) : Prop := preludeLen ≤ buf.length ∧ sized (declared buf) = false

instance (buf : Bytes) : Decidable (Broken buf) := inferInstanceAs (Decidable (_ ∧ _))

/-- The loop takes frame after frame, until it waits or gives up. -/
theorem takeFrames_eq (buf : Bytes) :
    takeFrames crc buf = ((framing.drain buf).1.filterMap (decodeFrame crc),
      if Broken (framing.drain buf).2 then [] else (framing.drain buf).2) := by
  rw [takeFrames]
  by_cases hshort : buf.length < preludeLen
  · have hcut : cutFrame buf = none := if_neg fun h => absurd h.1 (by omega)
    have hdrain : framing.drain buf = ([], buf) := Framing.drain_none hcut
    have hwait : ¬ Broken buf := fun h => absurd h.1 (by omega)
    rw [dif_pos hshort, hdrain]
    dsimp only
    rw [if_neg hwait]
    rfl
  · rw [dif_neg hshort]
    by_cases hsized : sized (declared buf) = false
    · have hcut : cutFrame buf = none := if_neg fun h => by rw [hsized] at h; cases h.2.1
      have hdrain : framing.drain buf = ([], buf) := Framing.drain_none hcut
      have hbroken : Broken buf := ⟨by omega, hsized⟩
      rw [dif_pos hsized, hdrain]
      dsimp only
      rw [if_pos hbroken]
      rfl
    · rw [dif_neg hsized]
      rw [Bool.not_eq_false] at hsized
      by_cases hpart : buf.length < declared buf
      · have hcut : cutFrame buf = none := if_neg fun h => absurd h.2.2 (by omega)
        have hdrain : framing.drain buf = ([], buf) := Framing.drain_none hcut
        have hwait : ¬ Broken buf := fun h => Bool.noConfusion (hsized.symm.trans h.2)
        rw [if_pos hpart, hdrain]
        dsimp only
        rw [if_neg hwait]
        rfl
      · have hcut : framing.cut buf = some (buf.take (declared buf), buf.drop (declared buf)) :=
          if_pos ⟨by omega, hsized, by omega⟩
        have hlt := framing.shorter hcut
        rw [if_neg hpart, takeFrames_eq (buf.drop (declared buf)), Framing.drain_some hcut]
        dsimp only
        rw [List.filterMap_cons]
        cases decodeFrame crc (buf.take (declared buf)) <;> rfl
termination_by buf.length
decreasing_by exact hlt

end EventStream

structure EventStreamParser where
  buffer : Bytes

namespace EventStreamParser

open EventStream

def new : EventStreamParser := ⟨[]⟩

variable (crc : Bytes → UInt32)

def push (p : EventStreamParser) (chunk : Bytes) : List SseEvent × EventStreamParser :=
  let (events, rest) := takeFrames crc (p.buffer ++ chunk)
  (events, ⟨rest⟩)

def events (p : EventStreamParser) : List Bytes → List SseEvent
  | [] => []
  | chunk :: chunks => (p.push crc chunk).1 ++ (p.push crc chunk).2.events chunks

/-- Of a stream that is whole frames, nothing is ever dropped. -/
theorem events_whole {b : Bytes} (chunks : List Bytes) (hb : framing.cut b = none)
    (hwhole : (framing.drain (b ++ chunks.flatten)).2 = []) :
    (EventStreamParser.mk b).events crc chunks =
      (framing.drain (b ++ chunks.flatten)).1.filterMap (decodeFrame crc) := by
  induction chunks generalizing b with
  | nil =>
    rw [List.flatten_nil, List.append_nil, Framing.drain_none hb]
    rfl
  | cons chunk chunks ih =>
    rw [List.flatten_cons, ← List.append_assoc, Framing.drain_append] at hwhole ⊢
    have hrest := Framing.cut_drain (F := framing) (b ++ chunk)
    generalize hdrain : framing.drain (b ++ chunk) = d at hwhole hrest ⊢
    have hkept : ¬ Broken d.2 := by
      rintro ⟨hlen, hsized⟩
      -- what follows cannot mend it, so it would be left over
      have hcut : framing.cut (d.2 ++ chunks.flatten) = none := by
        refine if_neg fun h => ?_
        rw [declared_append hlen, hsized] at h
        cases h.2.1
      rw [Framing.drain_none hcut] at hwhole
      have hnil : d.2 = [] := (List.append_eq_nil_iff.mp hwhole).1
      rw [hnil] at hlen
      exact absurd hlen (by decide)
    have hpush : (EventStreamParser.mk b).push crc chunk =
        (d.1.filterMap (decodeFrame crc), ⟨d.2⟩) := by
      show ((takeFrames crc (b ++ chunk)).1, EventStreamParser.mk (takeFrames crc (b ++ chunk)).2) = _
      rw [takeFrames_eq, hdrain, if_neg hkept]
    unfold events
    rw [hpush, ih hrest hwhole, List.filterMap_append]

/-- A frame as it is sent: as it was encoded, or damaged on the way. -/
structure Sent where
  frame : Frame
  damaged : Option Bytes

def Sent.bytes (s : Sent) : Bytes := s.damaged.getD (s.frame.encode crc)

/-- One of the two checksums of a frame fails. -/
def CrcFails (frame : Bytes) : Prop :=
  (crc (frame.take 8)).toNat ≠ be ((frame.drop 8).take 4) ∨
    (crc (frame.take (frame.length - 4))).toNat ≠ be (frame.drop (frame.length - 4))

/-- Other bytes, but for the length, and a checksum that shows it. -/
structure Damaged (f : Frame) (bytes : Bytes) : Prop where
  length : bytes.length = (f.encode crc).length
  total : bytes.take 4 = (f.encode crc).take 4
  fails : CrcFails crc bytes

theorem decodeFrame_fails {frame : Bytes} (h : CrcFails crc frame) : decodeFrame crc frame = none := by
  unfold decodeFrame
  dsimp only
  rcases h with hprelude | hmessage
  · rw [if_pos hprelude]
  · -- the checks before it drop the frame too
    rw [if_pos hmessage, ite_self, ite_self]

theorem length_encode (f : Frame) : (f.encode crc).length = f.totalLen := by
  unfold Frame.encode Frame.totalLen preludeLen
  simp only [List.length_append, length_toBe]

theorem declared_encode {f : Frame} (h : f.totalLen < 256 ^ 4) :
    declared (f.encode crc) = f.totalLen := by
  have htake : (f.encode crc).take 4 = toBe 4 f.totalLen := by
    unfold Frame.encode
    simp only [List.append_assoc]
    exact List.take_left' (length_toBe 4 _)
  unfold declared
  rw [htake, be_toBe, Nat.mod_eq_of_lt h]

/-- A frame comes off the front of what is sent, whole or damaged. -/
theorem cut_sent {s : Sent} (hf : s.frame.totalLen ≤ maxLen)
    (hd : ∀ b, s.damaged = some b → Damaged crc s.frame b) (rest : Bytes) :
    framing.cut (s.bytes crc ++ rest) = some (s.bytes crc, rest) := by
  have hlt : s.frame.totalLen < 256 ^ 4 := lt_of_le_of_lt hf (by decide)
  have hsame : (s.bytes crc).length = s.frame.totalLen ∧ declared (s.bytes crc) = s.frame.totalLen := by
    unfold Sent.bytes
    cases hdamaged : s.damaged with
    | none => exact ⟨length_encode crc s.frame, declared_encode crc hlt⟩
    | some b =>
      obtain ⟨hlength, htotal, -⟩ := hd b hdamaged
      refine ⟨hlength.trans (length_encode crc s.frame), ?_⟩
      show be (b.take 4) = _
      rw [htotal]
      exact declared_encode crc hlt
  obtain ⟨hlength, hdeclared⟩ := hsame
  have hpos : 16 ≤ s.frame.totalLen := by
    unfold Frame.totalLen preludeLen
    omega
  have hprelude : preludeLen ≤ (s.bytes crc).length := by
    unfold preludeLen
    omega
  have hstart : declared (s.bytes crc ++ rest) = (s.bytes crc).length := by
    rw [declared_append hprelude, hdeclared, hlength]
  have hsized : sized (s.bytes crc).length = true := by
    rw [hlength]
    exact sized_iff.mpr ⟨hpos, hf⟩
  have hlen : (s.bytes crc ++ rest).length = (s.bytes crc).length + rest.length :=
    List.length_append
  show cutFrame (s.bytes crc ++ rest) = _
  unfold cutFrame
  rw [hstart, if_pos ⟨by omega, hsized, by omega⟩, List.take_left, List.drop_left]

/-- Every list of frames, damaged or not, and every way of cutting the stream
they make up. -/
theorem decode_stream (sent : List Sent) (hfits : ∀ s ∈ sent, s.frame.Fits)
    (hdamaged : ∀ s ∈ sent, ∀ b, s.damaged = some b → Damaged crc s.frame b) (chunks : List Bytes)
    (hchunks : chunks.flatten = (sent.map (·.bytes crc)).flatten) :
    new.events crc chunks = (sent.filter (·.damaged.isNone)).map (·.frame.event) := by
  have hdrain : framing.drain (sent.map (·.bytes crc)).flatten = (sent.map (·.bytes crc), []) := by
    clear hchunks
    induction sent with
    | nil => exact Framing.drain_none rfl
    | cons s sent ih =>
      rw [List.map_cons, List.flatten_cons,
        Framing.drain_some (cut_sent crc (hfits s List.mem_cons_self).total
          (hdamaged s List.mem_cons_self) _),
        ih (fun c hc => hfits c (List.mem_cons_of_mem _ hc))
          fun c hc => hdamaged c (List.mem_cons_of_mem _ hc)]
  have hevents : new.events crc chunks =
      (framing.drain ([] ++ chunks.flatten)).1.filterMap (decodeFrame crc) := by
    refine events_whole crc chunks rfl ?_
    rw [List.nil_append, hchunks, hdrain]
  rw [hevents, List.nil_append, hchunks, hdrain]
  clear hevents hdrain hchunks
  induction sent with
  | nil => rfl
  | cons s sent ih =>
    have hrest := ih (fun c hc => hfits c (List.mem_cons_of_mem _ hc))
      fun c hc => hdamaged c (List.mem_cons_of_mem _ hc)
    dsimp only at hrest ⊢
    rw [List.map_cons, List.filterMap_cons, hrest, List.filter_cons]
    unfold Sent.bytes
    cases hs : s.damaged with
    | none =>
      rw [Option.getD_none, decodeFrame_encode crc (hfits s List.mem_cons_self)]
      rfl
    | some b =>
      rw [Option.getD_some, decodeFrame_fails crc (hdamaged s List.mem_cons_self b hs).fails]
      rfl

/-- CRC-32, a bit at a time. -/
def crcBit (c : Nat) : Nat := c / 2 ^^^ c % 2 * 0xEDB88320

def crcByte (c : Nat) (b : UInt8) : Nat := Nat.repeat crcBit 8 (c ^^^ b.toNat)

def crc32 (b : Bytes) : UInt32 := UInt32.ofNat (b.foldl crcByte 0xFFFFFFFF ^^^ 0xFFFFFFFF)

example : crc32 (utf8 "123456789") = 0xCBF43926 := by decide +kernel

def messageStart : Frame := ⟨"messageStart", utf8 "{}"⟩

def messageStop : Frame := ⟨"messageStop", utf8 "{}"⟩

/-- A byte of the payload turned over. -/
def spoilt : Bytes := (messageStart.encode crc32).set ((messageStart.encode crc32).length - 6) 0x84

theorem damaged_spoilt : Damaged crc32 messageStart spoilt where
  length := List.length_set
  total := by decide +kernel
  fails := by
    unfold CrcFails
    decide +kernel

/-- A frame spoilt and one whole, cut inside the first one's length. -/
theorem decode_stream_spoilt : ∃ bytes, bytes = spoilt ++ messageStop.encode crc32 ∧
    new.events crc32 [bytes.take 3, bytes.drop 3] = [messageStop.event] := by
  refine ⟨_, rfl, ?_⟩
  refine decode_stream crc32 [⟨messageStart, some spoilt⟩, ⟨messageStop, none⟩] ?_ ?_ _ ?_
  · intro s hs
    have hs' := List.mem_pair.mp hs
    rcases hs' with rfl | rfl
    · exact ⟨by decide +kernel, by decide +kernel⟩
    · exact ⟨by decide +kernel, by decide +kernel⟩
  · intro s hs b hb
    rcases List.mem_pair.mp hs with rfl | rfl
    · cases hb
      exact damaged_spoilt
    · cases hb
  · rw [List.flatten_cons, List.flatten_cons, List.flatten_nil, List.append_nil,
      List.take_append_drop, List.map_cons, List.map_cons, List.map_nil, List.flatten_cons,
      List.flatten_cons, List.flatten_nil, List.append_nil]
    rfl

/-! ## What the format has no room for -/

theorem utf8_replicate (n : Nat) : utf8 (String.ofList (List.replicate n 'a')) = List.replicate n 97 := by
  rw [Json.utf8_ofList]
  induction n with
  | zero => rfl
  | succ n ih =>
    rw [List.replicate_succ, List.flatMap_cons, ih]
    rfl

/-- A header of nothing but one letter is of no known kind. -/
theorem header_replicate (n : Nat) (rest : Bytes) :
    header (List.replicate (1 + (97 + (1 + n))) 97 ++ rest) = none := by
  have htext : text (List.replicate 97 97) = some (List.replicate 97 97) :=
    text_of_isText ⟨_, (utf8_replicate 97).symm⟩
  have hbe : be (List.replicate 1 97) = 97 := rfl
  have hkind : List.replicate 1 (97 : UInt8) ≠ [7] := by decide
  unfold header
  simp only [List.replicate_add _ _ (97 : UInt8), List.append_assoc,
    takeExact_append List.length_replicate, hbe, htext, Option.bind_eq_bind, Option.bind_some,
    if_pos hkind]
  rfl

/-- An event type of so many letters. -/
def letters (n : Nat) : Frame := ⟨String.ofList (List.replicate n 'a'), []⟩

/-- A payload of so many zeros. -/
def zeros (n : Nat) : Frame := ⟨"chunk", List.replicate n 0⟩

/-- An event type whose length is written as zero is read as the next header. -/
theorem readHeaders_letters {n : Nat} (h : 99 ≤ n) (h' : n % 65536 = 0) :
    readHeaders ⟨none, none⟩ (letters n).headers = none := by
  have hsplit : (letters n).headers = encodeHeader (utf8 ":event-type") [] ++
      (List.replicate n 97 ++ (encodeHeader (utf8 ":message-type") (utf8 "event") ++
        encodeHeader (utf8 ":content-type") (utf8 "application/json"))) := by
    have hhigh : n / 256 ^ 1 % 256 = 0 := by omega
    have hlow : n / 256 ^ 0 % 256 = 0 := by omega
    have hlen : toBe 2 n = toBe 2 0 := by
      unfold toBe toBe toBe
      rw [hhigh, hlow]
      rfl
    unfold Frame.headers letters
    rw [utf8_replicate]
    unfold encodeHeader
    rw [List.length_replicate, hlen, List.append_assoc _ (List.replicate _ _), List.length_nil,
      List.append_nil]
  have hne : List.replicate n (97 : UInt8) ++ (encodeHeader (utf8 ":message-type") (utf8 "event") ++
      encodeHeader (utf8 ":content-type") (utf8 "application/json")) ≠ [] := by
    intro hnil
    have hlen := congrArg List.length (List.append_eq_nil_iff.mp hnil).1
    rw [List.length_replicate, List.length_nil] at hlen
    omega
  obtain ⟨m, rfl⟩ : ∃ m, n = 1 + (97 + (1 + m)) := ⟨n - 99, by omega⟩
  rw [hsplit, readHeaders_encode ⟨_, rfl⟩ Json.isText_nil (by decide) (by decide), readHeaders,
    if_neg hne]
  split
  · rfl
  · next hsome =>
    rw [header_replicate] at hsome
    cases hsome

theorem events_one {f : Frame} (h : f.totalLen ≤ maxLen) :
    new.events crc [f.encode crc] = (decodeFrame crc (f.encode crc)).toList := by
  have hcut := cut_sent crc (s := ⟨f, none⟩) h (fun b hb => nomatch hb) []
  have hdrain : framing.drain (f.encode crc) = ([f.encode crc], []) := by
    rw [List.append_nil] at hcut
    exact (Framing.drain_some hcut).trans (by rw [Framing.drain_none rfl]; rfl)
  show (takeFrames crc ([] ++ f.encode crc)).1 ++ [] = _
  rw [List.nil_append, List.append_nil, takeFrames_eq, hdrain]
  show [f.encode crc].filterMap (decodeFrame crc) = _
  rw [List.filterMap_cons, List.filterMap_nil]
  cases decodeFrame crc (f.encode crc) <;> rfl

theorem events_long {f : Frame} (h : maxLen < f.totalLen) (h' : f.totalLen < 256 ^ 4) :
    new.events crc [f.encode crc] = [] := by
  have hlen : ¬ (f.encode crc).length < preludeLen := by
    rw [length_encode]
    unfold Frame.totalLen preludeLen
    omega
  have hsized : sized (declared (f.encode crc)) = false := by
    rw [declared_encode crc h', ← Bool.not_eq_true, sized_iff]
    omega
  show (takeFrames crc ([] ++ f.encode crc)).1 ++ [] = []
  rw [List.nil_append, takeFrames, dif_neg hlen, dif_pos hsized]
  rfl

theorem length_headers (f : Frame) : f.headers.length = 70 + (utf8 f.eventType).length := by
  have hname : (utf8 ":event-type").length = 11 := by decide
  have hmessage : (encodeHeader (utf8 ":message-type") (utf8 "event")).length = 22 := by decide
  have hcontent : (encodeHeader (utf8 ":content-type") (utf8 "application/json")).length = 33 := by
    decide
  unfold Frame.headers
  rw [List.length_append, List.length_append, hmessage, hcontent]
  unfold encodeHeader
  simp only [List.length_append, length_toBe, hname, List.length_singleton]
  omega

theorem events_letters {n : Nat} (h : 99 ≤ n) (h' : n % 65536 = 0) (h'' : n ≤ 16000000) :
    new.events crc [(letters n).encode crc] = [] := by
  have hheaders : (letters n).headers.length = 70 + n := by
    rw [length_headers]
    unfold letters
    rw [utf8_replicate, List.length_replicate]
  have hpayload : (letters n).payload.length = 0 := rfl
  have htotal : (letters n).totalLen ≤ maxLen := by
    unfold Frame.totalLen preludeLen maxLen
    omega
  rw [events_one crc htotal, decodeFrame_headers crc (by omega), readHeaders_letters h h']
  rfl

theorem events_zeros {n : Nat} (h : maxLen ≤ n) (h' : n ≤ 4000000000) :
    new.events crc [(zeros n).encode crc] = [] := by
  have htype : (utf8 "chunk").length = 5 := by decide
  have hheaders : (zeros n).headers.length = 70 + (utf8 "chunk").length := length_headers _
  have hpayload : (zeros n).payload.length = n := List.length_replicate
  have htotal : (zeros n).totalLen = n + 91 := by
    unfold Frame.totalLen preludeLen
    omega
  exact events_long crc (by omega) (by omega)

/-- What the encoder writes is not always what the parser reads: a payload
that leaves no room for the rest of the frame, and an event type whose length
is cut down to nothing. -/
theorem frames_lost :
    new.events crc32 [(zeros maxLen).encode crc32] ≠ [(zeros maxLen).event] ∧
      new.events crc32 [(letters 65536).encode crc32] ≠ [(letters 65536).event] := by
  have hzeros : new.events crc32 [(zeros maxLen).encode crc32] = [] :=
    events_zeros crc32 (Nat.le_refl _) (by decide)
  have hletters : new.events crc32 [(letters 65536).encode crc32] = [] :=
    events_letters crc32 (by decide) (by decide) (by decide)
  constructor
  · intro h
    exact List.cons_ne_nil _ _ (h.symm.trans hzeros)
  · intro h
    exact List.cons_ne_nil _ _ (h.symm.trans hletters)

/-! ## What a malformed prelude drops -/

theorem verbatim : framing.Verbatim where
  whole := by
    intro b r x h
    change cutFrame b = _ at h
    unfold cutFrame at h
    split at h
    · next hwhole =>
      obtain ⟨hlen, hsized, hle⟩ := hwhole
      have htotal := (sized_iff.mp hsized).1
      cases h
      refine ⟨(List.take_append_drop _ _).symm, ?_⟩
      have htake : (b.take (declared b)).length = declared b := by
        rw [List.length_take]
        omega
      have hlong : preludeLen ≤ (b.take (declared b)).length := by
        unfold preludeLen
        omega
      have hsame : declared (b.take (declared b)) = declared b := by
        conv_rhs => rw [← List.take_append_drop (declared b) b, declared_append hlong]
      show cutFrame (b.take (declared b)) = _
      unfold cutFrame
      rw [hsame, htake, if_pos ⟨by omega, hsized, Nat.le_refl _⟩, List.take_take, Nat.min_self,
        List.drop_eq_nil_of_le (Nat.le_of_eq htake)]
    · cases h

/-- No frame that decodes stands anywhere in these bytes. -/
def Silent (s : Bytes) : Prop :=
  ∀ n x r, framing.cut (s.drop n) = some (x, r) → decodeFrame crc x = none

variable {crc}

theorem Silent.suffix {s t : Bytes} (h : Silent crc s) (ht : t <:+ s) : Silent crc t := by
  intro n x r hcut
  obtain ⟨u, rfl⟩ := ht
  refine h (u.length + n) x r ?_
  rw [← List.drop_drop, List.drop_left]
  exact hcut

theorem Silent.drain {a t : Bytes} (h : Silent crc (a ++ t)) :
    (framing.drain a).1.filterMap (decodeFrame crc) = [] := by
  cases hcut : framing.cut a with
  | none =>
    rw [Framing.drain_none hcut]
    rfl
  | some p =>
    obtain ⟨x, r⟩ := p
    have hx : decodeFrame crc x = none := h 0 x (r ++ t) (framing.stable t hcut)
    have hr : Silent crc (r ++ t) :=
      h.suffix ⟨x, by rw [← List.append_assoc, ← (verbatim.whole hcut).1]⟩
    rw [Framing.drain_some hcut, List.filterMap_cons, hx]
    exact hr.drain
termination_by a.length
decreasing_by exact framing.shorter hcut

variable (crc)

/-- What a chunk leaves behind. -/
theorem push_eq (b chunk : Bytes) : (EventStreamParser.mk b).push crc chunk =
    ((framing.drain (b ++ chunk)).1.filterMap (decodeFrame crc),
      ⟨if Broken (framing.drain (b ++ chunk)).2 then [] else (framing.drain (b ++ chunk)).2⟩) := by
  show ((takeFrames crc (b ++ chunk)).1, EventStreamParser.mk (takeFrames crc (b ++ chunk)).2) = _
  rw [takeFrames_eq]

theorem events_cons (b chunk : Bytes) (chunks : List Bytes) :
    (EventStreamParser.mk b).events crc (chunk :: chunks) =
      (framing.drain (b ++ chunk)).1.filterMap (decodeFrame crc) ++
        (EventStreamParser.mk (if Broken (framing.drain (b ++ chunk)).2 then []
          else (framing.drain (b ++ chunk)).2)).events crc chunks := by
  rw [events, push_eq]

theorem events_silent {b : Bytes} (chunks : List Bytes) (h : Silent crc (b ++ chunks.flatten)) :
    (EventStreamParser.mk b).events crc chunks = [] := by
  induction chunks generalizing b with
  | nil => rfl
  | cons chunk chunks ih =>
    rw [List.flatten_cons, ← List.append_assoc] at h
    rw [events_cons, h.drain, List.nil_append]
    refine ih (h.suffix ?_)
    split
    · exact List.suffix_append _ _
    · obtain ⟨u, hu⟩ := verbatim.suffix_drain (b ++ chunk)
      exact ⟨u, by rw [← List.append_assoc, hu]⟩

theorem not_cut_of_broken {r : Bytes} (h : Broken r) (t : Bytes) : framing.cut (r ++ t) = none := by
  refine if_neg fun hwhole => ?_
  rw [declared_append h.1, h.2] at hwhole
  cases hwhole.2.1

theorem broken_append {r : Bytes} (h : Broken r) (t : Bytes) : Broken (r ++ t) := by
  refine ⟨?_, by rw [declared_append h.1]; exact h.2⟩
  rw [List.length_append]
  exact Nat.le_add_right_of_le h.1

/-- However a stream is cut, the frames before the first malformed prelude are
decoded, and after it the parser starts anew at some place behind it. -/
theorem events_split {b : Bytes} (chunks : List Bytes) (hb : framing.cut b = none)
    (hb' : ¬ Broken b) : ∃ later, (new.events crc later = [] ∨
      Broken (framing.drain (b ++ chunks.flatten)).2 ∧
        ∃ n, preludeLen ≤ n ∧ later.flatten = (framing.drain (b ++ chunks.flatten)).2.drop n) ∧
      (EventStreamParser.mk b).events crc chunks =
        (framing.drain (b ++ chunks.flatten)).1.filterMap (decodeFrame crc) ++
          new.events crc later := by
  induction chunks generalizing b with
  | nil =>
    refine ⟨[], Or.inl rfl, ?_⟩
    rw [List.flatten_nil, List.append_nil, Framing.drain_none hb]
    rfl
  | cons chunk chunks ih =>
    rw [List.flatten_cons, ← List.append_assoc, Framing.drain_append]
    have hrest := Framing.cut_drain (F := framing) (b ++ chunk)
    rw [events_cons]
    generalize framing.drain (b ++ chunk) = d at hrest ⊢
    by_cases hbroken : Broken d.2
    · -- the rest of what has arrived is dropped
      refine ⟨chunks, ?_, ?_⟩
      · rw [Framing.drain_none (not_cut_of_broken hbroken _)]
        exact Or.inr ⟨broken_append hbroken _, d.2.length, hbroken.1, List.drop_left.symm⟩
      · rw [if_pos hbroken, Framing.drain_none (not_cut_of_broken hbroken _), List.append_nil]
        rfl
    · obtain ⟨later, hlater, hevents⟩ := ih hrest hbroken
      refine ⟨later, hlater, ?_⟩
      rw [if_neg hbroken, hevents, List.filterMap_append, List.append_assoc]

/-- Nothing that decodes stands behind a malformed prelude. -/
def QuietAfter (r : Bytes) : Prop :=
  Broken r → ∀ n, preludeLen ≤ n → ∀ x t, framing.cut (r.drop n) = some (x, t) →
    decodeFrame crc x = none

theorem events_quiet {s : Bytes} (h : QuietAfter crc (framing.drain s).2) {chunks : List Bytes}
    (hs : chunks.flatten = s) :
    new.events crc chunks = (framing.drain s).1.filterMap (decodeFrame crc) := by
  obtain ⟨later, hlater, hevents⟩ := events_split crc (b := []) chunks rfl (by decide)
  rw [List.nil_append, hs] at hlater hevents
  rcases hlater with hnone | ⟨hbroken, n, hn, hflat⟩
  · rw [show new.events crc chunks = _ from hevents, hnone, List.append_nil]
  · have hsilent : Silent crc ([] ++ later.flatten) := by
      intro m x t hcut
      rw [List.nil_append, hflat, List.drop_drop] at hcut
      exact h hbroken (n + m) (Nat.le_add_right_of_le hn) x t hcut
    rw [show new.events crc chunks = _ from hevents,
      show new.events crc later = [] from events_silent crc later hsilent, List.append_nil]

/-- A frame that stands behind a malformed prelude is decoded when the stream
is cut in front of it, and not otherwise. -/
theorem events_loud {s x t : Bytes} {n : Nat} {e : SseEvent} (hbroken : Broken (framing.drain s).2)
    (hn : preludeLen ≤ n) (hcut : framing.cut ((framing.drain s).2.drop n) = some (x, t))
    (he : decodeFrame crc x = some e) :
    ∃ chunks chunks', chunks.flatten = s ∧ chunks'.flatten = s ∧
      new.events crc chunks ≠ new.events crc chunks' := by
  set r := (framing.drain s).2 with hr
  have hs : s = (framing.drain s).1.flatten ++ (r.take n ++ r.drop n) := by
    rw [List.take_append_drop]
    exact verbatim.eq_flatten s
  refine ⟨[s], [(framing.drain s).1.flatten ++ r.take n, r.drop n], List.append_nil s, ?_, ?_⟩
  · rw [List.flatten_cons, List.flatten_cons, List.flatten_nil, List.append_nil, List.append_assoc]
    exact hs.symm
  · have hlong : n < r.length := by
      by_contra hle
      rw [List.drop_eq_nil_of_le (Nat.le_of_not_lt hle)] at hcut
      cases hcut
    have hlen : (r.take n).length = n := by
      rw [List.length_take]
      omega
    have hfront : Broken (r.take n) := by
      refine ⟨by omega, ?_⟩
      have hsame : declared r = declared (r.take n) := by
        conv_lhs => rw [← List.take_append_drop n r, declared_append (by omega)]
      rw [← hsame]
      exact hbroken.2
    have hnone : framing.cut (r.take n) = none := by
      have h := not_cut_of_broken hfront []
      rw [List.append_nil] at h
      exact h
    have hdrain : framing.drain ((framing.drain s).1.flatten ++ r.take n) =
        ((framing.drain s).1, r.take n) := by
      rw [verbatim.drain_flatten, Framing.drain_none hnone, List.append_nil]
    have hwhole : new.events crc [s] = (framing.drain s).1.filterMap (decodeFrame crc) := by
      show (EventStreamParser.mk []).events crc [s] = _
      rw [events_cons, List.nil_append]
      exact List.append_nil _
    have hlater : new.events crc [(framing.drain s).1.flatten ++ r.take n, r.drop n] =
        (framing.drain s).1.filterMap (decodeFrame crc) ++
          (e :: (framing.drain t).1.filterMap (decodeFrame crc)) := by
      show (EventStreamParser.mk []).events crc [_, _] = _
      rw [events_cons, List.nil_append, hdrain, if_pos hfront, events_cons, List.nil_append,
        Framing.drain_some hcut, List.filterMap_cons, he]
      exact congrArg _ (List.append_nil _)
    intro heq
    rw [hwhole, hlater] at heq
    have hlength := congrArg List.length heq
    rw [List.length_append, List.length_cons] at hlength
    omega

/-- Every stream, however it is cut: what is decoded begins with the frames
before the first malformed prelude, and where there is none it is those. Two
ways of cutting it can differ only by frames that stand behind that prelude,
and do when there is one that decodes. -/
theorem events_cut (s : Bytes) :
    (∀ chunks : List Bytes, chunks.flatten = s →
      (framing.drain s).1.filterMap (decodeFrame crc) <+: new.events crc chunks ∧
        (¬ Broken (framing.drain s).2 →
          new.events crc chunks = (framing.drain s).1.filterMap (decodeFrame crc))) ∧
      ((∀ chunks chunks' : List Bytes, chunks.flatten = s → chunks'.flatten = s →
          new.events crc chunks = new.events crc chunks') ↔
        QuietAfter crc (framing.drain s).2) := by
  refine ⟨fun chunks hs => ⟨?_, fun hwhole => ?_⟩, fun hsame => ?_, fun hquiet => ?_⟩
  · obtain ⟨later, -, hevents⟩ := events_split crc (b := []) chunks rfl (by decide)
    rw [List.nil_append, hs] at hevents
    exact ⟨_, hevents.symm⟩
  · exact events_quiet crc (fun hbroken => absurd hbroken hwhole) hs
  · intro hbroken n hn x t hcut
    by_contra hdecodes
    obtain ⟨e, he⟩ := Option.ne_none_iff_exists'.mp hdecodes
    obtain ⟨chunks, chunks', hs, hs', hne⟩ := events_loud crc hbroken hn hcut he
    exact hne (hsame chunks chunks' hs hs')
  · intro chunks chunks' hs hs'
    rw [events_quiet crc hquiet hs, events_quiet crc hquiet hs']

/-- A prelude that declares no length, and a frame behind it. -/
theorem events_cut_lost : ∃ prelude, Broken prelude ∧
    new.events crc32 [prelude ++ messageStop.encode crc32] = [] ∧
      new.events crc32 [prelude, messageStop.encode crc32] = [messageStop.event] := by
  have hbroken : Broken (List.replicate 12 0) := by decide
  have hfits : messageStop.Fits := ⟨by decide +kernel, by decide +kernel⟩
  have hfront : framing.drain (List.replicate 12 0) = ([], List.replicate 12 0) :=
    Framing.drain_none (by decide)
  refine ⟨List.replicate 12 0, hbroken, ?_, ?_⟩
  · show (EventStreamParser.mk []).events crc32 [_] = _
    rw [events_cons, List.nil_append, Framing.drain_none (not_cut_of_broken hbroken _)]
    rfl
  · show (EventStreamParser.mk []).events crc32 [_, _] = _
    rw [events_cons, List.nil_append, hfront, if_pos hbroken]
    show new.events crc32 [messageStop.encode crc32] = _
    rw [events_one crc32 hfits.total, decodeFrame_encode crc32 hfits]
    rfl

end EventStreamParser

end RapidRouter.Core
