import RapidRouter.Lib.Keyset
import RapidRouter.Usage.Rollup

/-!
# The request log, page by page

`page_from_disk` and `collect_page` of `router-server/src/usage.rs`, and the
cursor of the `requests` handler in `admin.rs`: a page is filled from the ring
of recent records, newest arrival first, then from the files of the partitions,
newest name first, and reading stops as soon as the page is full. Ring and files
overlap, and a file's records are left out from the timestamp on at which the
ring's matching ones end.

The cursor orders by timestamp and id, the reading does not. Following the
cursors gives every matching record once, newest first, for every page size,
exactly when the order of reading is that order already (`InOrder`,
`pages_exact_iff`).

The lines of a file are those that can be read from it. Partitions stand under
the day's number, as in `Rollup`.
-/

namespace RapidRouter.Usage.Pages

open Civil Keyset
open Rollup (HistoryFilter Batch Partitions)

structure UsageRecord extends Rollup.UsageRecord where
  requestId : String
  deriving DecidableEq

/-- What the cursor orders by. -/
def position (r : UsageRecord) : Nat ×ₗ String := toLex (r.ts, r.requestId)

/-! ## The store -/

/-- What there is of the request log: the ring, the oldest arrival first, and
the files, each record in the partition of its day. Timestamps are `u64`. -/
structure Store where
  recent : List UsageRecord
  usage : Partitions UsageRecord
  filed : ∀ day files, usage.get? day = some files → ∀ f ∈ files, ∀ r ∈ f.lines, dayOf r.ts = day
  recent_lt : ∀ r ∈ recent, r.ts < 2 ^ 64
  usage_lt : ∀ day files, usage.get? day = some files → ∀ f ∈ files, ∀ r ∈ f.lines, r.ts < 2 ^ 64

/-- A record of some file. -/
def OnDisk (s : Store) (r : UsageRecord) : Prop :=
  ∃ day files, s.usage.get? day = some files ∧ ∃ f ∈ files, r ∈ f.lines

structure Query where
  sinceMs : Nat
  untilMs : Nat
  filter : HistoryFilter
  errorsOnly : Bool

/-! ## Reading -/

/-- The closure `keep`: in the window, strictly after the cursor, and what the filter is for. -/
def keep (q : Query) (after : Option (Nat × String)) (rec : UsageRecord) : Bool :=
  decide (q.sinceMs ≤ rec.ts) && decide (rec.ts ≤ q.untilMs) &&
    after.all (fun cursor => decide (position rec < toLex cursor)) &&
    (q.filter.matchesRecord rec.toUsageRecord && (!q.errorsOnly || decide (400 ≤ rec.status)))

/-- Push records until there are `limit` of them; says whether there are. -/
def fill (limit : Nat) (out : List UsageRecord) : List UsageRecord → List UsageRecord × Bool
  | [] => (out, false)
  | rec :: rest =>
    if limit ≤ (out ++ [rec]).length then (out ++ [rec], true) else fill limit (out ++ [rec]) rest

/-- Sequence numbers are zero-padded, so a reverse sort is newest-first. -/
def newestFirst (files : List (Batch UsageRecord)) : List (Batch UsageRecord) :=
  files.insertionSort fun f g => g.name ≤ f.name

/-- The files of `partitions_since`, in the order they are read. -/
def reading (s : Store) (q : Query) : List (Batch UsageRecord) :=
  (s.usage.entries.filter fun e => decide (dayOf q.sinceMs ≤ e.1)).reverse.flatMap fun e => newestFirst e.2

/-- One file's part, by timestamp. -/
def batch (q : Query) (after : Option (Nat × String)) (oldestInMemory : Nat) (file : Batch UsageRecord) :
    List UsageRecord :=
  (file.lines.filter fun rec => decide (rec.ts < oldestInMemory) && keep q after rec).insertionSort
    fun a b => b.ts ≤ a.ts

def inMemory (s : Store) (q : Query) (after : Option (Nat × String)) : List UsageRecord :=
  s.recent.reverse.filter (keep q after)

/-- `oldest_in_memory`: the last record served from memory, `u64::MAX` without one. -/
def oldestOf (out : List UsageRecord) : Nat := (out.getLast?.map (·.ts)).getD (2 ^ 64 - 1)

def collectPage (s : Store) (limit : Nat) (q : Query) (after : Option (Nat × String)) :
    List UsageRecord :=
  match fill limit [] (inMemory s q after) with
  | (out, true) => out
  | (out, false) => (fill limit out ((reading s q).flatMap (batch q after (oldestOf out)))).1

def pageFromDisk (s : Store) (limit : Nat) (q : Query) (after : Option (Nat × String)) :
    List UsageRecord × Option (Nat × String) :=
  let page := collectPage s (limit + 1) q after
  let hasMore := decide (limit < page.length)
  let page := page.take limit
  (page, if hasMore then page.getLast?.map fun r => (r.ts, r.requestId) else none)

/-! ## The cursor's text -/

/-- `{ts}:{id}` -/
def encodeCursor (cursor : Nat × String) : String := toString cursor.1 ++ ":" ++ cursor.2

/-- `str::parse::<u64>` -/
def parseU64 (text : List Char) : Option Nat :=
  let digits := match text with
    | '+' :: rest => rest
    | _ => text
  if digits ≠ [] ∧ digits.all Char.isDigit ∧ Nat.ofDigitChars 10 digits 0 < 2 ^ 64 then
    some (Nat.ofDigitChars 10 digits 0)
  else none

def decodeCursor (text : String) : Option (Nat × String) :=
  if ':' ∈ text.toList then
    (parseU64 (text.toList.takeWhile (· ≠ ':'))).map fun ts =>
      (ts, String.ofList (text.toList.dropWhile (· ≠ ':')).tail)
  else none

/-- A page as the handler answers it, with the cursor as text. The handler asks
for pages of 1 to 1,000 records. -/
def requests (s : Store) (limit : Nat) (q : Query) (after : Option String) :
    List UsageRecord × Option String :=
  let (data, next) := pageFromDisk s limit q (after.bind decodeCursor)
  (data, next.map encodeCursor)

/-! ## Reading in order -/

/-- Everything that matches, once, newest first. -/
def Exact (s : Store) (q : Query) (out : List UsageRecord) : Prop :=
  (out.Pairwise fun a b => position b < position a) ∧
    ∀ r, r ∈ out ↔ keep q none r = true ∧ (r ∈ s.recent ∨ OnDisk s r)

/-- The timestamp of the earliest arrival in the ring that matches. -/
def oldestMatch (s : Store) (q : Query) : Nat :=
  (((s.recent.filter (keep q none)).head?).map (·.ts)).getD (2 ^ 64 - 1)

/-- A matching record from before that time. -/
def older (s : Store) (q : Query) (r : UsageRecord) : Bool :=
  decide (r.ts < oldestMatch s q) && keep q none r

/-- The order of reading is the order of the cursor: matching records arrived in
it; those only on disk are from before all of them; and of the older ones on
disk, those of a file read earlier come after those of a file read later, and
two of one file and one timestamp have descending ids. -/
structure InOrder (s : Store) (q : Query) : Prop where
  recent : (s.recent.filter (keep q none)).Pairwise fun a b => position a < position b
  seam : ∀ r, OnDisk s r → keep q none r = true → r ∈ s.recent ∨ r.ts < oldestMatch s q
  files : (reading s q).Pairwise fun f g => ∀ a ∈ f.lines, ∀ b ∈ g.lines,
    older s q a = true → older s q b = true → position b < position a
  lines : ∀ f ∈ reading s q, (f.lines.filter (older s q)).Pairwise fun a b =>
    a.ts = b.ts → b.requestId < a.requestId

/-! ## Cursors -/

theorem toList_encodeCursor (cursor : Nat × String) :
    (encodeCursor cursor).toList = Nat.toDigits 10 cursor.1 ++ ':' :: cursor.2.toList := by
  unfold encodeCursor
  rw [String.toList_append, String.toList_append]
  show (Nat.repr cursor.1).toList ++ ":".toList ++ cursor.2.toList = _
  unfold Nat.repr
  rw [String.toList_ofList, List.append_assoc]
  rfl

/-- What the console sends back is the cursor it got. -/
theorem decodeCursor_encodeCursor {cursor : Nat × String} (h : cursor.1 < 2 ^ 64) :
    decodeCursor (encodeCursor cursor) = some cursor := by
  have hdigit : ∀ c ∈ Nat.toDigits 10 cursor.1, c.isDigit = true :=
    fun c hc => Nat.isDigit_of_mem_toDigits (by decide) (by decide) hc
  have hcolon : ∀ c ∈ Nat.toDigits 10 cursor.1, decide (c ≠ ':') = true := by
    intro c hc
    rw [decide_eq_true_eq]
    rintro rfl
    exact absurd (hdigit _ hc) (by decide)
  have htake : (Nat.toDigits 10 cursor.1 ++ ':' :: cursor.2.toList).takeWhile (fun c => decide (c ≠ ':')) =
      Nat.toDigits 10 cursor.1 := by
    rw [List.takeWhile_append_of_pos hcolon, List.takeWhile_cons]
    simp
  have hdrop : (Nat.toDigits 10 cursor.1 ++ ':' :: cursor.2.toList).dropWhile (fun c => decide (c ≠ ':')) =
      ':' :: cursor.2.toList := by
    rw [List.dropWhile_append_of_pos hcolon, List.dropWhile_cons]
    simp
  have hparse : parseU64 (Nat.toDigits 10 cursor.1) = some cursor.1 := by
    have hsign : (match Nat.toDigits 10 cursor.1 with
        | '+' :: rest => rest
        | _ => Nat.toDigits 10 cursor.1) = Nat.toDigits 10 cursor.1 := by
      split
      · next rest heq =>
        have hplus := hdigit '+' (heq ▸ List.mem_cons_self)
        exact absurd hplus (by decide)
      · rfl
    unfold parseU64
    dsimp only
    rw [hsign, Nat.ofDigitChars_ten_toDigits, if_pos]
    refine ⟨Nat.toDigits_ne_nil, ?_, h⟩
    rw [List.all_eq_true]
    exact hdigit
  unfold decodeCursor
  rw [toList_encodeCursor, if_pos (by simp), htake, hdrop, hparse]
  simp

/-! ## A page is the beginning of the listing -/

/-- Everything that is read after a cursor. -/
def listing (s : Store) (q : Query) (after : Option (Nat × String)) : List UsageRecord :=
  inMemory s q after ++ (reading s q).flatMap (batch q after (oldestOf (inMemory s q after)))

theorem fill_eq {limit : Nat} {out : List UsageRecord} (l : List UsageRecord) (h : out.length < limit) :
    fill limit out l = ((out ++ l).take limit, decide (limit ≤ (out ++ l).length)) := by
  induction l generalizing out with
  | nil =>
    unfold fill
    rw [List.append_nil, List.take_of_length_le (by omega), decide_eq_false (by omega)]
  | cons rec rest ih =>
    have hassoc : out ++ rec :: rest = (out ++ [rec]) ++ rest := by simp
    have hlength : (out ++ [rec]).length = out.length + 1 := by simp
    unfold fill
    split
    · next hfull =>
      have hexact : (out ++ [rec]).length = limit := by omega
      rw [hassoc, List.take_append_of_le_length (by omega), List.take_of_length_le (by omega),
        decide_eq_true (by rw [List.length_append]; omega)]
    · next hroom =>
      rw [hassoc]
      exact ih (by omega)

theorem collectPage_eq (s : Store) (limit : Nat) (q : Query) (after : Option (Nat × String)) :
    collectPage s (limit + 1) q after = (listing s q after).take (limit + 1) := by
  unfold collectPage listing
  rw [fill_eq _ (by simp), List.nil_append]
  by_cases hfull : limit + 1 ≤ (inMemory s q after).length
  · rw [decide_eq_true hfull]
    exact (List.take_append_of_le_length hfull).symm
  · rw [decide_eq_false hfull]
    dsimp only
    rw [List.take_of_length_le (by omega), fill_eq _ (by omega)]

theorem requests_last {s : Store} {limit : Nat} {q : Query} {after : Option String}
    (h : (listing s q (after.bind decodeCursor)).length ≤ limit) :
    requests s limit q after = (listing s q (after.bind decodeCursor), none) := by
  have hall : (listing s q (after.bind decodeCursor)).take (limit + 1) =
      listing s q (after.bind decodeCursor) := List.take_of_length_le (by omega)
  unfold requests pageFromDisk
  dsimp only
  rw [collectPage_eq, hall, decide_eq_false (by omega), List.take_of_length_le h]
  rfl

theorem requests_more {s : Store} {limit : Nat} {q : Query} {after : Option String}
    {data rest : List UsageRecord} {x : UsageRecord}
    (h : listing s q (after.bind decodeCursor) = data ++ x :: rest) (hlimit : data.length + 1 = limit)
    (hrest : rest ≠ []) :
    requests s limit q after = (data ++ [x], some (encodeCursor (x.ts, x.requestId))) := by
  have hassoc : data ++ x :: rest = (data ++ [x]) ++ rest := by simp
  have hlength : (data ++ [x]).length = limit := by simp [hlimit]
  have hpos : 0 < rest.length := List.length_pos_iff.mpr hrest
  have hmore : limit < ((data ++ x :: rest).take (limit + 1)).length := by
    rw [List.length_take, hassoc, List.length_append]
    omega
  unfold requests pageFromDisk
  dsimp only
  rw [collectPage_eq, h, decide_eq_true hmore, List.take_take, Nat.min_eq_left (by omega), hassoc,
    List.take_append_of_le_length (by omega), List.take_of_length_le (by omega), List.getLast?_concat]
  rfl

/-! ## What is read -/

theorem keep_some (q : Query) (cursor : Nat × String) (r : UsageRecord) :
    keep q (some cursor) r = (keep q none r && decide (position r < toLex cursor)) := by
  unfold keep
  rw [Option.all_some, Option.all_none, Bool.and_true]
  exact Bool.and_right_comm _ _ _

theorem since_le_of_keep {q : Query} {r : UsageRecord} (h : keep q none r = true) : q.sinceMs ≤ r.ts := by
  unfold keep at h
  simp only [Bool.and_eq_true, decide_eq_true_eq] at h
  exact h.1.1.1

theorem mem_newestFirst {files : List (Batch UsageRecord)} {f : Batch UsageRecord} :
    f ∈ newestFirst files ↔ f ∈ files := List.mem_insertionSort _

theorem mem_reading {s : Store} {q : Query} {f : Batch UsageRecord} :
    f ∈ reading s q ↔
      ∃ day files, s.usage.get? day = some files ∧ f ∈ files ∧ dayOf q.sinceMs ≤ day := by
  unfold reading
  rw [List.mem_flatMap]
  constructor
  · rintro ⟨⟨day, files⟩, he, hf⟩
    obtain ⟨hmem, hday⟩ := List.mem_filter.mp (List.mem_reverse.mp he)
    exact ⟨day, files, OrdMap.mem_entries.mp hmem, mem_newestFirst.mp hf, of_decide_eq_true hday⟩
  · rintro ⟨day, files, hget, hf, hday⟩
    refine ⟨(day, files), List.mem_reverse.mpr (List.mem_filter.mpr ⟨OrdMap.mem_entries.mpr hget, ?_⟩),
      mem_newestFirst.mpr hf⟩
    exact decide_eq_true hday

theorem onDisk_of_reading {s : Store} {q : Query} {f : Batch UsageRecord} {r : UsageRecord}
    (hf : f ∈ reading s q) (hr : r ∈ f.lines) : OnDisk s r := by
  obtain ⟨day, files, hget, hmem, _⟩ := mem_reading.mp hf
  exact ⟨day, files, hget, f, hmem, hr⟩

/-- No partition with a matching record is left out. -/
theorem exists_reading {s : Store} {q : Query} {r : UsageRecord} (hkeep : keep q none r = true)
    (hdisk : OnDisk s r) : ∃ f ∈ reading s q, r ∈ f.lines := by
  obtain ⟨day, files, hget, f, hf, hr⟩ := hdisk
  refine ⟨f, mem_reading.mpr ⟨day, files, hget, hf, ?_⟩, hr⟩
  rw [← s.filed day files hget f hf r hr]
  exact dayOf_mono (since_le_of_keep hkeep)

theorem mem_inMemory {s : Store} {q : Query} {after : Option (Nat × String)} {r : UsageRecord} :
    r ∈ inMemory s q after ↔ r ∈ s.recent ∧ keep q after r = true := by
  unfold inMemory
  rw [List.mem_filter, List.mem_reverse]

theorem inMemory_some (s : Store) (q : Query) (cursor : Nat × String) :
    inMemory s q (some cursor) =
      (inMemory s q none).filter fun r => decide (position r < toLex cursor) := by
  unfold inMemory
  rw [List.filter_filter]
  refine List.filter_congr fun r _ => ?_
  rw [keep_some, Bool.and_comm]

theorem oldestOf_inMemory (s : Store) (q : Query) : oldestOf (inMemory s q none) = oldestMatch s q := by
  unfold oldestOf inMemory oldestMatch
  rw [List.filter_reverse, List.getLast?_reverse]

theorem batch_none (s : Store) (q : Query) (f : Batch UsageRecord) :
    batch q none (oldestMatch s q) f =
      (f.lines.filter (older s q)).insertionSort fun a b => b.ts ≤ a.ts := rfl

theorem mem_batch {s : Store} {q : Query} {f : Batch UsageRecord} {r : UsageRecord} :
    r ∈ batch q none (oldestMatch s q) f ↔ r ∈ f.lines ∧ older s q r = true := by
  rw [batch_none, List.mem_insertionSort, List.mem_filter]

/-- The listing from the start has the matching records of the ring, and of the
files those from before them. -/
theorem mem_listing {s : Store} {q : Query} {r : UsageRecord} :
    r ∈ listing s q none ↔
      keep q none r = true ∧ (r ∈ s.recent ∨ OnDisk s r ∧ r.ts < oldestMatch s q) := by
  unfold listing
  rw [List.mem_append, mem_inMemory, oldestOf_inMemory, List.mem_flatMap]
  constructor
  · rintro (⟨hring, hkeep⟩ | ⟨f, hf, hr⟩)
    · exact ⟨hkeep, .inl hring⟩
    · obtain ⟨hline, holder⟩ := mem_batch.mp hr
      obtain ⟨hts, hkeep⟩ := Bool.and_eq_true_iff.mp holder
      exact ⟨hkeep, .inr ⟨onDisk_of_reading hf hline, of_decide_eq_true hts⟩⟩
  · rintro ⟨hkeep, hring | ⟨hdisk, hts⟩⟩
    · exact .inl ⟨hring, hkeep⟩
    · obtain ⟨f, hf, hline⟩ := exists_reading hkeep hdisk
      refine .inr ⟨f, hf, mem_batch.mpr ⟨hline, ?_⟩⟩
      exact Bool.and_eq_true_iff.mpr ⟨decide_eq_true hts, hkeep⟩

/-- The timestamps of matching records in the ring, when it is in order. -/
theorem oldestMatch_le {s : Store} {q : Query}
    (h : (s.recent.filter (keep q none)).Pairwise fun a b => position a < position b) {r : UsageRecord}
    (hring : r ∈ s.recent) (hkeep : keep q none r = true) : oldestMatch s q ≤ r.ts := by
  have hr : r ∈ s.recent.filter (keep q none) := List.mem_filter.mpr ⟨hring, hkeep⟩
  unfold oldestMatch
  cases hmatches : s.recent.filter (keep q none) with
  | nil =>
    rw [hmatches] at hr
    exact absurd hr List.not_mem_nil
  | cons first rest =>
    rw [hmatches] at h hr
    show first.ts ≤ r.ts
    rcases List.mem_cons.mp hr with rfl | hr
    · exact le_refl _
    · rcases Prod.Lex.toLex_lt_toLex.mp ((List.pairwise_cons.mp h).1 r hr) with hlt | ⟨heq, _⟩
      · exact le_of_lt hlt
      · exact le_of_eq heq

theorem oldestMatch_lt (s : Store) (q : Query) : oldestMatch s q ≤ 2 ^ 64 - 1 := by
  unfold oldestMatch
  cases hmatches : s.recent.filter (keep q none) with
  | nil => exact le_refl _
  | cons first rest =>
    have hmem : first ∈ s.recent := (List.mem_filter.mp (hmatches ▸ List.mem_cons_self)).1
    have hlt := s.recent_lt first hmem
    show first.ts ≤ 2 ^ 64 - 1
    omega

/-- The listing is in the cursor's order when ring and files are. -/
theorem pairwise_listing_iff (s : Store) (q : Query) :
    ((listing s q none).Pairwise fun a b => position b < position a) ↔
      ((s.recent.filter (keep q none)).Pairwise fun a b => position a < position b) ∧
      ((reading s q).Pairwise fun f g => ∀ a ∈ f.lines, ∀ b ∈ g.lines,
        older s q a = true → older s q b = true → position b < position a) ∧
      ∀ f ∈ reading s q, (f.lines.filter (older s q)).Pairwise fun a b =>
        a.ts = b.ts → b.requestId < a.requestId := by
  have hring : ((inMemory s q none).Pairwise fun a b => position b < position a) ↔
      (s.recent.filter (keep q none)).Pairwise fun a b => position a < position b := by
    unfold inMemory
    rw [List.filter_reverse, List.pairwise_reverse]
  have hfiles : ((reading s q).Pairwise fun f g => ∀ a ∈ batch q none (oldestMatch s q) f,
      ∀ b ∈ batch q none (oldestMatch s q) g, position b < position a) ↔
      (reading s q).Pairwise fun f g => ∀ a ∈ f.lines, ∀ b ∈ g.lines,
        older s q a = true → older s q b = true → position b < position a := by
    simp only [mem_batch, and_imp]
    constructor
    · intro h
      exact h.imp fun hfg a ha b hb hoa hob => hfg a ha hoa b hb hob
    · intro h
      exact h.imp fun hfg a ha hoa b hb hob => hfg a ha b hb hoa hob
  unfold listing
  rw [List.pairwise_append, oldestOf_inMemory, List.pairwise_flatMap, hring, hfiles]
  constructor
  · rintro ⟨hmem, ⟨hlines, hacross⟩, _⟩
    refine ⟨hmem, hacross, fun f hf => ?_⟩
    exact (pairwise_sort_iff (fun r : UsageRecord => r.ts) UsageRecord.requestId _).mp (hlines f hf)
  · rintro ⟨hmem, hacross, hlines⟩
    refine ⟨hmem, ⟨fun f hf => ?_, hacross⟩, ?_⟩
    · exact (pairwise_sort_iff (fun r : UsageRecord => r.ts) UsageRecord.requestId _).mpr (hlines f hf)
    · -- What is read from the files is from before the ring.
      intro a ha b hb
      obtain ⟨hrecent, hkeep⟩ := mem_inMemory.mp ha
      obtain ⟨f, hf, hb⟩ := List.mem_flatMap.mp hb
      have hts := of_decide_eq_true (Bool.and_eq_true_iff.mp (mem_batch.mp hb).2).1
      exact Prod.Lex.toLex_lt_toLex.mpr (.inl (lt_of_lt_of_le hts (oldestMatch_le hmem hrecent hkeep)))

/-! ## After a cursor -/

/-- Where the ring ends does not change while a page has records of it. -/
theorem oldestOf_below {l : List UsageRecord} (h : l.Pairwise fun a b => position b < position a)
    {cursor : Nat × String} (hsome : (l.filter fun r => decide (position r < toLex cursor)) ≠ []) :
    oldestOf (l.filter fun r => decide (position r < toLex cursor)) = oldestOf l := by
  rcases List.eq_nil_or_concat l with rfl | ⟨init, last, rfl⟩
  · exact absurd rfl hsome
  · obtain ⟨a, ha⟩ := List.exists_mem_of_ne_nil _ hsome
    obtain ⟨hmem, hbelow⟩ := List.mem_filter.mp ha
    rw [List.concat_eq_append] at h hmem ⊢
    -- The last one is below every other, so below the cursor too.
    have hlast : position last < toLex cursor := by
      rcases List.mem_append.mp hmem with hinit | hin
      · exact lt_trans ((List.pairwise_append.mp h).2.2 a hinit last List.mem_cons_self)
          (of_decide_eq_true hbelow)
      · rw [List.mem_singleton.mp hin] at hbelow
        exact of_decide_eq_true hbelow
    unfold oldestOf
    rw [List.filter_append, List.filter_cons, if_pos (decide_eq_true hlast), List.filter_nil,
      List.getLast?_concat, List.getLast?_concat]

theorem listing_some {s : Store} {q : Query} (h : InOrder s q) (cursor : Nat × String) :
    listing s q (some cursor) =
      (listing s q none).filter fun r => decide (position r < toLex cursor) := by
  have hring : (inMemory s q none).Pairwise fun a b => position b < position a := by
    unfold inMemory
    rw [List.filter_reverse, List.pairwise_reverse]
    exact h.recent
  have hline : ∀ f ∈ reading s q, ∀ r ∈ f.lines,
      (decide (r.ts < oldestOf (inMemory s q (some cursor))) && keep q (some cursor) r) =
        (decide (position r < toLex cursor) && older s q r) := by
    intro f hf r hr
    unfold older
    rw [keep_some]
    by_cases hmatch : keep q none r = true ∧ position r < toLex cursor
    · have hsame : decide (r.ts < oldestOf (inMemory s q (some cursor))) =
          decide (r.ts < oldestMatch s q) := by
        rw [decide_eq_decide]
        by_cases hsome : inMemory s q (some cursor) = []
        · -- The ring has nothing left, so the record is only on disk.
          have hbefore : r.ts < oldestMatch s q := by
            refine (h.seam r (onDisk_of_reading hf hr) hmatch.1).resolve_left fun hrecent => ?_
            have hmem : r ∈ inMemory s q (some cursor) := by
              rw [mem_inMemory, keep_some, hmatch.1, decide_eq_true hmatch.2]
              exact ⟨hrecent, rfl⟩
            rw [hsome] at hmem
            exact List.not_mem_nil hmem
          have hmax := oldestMatch_lt s q
          rw [hsome]
          constructor
          · intro _
            exact hbefore
          · intro _
            show r.ts < 2 ^ 64 - 1
            omega
        · rw [inMemory_some] at hsome ⊢
          rw [oldestOf_below hring hsome, oldestOf_inMemory]
      rw [hsame, hmatch.1, decide_eq_true hmatch.2]
      rfl
    · by_cases hkeep : keep q none r = true
      · have hnot : ¬position r < toLex cursor := fun hlt => hmatch ⟨hkeep, hlt⟩
        rw [decide_eq_false hnot, Bool.and_false, Bool.and_false, Bool.false_and]
      · rw [Bool.not_eq_true] at hkeep
        rw [hkeep, Bool.false_and, Bool.and_false, Bool.and_false, Bool.and_false]
  have hbatch : ∀ f ∈ reading s q, batch q (some cursor) (oldestOf (inMemory s q (some cursor))) f =
      (batch q none (oldestMatch s q) f).filter fun r => decide (position r < toLex cursor) := by
    have htotal : Std.Total fun a b : UsageRecord => b.ts ≤ a.ts := ⟨fun a b => le_total _ _⟩
    have htrans : IsTrans UsageRecord fun a b => b.ts ≤ a.ts := ⟨fun _ _ _ hab hbc => le_trans hbc hab⟩
    intro f hf
    rw [batch_none, filter_insertionSort, List.filter_filter]
    unfold batch
    congr 1
    exact List.filter_congr fun r hr => hline f hf r hr
  unfold listing
  rw [List.filter_append, ← inMemory_some, oldestOf_inMemory, List.filter_flatMap]
  congr 1
  exact List.flatMap_congr hbatch

/-! ## The paging law -/

theorem exact_listing {s : Store} {q : Query} (h : InOrder s q) : Exact s q (listing s q none) := by
  refine ⟨(pairwise_listing_iff s q).mpr ⟨h.recent, h.files, h.lines⟩, fun r => ?_⟩
  rw [mem_listing]
  refine and_congr_right fun hkeep => ?_
  constructor
  · rintro (hring | ⟨hdisk, _⟩)
    · exact .inl hring
    · exact .inr hdisk
  · rintro (hring | hdisk)
    · exact .inl hring
    · rcases h.seam r hdisk hkeep with hring | hts
      · exact .inl hring
      · exact .inr ⟨hdisk, hts⟩

theorem ts_lt_of_stored {s : Store} {r : UsageRecord} (h : r ∈ s.recent ∨ OnDisk s r) : r.ts < 2 ^ 64 := by
  rcases h with hring | ⟨day, files, hget, f, hf, hr⟩
  · exact s.recent_lt r hring
  · exact s.usage_lt day files hget f hf r hr

theorem follows_pages {s : Store} {q : Query} (h : InOrder s q) {limit : Nat} (hlimit : 0 < limit) :
    Follows (requests s limit q) none (listing s q none) := by
  have hexact := exact_listing h
  refine @follows_listing _ _ (requests s limit q) (fun after => listing s q (after.bind decodeCursor))
    (fun r => encodeCursor (r.ts, r.requestId)) limit hlimit (fun after hfits => requests_last hfits)
    (fun after data x rest => requests_more) (fun after data x rest hcut => ?_) none
  -- The listing after any cursor is a part of the whole one.
  have hdesc : ((data ++ x :: rest).Pairwise fun a b => position b < position a) ∧
      x ∈ listing s q none ∧
      (data ++ x :: rest).filter (fun r => decide (position r < position x)) =
        (listing s q none).filter fun r => decide (position r < position x) := by
    have hmem : x ∈ data ++ x :: rest := List.mem_append_right _ List.mem_cons_self
    rw [← hcut] at hmem ⊢
    cases hcursor : after.bind decodeCursor with
    | none =>
      rw [hcursor] at hmem
      exact ⟨hexact.1, hmem, rfl⟩
    | some cursor =>
      rw [hcursor, listing_some h] at hmem
      rw [listing_some h]
      obtain ⟨hin, hbelow⟩ := List.mem_filter.mp hmem
      refine ⟨hexact.1.filter _, hin, ?_⟩
      rw [List.filter_filter]
      refine List.filter_congr fun r _ => ?_
      by_cases hlt : position r < position x
      · rw [decide_eq_true hlt, decide_eq_true (lt_trans hlt (of_decide_eq_true hbelow))]
        rfl
      · rw [decide_eq_false hlt, Bool.false_and]
  obtain ⟨hpairwise, hx, hbelow⟩ := hdesc
  have hts : x.ts < 2 ^ 64 := ts_lt_of_stored ((hexact.2 x).mp hx).2
  show listing s q (decodeCursor (encodeCursor (x.ts, x.requestId))) = rest
  rw [decodeCursor_encodeCursor hts, listing_some h]
  exact hbelow.symm.trans (filter_below hpairwise)

/-- Following the cursors gives every matching record once, newest first, for
every page size, exactly when the order of reading is the order of the cursor. -/
theorem pages_exact_iff (s : Store) (q : Query) :
    (∀ limit, 0 < limit → ∃ out, Follows (requests s limit q) none out ∧ Exact s q out) ↔
      InOrder s q := by
  constructor
  · intro h
    -- A page that has room for everything is the listing.
    have hpage : requests s ((listing s q none).length + 1) q none = (listing s q none, none) :=
      @requests_last s _ q none (Nat.le_succ _)
    obtain ⟨out, hfollows, hexact⟩ := h _ (Nat.succ_pos _)
    obtain rfl := hfollows.unique (.last hpage)
    obtain ⟨hrecent, hfiles, hlines⟩ := (pairwise_listing_iff s q).mp hexact.1
    refine ⟨hrecent, fun r hdisk hkeep => ?_, hfiles, hlines⟩
    rcases (mem_listing.mp ((hexact.2 r).mpr ⟨hkeep, .inr hdisk⟩)).2 with hring | ⟨_, hts⟩
    · exact .inl hring
    · exact .inr hts
  · intro h limit hlimit
    exact ⟨_, follows_pages h hlimit, exact_listing h⟩

/-! ## Two records of one millisecond -/

def requestOf (id : String) : UsageRecord :=
  { ts := 1000, provider := "openai", model := "gpt-4o", vkey := none, status := 200, inputTokens := 10
    outputTokens := 20, cachedTokens := 0, costMicroUsd := 5, latencyMs := 100, attempts := 1
    requestId := id }

/-- Two requests that ended in the same millisecond, flushed in one file. -/
def flushed : Partitions UsageRecord := OrdMap.empty.insert 0 [⟨"n", 0, [requestOf "a", requestOf "b"]⟩]

theorem ts_flushed {day : Nat} {files : List (Batch UsageRecord)} (h : flushed.get? day = some files) :
    day = 0 ∧ ∀ f ∈ files, ∀ r ∈ f.lines, r.ts = 1000 := by
  unfold flushed at h
  rw [OrdMap.get?_insert] at h
  split at h
  · next hday =>
    obtain rfl := Option.some.inj h
    refine ⟨hday, fun f hf r hr => ?_⟩
    obtain rfl := List.mem_singleton.mp hf
    rcases List.mem_cons.mp hr with rfl | hr
    · rfl
    · rw [List.mem_singleton.mp hr]
      rfl
  · cases h

/-- A restarted gateway, with nothing in the ring. -/
def restarted : Store :=
  { recent := []
    usage := flushed
    filed := fun day files hget f hf r hr => by
      obtain ⟨rfl, hts⟩ := ts_flushed hget
      rw [hts f hf r hr]
      rfl
    recent_lt := fun r hr => absurd hr List.not_mem_nil
    usage_lt := fun day files hget f hf r hr => by
      rw [(ts_flushed hget).2 f hf r hr]
      decide }

def anything : Query := ⟨0, 2000, ⟨none, none, none⟩, false⟩

/-- **A record is skipped.** The first page ends at `a`, and `b` is not below it. -/
theorem pages_skip_record :
    ¬∀ (s : Store) (q : Query) (limit : Nat), 0 < limit →
      ∃ out, Follows (requests s limit q) none out ∧ Exact s q out := by
  intro h
  obtain ⟨out, hfollows, hexact⟩ := h restarted anything 1 Nat.one_pos
  have hfirst : requests restarted 1 anything none = ([requestOf "a"], some (encodeCursor (1000, "a"))) := by
    decide
  have hsecond : requests restarted 1 anything (some (encodeCursor (1000, "a"))) = ([], none) := by
    decide
  obtain rfl := hfollows.unique (.more hfirst (.last hsecond))
  have hdisk : OnDisk restarted (requestOf "b") :=
    ⟨0, _, rfl, _, List.mem_cons_self, List.mem_cons_of_mem _ List.mem_cons_self⟩
  have hb := (hexact.2 (requestOf "b")).mpr ⟨by decide, .inr hdisk⟩
  exact absurd hb (by decide)

end RapidRouter.Usage.Pages
