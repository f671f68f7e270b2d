import RapidRouter.Lib.Lts
import RapidRouter.Usage.Rollup

/-!
# The cache of one day, read and written at once

`hourly_rows`, `read_if_current` and `write_cache` of `rollup_cache.rs`, every
file operation a step of its own: request threads read, the flusher rebuilds
the cache (`refresh`, or `backfill_missing_rollups` for a day without
rollups), files are added to the day's rollups, and the flusher can die
anywhere in between. A temporary file and a stamp are written piece by piece.

What a read returns is the rows of the day's files as they were at some moment
of the read (`hourly_rows_current`). A stamp is written last, of a listing
taken before the rows were read, and files are only added: so a stamp that
matches a listing vouches for rows read then or later, and the cache opened
after it, be it a newer one, was read later still.

Fingerprints are compared as texts, and `U` is a set of listings on which no
two have the same one.
-/

namespace RapidRouter.Usage.DayCache

open Tally Lts
open Rollup (UsageRecord RollupRow Batch fingerprintHash rollUp)

/-! ## Fingerprints -/

/-- `{hash:016x}` -/
def hex16 (hash : UInt64) : List Char :=
  (List.range 16).map fun i => Nat.digitChar (hash.toNat / 16 ^ (15 - i) % 16)

def listing {α : Type} (files : List (Batch α)) : List String :=
  (files.map Batch.name).mergeSort fun a b => decide (a ≤ b)

/-- `{}:{hash:016x}`, of sorted names. -/
def fingerprintText (names : List String) : List Char :=
  Nat.toDigits 10 names.length ++ ':' :: hex16 (fingerprintHash names)

/-- The day's directory under `rollup/`, when it is there. -/
abbrev Dir := Option (List (Batch RollupRow))

/-- The day's records do not change here. -/
abbrev Records := Option (List (Batch UsageRecord))

/-- What `hourly_rows` wants the stamp of the cache to be: a day without
rollups is known by its records. -/
def stampText (records : Records) : Dir → Option (List Char)
  | some files => some (fingerprintText (listing files))
  | none => records.map fun files => "records:".toList ++ fingerprintText (listing files)

/-- The rows computed from the files. -/
def fileRows (records : Records) : Dir → List RollupRow
  | some files => files.flatMap (·.lines)
  | none => rollUp ((records.getD []).flatMap (·.lines))

/-- `str::trim`, on the blanks of ASCII. -/
def trim (text : List Char) : List Char :=
  ((text.dropWhile Char.isWhitespace).reverse.dropWhile Char.isWhitespace).reverse

/-! ## The state -/

/-- The stamp's file; a ghost says which listing it is of. -/
structure Stamp where
  text : List Char
  source : Dir

/-- The cache's file; a ghost says which files its rows were read from. -/
structure Cached where
  rows : List RollupRow
  source : Dir

/-- The flusher in its pass over one day. `found` is the directory its stamp is
of, `source` the one its rows are of. -/
inductive Flusher where
  | idle
  | listed (days : Dir)
  | stamped (found : Dir)
  | reading (found : Dir)
  | creating (found source : Dir) (rows : List RollupRow)
  | building (found source : Dir) (rows left : List RollupRow)
  | unstamping (found source : Dir) (rows : List RollupRow)
  | replacing (found source : Dir) (rows : List RollupRow)
  | creatingStamp (found : Dir)
  | stamping (found : Dir) (left : List Char)

/-- A call of `hourly_rows`; a ghost says what the directory was when it
began. -/
inductive Reader where
  | begun (since : Dir)
  | found (since found : Dir)
  | opening (since found : Dir)
  | reading (since found : Dir)
  | returned (since : Dir) (rows : List RollupRow)

structure State (ι : Type) where
  dir : Dir
  stamp : Option Stamp
  cache : Option Cached
  temporary : Option (List RollupRow)
  flusher : Flusher
  readers : ι → Option Reader

inductive Label (ι : Type) where
  | createDir
  | append (file : Batch RollupRow)
  | flush (amount : Nat)
  | crash
  | begins (i : ι)
  | reads (i : ι)
  | finishes (i : ι)

variable {ι : Type}

/-- The first half of `read_if_current`. -/
def isCurrent (s : State ι) (want : List Char) : Bool :=
  s.stamp.any fun stamp => trim stamp.text = want

variable (records : Records)

/-- One step of the flusher. A day that is not over is left at `listed`, as by
a crash there. -/
def flush (s : State ι) (amount : Nat) : State ι :=
  match s.flusher with
  | .idle => { s with flusher := .listed s.dir }
  | .listed (some _) => { s with flusher := .stamped s.dir }
  | .listed none =>
    -- Not among the days with rollups: the backfill's.
    match records with
    | none => { s with flusher := .idle }
    | some _ => { s with flusher := .stamped none }
  | .stamped found =>
    match stampText records found with
    | none => { s with flusher := .idle }
    | some want =>
      if isCurrent s want && s.cache.isSome then { s with flusher := .idle }
      else { s with flusher := .reading found }
  | .reading (some files) =>
    { s with flusher := .creating (some files) s.dir (fold (fileRows records s.dir)) }
  | .reading none => { s with flusher := .creating none none (fold (fileRows records none)) }
  | .creating found source rows =>
    { s with temporary := some [], flusher := .building found source rows rows }
  | .building found source rows [] => { s with flusher := .unstamping found source rows }
  | .building found source rows left =>
    { s with
      temporary := s.temporary.map (· ++ left.take amount)
      flusher := .building found source rows (left.drop amount) }
  | .unstamping found source rows => { s with stamp := none, flusher := .replacing found source rows }
  | .replacing found source _ =>
    { s with
      cache := s.temporary.map fun rows => ⟨rows, source⟩
      temporary := none
      flusher := .creatingStamp found }
  | .creatingStamp found =>
    { s with
      stamp := some ⟨[], found⟩
      flusher := .stamping found ((stampText records found).getD []) }
  | .stamping _ [] => { s with flusher := .idle }
  | .stamping found left =>
    { s with
      stamp := s.stamp.map fun stamp => { stamp with text := stamp.text ++ left.take amount }
      flusher := .stamping found (left.drop amount) }

/-- One step of a read. -/
def read (s : State ι) : Reader → Reader
  | .begun since => .found since s.dir
  | .found since found =>
    match stampText records found with
    | none => .reading since found
    | some want => if isCurrent s want then .opening since found else .reading since found
  | .opening since found =>
    match s.cache with
    | none => .reading since found
    | some cache => .returned since cache.rows
  | .reading since (some _) => .returned since (fileRows records s.dir)
  | .reading since none =>
    .returned since (if records.isNone then [] else fold (fileRows records none))
  | .returned since rows => .returned since rows

def next [DecidableEq ι] (s : State ι) : Label ι → Option (State ι)
  | .createDir => if s.dir = none then some { s with dir := some [] } else none
  | .append file =>
    match s.dir with
    | none => none
    | some files =>
      -- A name is used once, so what is in a file stays as it is.
      if file.name ∈ files.map Batch.name then none else some { s with dir := some (files ++ [file]) }
  | .flush amount => some (flush records s amount)
  | .crash => some { s with flusher := .idle }
  | .begins i =>
    match s.readers i with
    | none => some { s with readers := Function.update s.readers i (some (.begun s.dir)) }
    | some _ => none
  | .reads i =>
    match s.readers i with
    | none => none
    | some r => some { s with readers := Function.update s.readers i (some (read records s r)) }
  | .finishes i => some { s with readers := Function.update s.readers i none }

/-- The day's listings are among those that a fingerprint tells apart. -/
def Listed (U : Set (List String)) (dir : Dir) : Prop := ∀ files, dir = some files → listing files ∈ U

/-- Any files, no cache yet. -/
def Starts (U : Set (List String)) (s : State ι) : Prop :=
  Listed U s.dir ∧ s.stamp = none ∧ s.cache = none ∧ s.flusher = .idle ∧ ∀ i, s.readers i = none

def system [DecidableEq ι] (U : Set (List String)) : System (State ι) (Label ι) := ofNext (Starts U) (next records)

/-- Files are added within `U`. -/
def Within [DecidableEq ι] (U : Set (List String)) (s : State ι) (l : Label ι) : Prop :=
  ∀ s', next records s l = some s' → Listed U s'.dir

/-! ## Texts -/

theorem fingerprintText_cons (names : List String) :
    ∃ c rest, fingerprintText names = c :: rest ∧ c.isDigit = true := by
  cases hdigits : Nat.toDigits 10 names.length with
  | nil => exact absurd hdigits Nat.toDigits_ne_nil
  | cons c rest =>
    refine ⟨c, rest ++ ':' :: hex16 (fingerprintHash names), ?_, ?_⟩
    · unfold fingerprintText
      rw [hdigits]
      rfl
    · exact Nat.isDigit_of_mem_toDigits (by decide) (by decide) (hdigits ▸ List.mem_cons_self)

/-- The marker of a day's records is no digit. -/
theorem records_ne_fingerprint {names : List String} {a b : List Char}
    (h : "records:".toList ++ a = fingerprintText names ++ b) : False := by
  obtain ⟨c, rest, hc, hdigit⟩ := fingerprintText_cons names
  rw [hc] at h
  have hhead : 'r' = c := (List.cons.inj h).1
  subst hhead
  exact absurd hdigit (by decide)

theorem length_hex16 (hash : UInt64) : (hex16 hash).length = 16 := by
  unfold hex16
  rw [List.length_map, List.length_range]

theorem colon_notMem_hex16 (hash : UInt64) : ':' ∉ hex16 hash := by
  intro hmem
  obtain ⟨i, _, hi⟩ := List.mem_map.mp hmem
  have hall : ∀ d : Fin 16, Nat.digitChar d ≠ ':' := by decide
  exact hall ⟨_, Nat.mod_lt _ (by decide)⟩ hi

/-- The hash has its length, so no fingerprint is the beginning of another. -/
theorem fingerprintText_prefix {a b : List String} (h : fingerprintText a <+: fingerprintText b) :
    fingerprintText a = fingerprintText b := by
  obtain ⟨rest, hrest⟩ := h
  have hcolon : ':' ∉ Nat.toDigits 10 b.length := by
    intro hmem
    have hdigit := Nat.isDigit_of_mem_toDigits (by decide) (by decide) hmem
    exact absurd hdigit (by decide)
  unfold fingerprintText at hrest ⊢
  rw [List.append_assoc, List.cons_append] at hrest
  obtain ⟨hcount, -, htail⟩ :=
    (List.append_cons_inj_of_notMem hcolon (colon_notMem_hex16 _)).mp hrest.symm
  have hlength := congrArg List.length htail
  rw [List.length_append, length_hex16, length_hex16] at hlength
  have hnil : rest = [] := List.length_eq_zero_iff.mp (by omega)
  rw [hnil, List.append_nil] at htail
  rw [hcount, htail]

theorem stampText_prefix {d d' : Dir} {a b : List Char} (ha : stampText records d = some a)
    (hb : stampText records d' = some b) (h : a <+: b) : a = b := by
  cases d with
  | some files =>
    obtain rfl := Option.some.inj ha
    cases d' with
    | some files' =>
      obtain rfl := Option.some.inj hb
      exact fingerprintText_prefix h
    | none =>
      obtain ⟨kept, _, rfl⟩ := Option.map_eq_some_iff.mp hb
      obtain ⟨rest, hrest⟩ := h
      exact (records_ne_fingerprint hrest.symm).elim
  | none =>
    obtain ⟨kept, hkept, rfl⟩ := Option.map_eq_some_iff.mp ha
    cases d' with
    | some files' =>
      obtain rfl := Option.some.inj hb
      obtain ⟨rest, hrest⟩ := h
      rw [List.append_assoc] at hrest
      exact (records_ne_fingerprint (hrest.trans (List.append_nil _).symm)).elim
    | none =>
      rw [ha] at hb
      exact Option.some.inj hb

theorem isWhitespace_of_isDigit {c : Char} (h : c.isDigit = true) : c.isWhitespace = false := by
  rw [← Bool.not_eq_true]
  intro hblank
  unfold Char.isWhitespace at hblank
  simp only [Bool.or_eq_true, decide_eq_true_eq] at hblank
  rcases hblank with ((rfl | rfl) | rfl) | rfl <;> exact absurd h (by decide)

/-- No stamp has a blank in it. -/
theorem stampText_no_blank {d : Dir} {a : List Char} (ha : stampText records d = some a) :
    ∀ c ∈ a, c.isWhitespace = false := by
  have hprint : ∀ names, ∀ c ∈ fingerprintText names, c.isWhitespace = false := by
    intro names c hc
    unfold fingerprintText at hc
    rcases List.mem_append.mp hc with hdigit | htail
    · exact isWhitespace_of_isDigit (Nat.isDigit_of_mem_toDigits (by decide) (by decide) hdigit)
    · rcases List.mem_cons.mp htail with rfl | hhex
      · decide
      · obtain ⟨i, _, rfl⟩ := List.mem_map.mp hhex
        have hall : ∀ d : Fin 16, (Nat.digitChar d).isWhitespace = false := by decide
        exact hall ⟨_, Nat.mod_lt _ (by decide)⟩
  cases d with
  | some files =>
    obtain rfl := Option.some.inj ha
    exact hprint _
  | none =>
    obtain ⟨kept, _, rfl⟩ := Option.map_eq_some_iff.mp ha
    intro c hc
    rcases List.mem_append.mp hc with hmark | hrest
    · have hall : ("records:".toList.all fun c => !c.isWhitespace) = true := by decide
      simpa using List.all_eq_true.mp hall c hmark
    · exact hprint _ c hrest

theorem trim_eq {text : List Char} (h : ∀ c ∈ text, c.isWhitespace = false) : trim text = text := by
  have hdrop : ∀ l : List Char, (∀ c ∈ l, c.isWhitespace = false) → l.dropWhile Char.isWhitespace = l := by
    intro l hl
    cases l with
    | nil => rfl
    | cons c rest =>
      rw [List.dropWhile_cons, hl c List.mem_cons_self]
      rfl
  unfold trim
  rw [hdrop text h, hdrop text.reverse fun c hc => h c (List.mem_reverse.mp hc), List.reverse_reverse]

/-! ## Directories grow -/

/-- Files are only added. -/
def Grown : Dir → Dir → Prop
  | none, _ => True
  | some _, none => False
  | some files, some files' => files <+: files'

theorem Grown.refl (d : Dir) : Grown d d := by
  cases d with
  | none => trivial
  | some files => exact List.prefix_refl files

theorem Grown.trans {a b c : Dir} (h : Grown a b) (h' : Grown b c) : Grown a c := by
  cases a with
  | none => trivial
  | some files =>
    cases b with
    | none => exact h.elim
    | some files' =>
      cases c with
      | none => exact h'.elim
      | some files'' => exact List.IsPrefix.trans h h'

/-- Of one day's directories, two of one fingerprint are the same. -/
theorem stampText_injective {U : Set (List String)} (hU : Set.InjOn fingerprintText U) {d d' : Dir}
    (hd : Listed U d) (hd' : Listed U d') (hgrown : Grown d d' ∨ Grown d' d) {a : List Char}
    (ha : stampText records d = some a) (ha' : stampText records d' = some a) : d = d' := by
  have hsame : ∀ {files files' : List (Batch RollupRow)}, listing files = listing files' →
      files <+: files' → files = files' := by
    intro files files' hlist hpre
    have hlength := congrArg List.length hlist
    unfold listing at hlength
    rw [List.length_mergeSort, List.length_mergeSort, List.length_map, List.length_map] at hlength
    exact hpre.eq_of_length hlength
  cases d with
  | some files =>
    cases d' with
    | some files' =>
      have hlist : listing files = listing files' :=
        hU (hd files rfl) (hd' files' rfl) ((Option.some.inj ha).trans (Option.some.inj ha').symm)
      rcases hgrown with hpre | hpre
      · rw [hsame hlist hpre]
      · rw [hsame hlist.symm hpre]
    | none =>
      obtain rfl := Option.some.inj ha
      obtain ⟨kept, _, heq⟩ := Option.map_eq_some_iff.mp ha'
      exact (records_ne_fingerprint (heq.trans (List.append_nil _).symm)).elim
  | none =>
    cases d' with
    | none => rfl
    | some files' =>
      obtain rfl := Option.some.inj ha'
      obtain ⟨kept, _, heq⟩ := Option.map_eq_some_iff.mp ha
      exact (records_ne_fingerprint (heq.trans (List.append_nil _).symm)).elim

/-! ## What every step keeps -/

section
variable (U : Set (List String))

/-- A directory as it was at some time up to now. -/
structure Past (s : State ι) (d : Dir) : Prop where
  grown : Grown d s.dir
  listed : Listed U d

/-- The directory a pass of the flusher is held to. -/
def Flusher.held : Flusher → Option Dir
  | .idle => none
  | .listed d | .stamped d | .reading d | .creating d _ _ | .building d _ _ _ | .unstamping d _ _
  | .replacing d _ _ | .creatingStamp d | .stamping d _ => some d

/-- There is a cache of `d` or of what `d` became, and so is the one under way. -/
structure Under (s : State ι) (d : Dir) : Prop where
  cached : ∃ c, s.cache = some c ∧ Grown d c.source
  coming : ∀ f, s.flusher.held = some f → Grown d f

/-- The rows in hand are those of files listed after the stamp's. -/
structure RowsOf (s : State ι) (found source : Dir) (rows : List RollupRow) : Prop where
  before : Past U s found
  after : Past U s source
  later : Grown found source
  rows : fold rows = fold (fileRows records source)
  stamped : (stampText records found).isSome

def FlusherOk (s : State ι) : Flusher → Prop
  | .idle => True
  | .listed d => Past U s d
  | .stamped found => Past U s found
  | .reading found => Past U s found ∧ (stampText records found).isSome
  | .creating found source rows => RowsOf records U s found source rows
  | .building found source rows left =>
    RowsOf records U s found source rows ∧ ∃ written, s.temporary = some written ∧ written ++ left = rows
  | .unstamping found source rows => RowsOf records U s found source rows ∧ s.temporary = some rows
  | .replacing found source rows =>
    RowsOf records U s found source rows ∧ s.temporary = some rows ∧ s.stamp = none
  | .creatingStamp found =>
    Past U s found ∧ (∃ c, s.cache = some c ∧ Grown found c.source) ∧ (stampText records found).isSome
  | .stamping found left =>
    ∃ stamp text, s.stamp = some stamp ∧ stamp.source = found ∧ stampText records found = some text ∧
      stamp.text ++ left = text

/-- Whatever is read later, the read ends in the rows of a directory there was
since it began. -/
def ReaderOk (s : State ι) : Reader → Prop
  | .begun since => Past U s since
  | .found since d | .reading since d => Grown since d ∧ Past U s d
  | .opening since d => Grown since d ∧ Past U s d ∧ Under s d
  | .returned since rows => ∃ d, Grown since d ∧ Grown d s.dir ∧ fold rows = fold (fileRows records d)

/-- A stamp is the beginning of a text, and vouches for the cache. -/
structure StampOk (s : State ι) (stamp : Stamp) : Prop where
  text : ∃ full, stampText records stamp.source = some full ∧ stamp.text <+: full
  past : Past U s stamp.source
  under : Under s stamp.source

structure Inv (s : State ι) : Prop where
  dir : Listed U s.dir
  stamp : ∀ stamp, s.stamp = some stamp → StampOk records U s stamp
  cache : ∀ c, s.cache = some c → fold c.rows = fold (fileRows records c.source) ∧ Past U s c.source
  flusher : FlusherOk records U s s.flusher
  readers : ∀ i r, s.readers i = some r → ReaderOk records U s r

variable {records U} {s s' : State ι}

theorem Past.now (h : Listed U s.dir) : Past U s s.dir := ⟨Grown.refl _, h⟩

/-- What a step leaves a reader to rely on. -/
structure Kept (U : Set (List String)) (s s' : State ι) : Prop where
  grown : Grown s.dir s'.dir
  under : ∀ d, Past U s d → Under s d → Under s' d

theorem Past.kept {d : Dir} (h : Past U s d) (hk : Kept U s s') : Past U s' d :=
  ⟨h.grown.trans hk.grown, h.listed⟩

theorem RowsOf.kept {found source : Dir} {rows : List RollupRow} (h : RowsOf records U s found source rows)
    (hk : Kept U s s') : RowsOf records U s' found source rows :=
  ⟨h.before.kept hk, h.after.kept hk, h.later, h.rows, h.stamped⟩

theorem ReaderOk.kept {r : Reader} (h : ReaderOk records U s r) (hk : Kept U s s') :
    ReaderOk records U s' r := by
  cases r with
  | begun since => exact Past.kept h hk
  | found since d => exact ⟨h.1, h.2.kept hk⟩
  | reading since d => exact ⟨h.1, h.2.kept hk⟩
  | opening since d => exact ⟨h.1, h.2.1.kept hk, hk.under d h.2.1 h.2.2⟩
  | returned since rows =>
    obtain ⟨d, hsince, hnow, hrows⟩ := h
    exact ⟨d, hsince, hnow.trans hk.grown, hrows⟩

theorem StampOk.kept {stamp : Stamp} (h : StampOk records U s stamp) (hk : Kept U s s') :
    StampOk records U s' stamp := ⟨h.text, h.past.kept hk, hk.under _ h.past h.under⟩

/-- Of two directories of one day, one came before the other. -/
theorem Past.comparable {a b : Dir} (ha : Past U s a) (hb : Past U s b) : Grown a b ∨ Grown b a := by
  have hnow := ha.grown
  have hnow' := hb.grown
  cases a with
  | none => exact Or.inl trivial
  | some files =>
    cases b with
    | none => exact Or.inr trivial
    | some files' =>
      cases hdir : s.dir with
      | none =>
        rw [hdir] at hnow
        exact hnow.elim
      | some now =>
        rw [hdir] at hnow hnow'
        exact List.prefix_or_prefix_of_prefix hnow hnow'

/-- A stamp that matches is whole, and of the directory asked for. -/
theorem StampOk.source_eq (hU : Set.InjOn fingerprintText U) {stamp : Stamp}
    (h : StampOk records U s stamp) {d : Dir} (hd : Past U s d) {want : List Char}
    (hwant : stampText records d = some want) (hmatch : trim stamp.text = want) : stamp.source = d := by
  obtain ⟨full, hfull, hpre⟩ := h.text
  have htrim : trim stamp.text = stamp.text :=
    trim_eq fun c hc => stampText_no_blank records hfull c (hpre.subset hc)
  rw [htrim] at hmatch
  have heq : want = full := stampText_prefix records hwant hfull (hmatch ▸ hpre)
  exact stampText_injective records hU h.past.listed hd.listed (h.past.comparable hd) hfull (heq ▸ hwant)

/-! ## The flusher's steps -/

/-- A step of the flusher, when the pass it is in is still held to no less. -/
theorem Under.mono {d : Dir} (h : Under s d) (hcache : ∀ c, s.cache = some c → ∃ c', s'.cache = some c' ∧
      Grown c.source c'.source)
    (hheld : ∀ f, s'.flusher.held = some f → s.flusher.held = some f ∨ Grown d f) : Under s' d := by
  obtain ⟨c, hc, hgrown⟩ := h.cached
  obtain ⟨c', hc', hgrown'⟩ := hcache c hc
  refine ⟨⟨c', hc', hgrown.trans hgrown'⟩, fun f hf => ?_⟩
  rcases hheld f hf with hsame | hnew
  · exact h.coming f hsame
  · exact hnew

/-- A step that leaves the files alone. -/
theorem kept_of_files (hdir : s'.dir = s.dir) (hcache : s'.cache = s.cache)
    (hheld : ∀ d f, Past U s d → s'.flusher.held = some f → s.flusher.held = some f ∨ Grown d f) :
    Kept U s s' := by
  refine ⟨hdir ▸ Grown.refl _, fun d hd h => ?_⟩
  refine h.mono (fun c hc => ⟨c, hcache ▸ hc, Grown.refl _⟩) fun f hf => hheld d f hd hf

/-- The invariant over a step that leaves directory, stamp and cache alone. -/
theorem Inv.of_flusher (h : Inv records U s) (hk : Kept U s s') (hdir : s'.dir = s.dir)
    (hstamp : s'.stamp = s.stamp) (hcache : s'.cache = s.cache) (hreaders : s'.readers = s.readers)
    (hflusher : FlusherOk records U s' s'.flusher) : Inv records U s' := by
  refine ⟨hdir ▸ h.dir, fun stamp hs => ?_, fun c hc => ?_, hflusher, fun i r hr => ?_⟩
  · exact (h.stamp stamp (hstamp ▸ hs)).kept hk
  · obtain ⟨hrows, hpast⟩ := h.cache c (hcache ▸ hc)
    exact ⟨hrows, hpast.kept hk⟩
  · exact (h.readers i r (hreaders ▸ hr)).kept hk

theorem inv_flush (h : Inv records U s) (amount : Nat) : Inv records U (flush records s amount) := by
  have hok := h.flusher
  unfold flush
  cases hf : s.flusher with
  | idle =>
    have hk : Kept U s { s with flusher := .listed s.dir } :=
      kept_of_files rfl rfl fun d f hd hheld => Or.inr (Option.some.inj hheld ▸ hd.grown)
    exact h.of_flusher hk rfl rfl rfl rfl (Past.now h.dir)
  | listed days =>
    rw [hf] at hok
    cases days with
    | some files =>
      have hk : Kept U s { s with flusher := .stamped s.dir } :=
        kept_of_files rfl rfl fun d f hd hheld => Or.inr (Option.some.inj hheld ▸ hd.grown)
      exact h.of_flusher hk rfl rfl rfl rfl (Past.now h.dir)
    | none =>
      cases records with
      | none =>
        have hk : Kept U s { s with flusher := .idle } := kept_of_files rfl rfl fun d f _ hheld => by cases hheld
        exact h.of_flusher hk rfl rfl rfl rfl trivial
      | some kept =>
        have hk : Kept U s { s with flusher := .stamped none } :=
          kept_of_files rfl rfl fun d f _ hheld => Or.inl (by rw [hf]; exact hheld)
        exact h.of_flusher hk rfl rfl rfl rfl (Past.kept hok hk)
  | stamped found =>
    rw [hf] at hok
    dsimp only
    have hidle : Kept U s { s with flusher := .idle } := kept_of_files rfl rfl fun d f _ hheld => by cases hheld
    cases hwant : stampText records found with
    | none => exact h.of_flusher hidle rfl rfl rfl rfl trivial
    | some want =>
      dsimp only
      split
      · exact h.of_flusher hidle rfl rfl rfl rfl trivial
      · have hk : Kept U s { s with flusher := .reading found } :=
          kept_of_files rfl rfl fun d f _ hheld => Or.inl (by rw [hf]; exact hheld)
        exact h.of_flusher hk rfl rfl rfl rfl ⟨Past.kept hok hk, by rw [hwant]; rfl⟩
  | reading found =>
    rw [hf] at hok
    obtain ⟨hpast, hstamped⟩ := hok
    cases found with
    | some files =>
      have hk : Kept U s { s with flusher := .creating (some files) s.dir (fold (fileRows records s.dir)) } :=
        kept_of_files rfl rfl fun d f _ hheld => Or.inl (by rw [hf]; exact hheld)
      refine h.of_flusher hk rfl rfl rfl rfl ⟨hpast.kept hk, Past.now h.dir, hpast.grown, ?_, hstamped⟩
      exact fold_fold _
    | none =>
      have hk : Kept U s { s with flusher := .creating none none (fold (fileRows records none)) } :=
        kept_of_files rfl rfl fun d f _ hheld => Or.inl (by rw [hf]; exact hheld)
      refine h.of_flusher hk rfl rfl rfl rfl ⟨hpast.kept hk, hpast.kept hk, trivial, ?_, hstamped⟩
      exact fold_fold _
  | creating found source rows =>
    rw [hf] at hok
    have hk : Kept U s { s with temporary := some [], flusher := .building found source rows rows } :=
      kept_of_files rfl rfl fun d f _ hheld => Or.inl (by rw [hf]; exact hheld)
    exact h.of_flusher hk rfl rfl rfl rfl ⟨RowsOf.kept hok hk, [], rfl, rfl⟩
  | building found source rows left =>
    rw [hf] at hok
    obtain ⟨hrows, written, htemporary, hsplit⟩ := hok
    cases left with
    | nil =>
      have hk : Kept U s { s with flusher := .unstamping found source rows } :=
        kept_of_files rfl rfl fun d f _ hheld => Or.inl (by rw [hf]; exact hheld)
      rw [List.append_nil] at hsplit
      exact h.of_flusher hk rfl rfl rfl rfl ⟨hrows.kept hk, hsplit ▸ htemporary⟩
    | cons row left =>
      have hk : Kept U s { s with
          temporary := s.temporary.map (· ++ (row :: left).take amount)
          flusher := .building found source rows ((row :: left).drop amount) } :=
        kept_of_files rfl rfl fun d f _ hheld => Or.inl (by rw [hf]; exact hheld)
      refine h.of_flusher hk rfl rfl rfl rfl ⟨hrows.kept hk, written ++ (row :: left).take amount, ?_, ?_⟩
      · show s.temporary.map _ = _
        rw [htemporary]
        rfl
      · rw [List.append_assoc, List.take_append_drop]
        exact hsplit
  | unstamping found source rows =>
    rw [hf] at hok
    have hk : Kept U s { s with stamp := none, flusher := .replacing found source rows } :=
      kept_of_files rfl rfl fun d f _ hheld => Or.inl (by rw [hf]; exact hheld)
    refine ⟨h.dir, fun stamp hs => (by cases hs), fun c hc => ?_, ⟨hok.1.kept hk, hok.2, rfl⟩,
      fun i r hr => (h.readers i r hr).kept hk⟩
    exact ⟨(h.cache c hc).1, (h.cache c hc).2.kept hk⟩
  | replacing found source rows =>
    rw [hf] at hok
    obtain ⟨hrows, htemporary, hstamp⟩ := hok
    -- Whoever is held to less than `found` now finds a cache of more.
    have hk : Kept U s { s with
        cache := s.temporary.map fun rows => ⟨rows, source⟩
        temporary := none
        flusher := .creatingStamp found } := by
      refine ⟨Grown.refl _, fun d _ hunder => ?_⟩
      have hfound : Grown d found := hunder.coming found (by rw [hf]; rfl)
      refine ⟨⟨⟨rows, source⟩, ?_, hfound.trans hrows.later⟩, fun f hheld => ?_⟩
      · show s.temporary.map _ = _
        rw [htemporary]
        rfl
      · exact Option.some.inj hheld ▸ hfound
    refine ⟨h.dir, fun stamp hs => ?_, fun c hc => ?_, ⟨hrows.before.kept hk, ?_, hrows.stamped⟩,
      fun i r hr => (h.readers i r hr).kept hk⟩
    · change s.stamp = some stamp at hs
      rw [hstamp] at hs
      cases hs
    · change s.temporary.map _ = some c at hc
      rw [htemporary] at hc
      obtain rfl := Option.some.inj hc
      exact ⟨hrows.rows, hrows.after.kept hk⟩
    · refine ⟨⟨rows, source⟩, ?_, hrows.later⟩
      show s.temporary.map _ = _
      rw [htemporary]
      rfl
  | creatingStamp found =>
    rw [hf] at hok
    obtain ⟨hpast, hcached, hstamped⟩ := hok
    obtain ⟨text, htext⟩ := Option.isSome_iff_exists.mp hstamped
    have hk : Kept U s { s with
        stamp := some ⟨[], found⟩
        flusher := .stamping found ((stampText records found).getD []) } :=
      kept_of_files rfl rfl fun d f _ hheld => Or.inl (by rw [hf]; exact hheld)
    refine ⟨h.dir, fun stamp hs => ?_, fun c hc => ⟨(h.cache c hc).1, (h.cache c hc).2.kept hk⟩,
      ⟨⟨[], found⟩, text, rfl, rfl, htext, by rw [htext]; rfl⟩, fun i r hr => (h.readers i r hr).kept hk⟩
    obtain rfl := Option.some.inj hs
    refine ⟨⟨text, htext, List.nil_prefix⟩, hpast.kept hk, hcached, fun f hheld => ?_⟩
    exact Option.some.inj hheld ▸ Grown.refl found
  | stamping found left =>
    rw [hf] at hok
    obtain ⟨stamp, text, hstamp, hsource, htext, hsplit⟩ := hok
    cases left with
    | nil =>
      have hk : Kept U s { s with flusher := .idle } := kept_of_files rfl rfl fun d f _ hheld => by cases hheld
      exact h.of_flusher hk rfl rfl rfl rfl trivial
    | cons c left =>
      have hk : Kept U s { s with
          stamp := s.stamp.map fun stamp => { stamp with text := stamp.text ++ (c :: left).take amount }
          flusher := .stamping found ((c :: left).drop amount) } :=
        kept_of_files rfl rfl fun d f _ hheld => Or.inl (by rw [hf]; exact hheld)
      have hwritten : stamp.text ++ (c :: left).take amount ++ (c :: left).drop amount = text := by
        rw [List.append_assoc, List.take_append_drop]
        exact hsplit
      have hnew : s.stamp.map (fun stamp => { stamp with text := stamp.text ++ (c :: left).take amount }) =
          some { stamp with text := stamp.text ++ (c :: left).take amount } := by
        rw [hstamp]
        rfl
      refine ⟨h.dir, fun stamp' hs => ?_, fun c hc => ⟨(h.cache c hc).1, (h.cache c hc).2.kept hk⟩,
        ⟨_, text, hnew, hsource, htext, hwritten⟩, fun i r hr => (h.readers i r hr).kept hk⟩
      obtain rfl := Option.some.inj (hnew.symm.trans hs)
      have hold := h.stamp stamp hstamp
      exact ⟨⟨text, hsource ▸ htext, ⟨_, hwritten⟩⟩, hold.past.kept hk, hk.under _ hold.past hold.under⟩

/-! ## The readers' steps -/

theorem readerOk_read (hU : Set.InjOn fingerprintText U) (h : Inv records U s) {r : Reader}
    (hr : ReaderOk records U s r) : ReaderOk records U s (read records s r) := by
  cases r with
  | begun since => exact ⟨hr.grown, Past.now h.dir⟩
  | found since d =>
    obtain ⟨hsince, hpast⟩ := hr
    unfold read
    dsimp only
    cases hwant : stampText records d with
    | none => exact ⟨hsince, hpast⟩
    | some want =>
      dsimp only
      split
      · next hcurrent =>
        obtain ⟨stamp, hstamp, hmatch⟩ := (Option.any_eq_true _ _).mp hcurrent
        have hstampOk := h.stamp stamp hstamp
        have hsource := hstampOk.source_eq hU hpast hwant (of_decide_eq_true hmatch)
        exact ⟨hsince, hpast, hsource ▸ hstampOk.under⟩
      · exact ⟨hsince, hpast⟩
  | opening since d =>
    obtain ⟨hsince, hpast, hunder⟩ := hr
    obtain ⟨c, hc, hgrown⟩ := hunder.cached
    obtain ⟨hrows, hsource⟩ := h.cache c hc
    unfold read
    dsimp only
    rw [hc]
    exact ⟨c.source, hsince.trans hgrown, hsource.grown, hrows⟩
  | reading since d =>
    obtain ⟨hsince, hpast⟩ := hr
    cases d with
    | some files => exact ⟨s.dir, hsince.trans hpast.grown, Grown.refl _, rfl⟩
    | none =>
      refine ⟨none, hsince, trivial, ?_⟩
      cases records with
      | none => rfl
      | some kept => exact fold_fold _
  | returned since rows => exact hr

/-! ## Runs -/

variable [DecidableEq ι]

theorem next_dir {l : Label ι} (h : next records s l = some s') :
    s'.dir = s.dir ∨ (s.dir = none ∧ s'.dir = some []) ∨
      ∃ files file, s.dir = some files ∧ s'.dir = some (files ++ [file]) := by
  cases l with
  | createDir =>
    simp only [next] at h
    split at h
    · next hnone =>
      obtain rfl := Option.some.inj h
      exact Or.inr (Or.inl ⟨hnone, rfl⟩)
    · cases h
  | append file =>
    simp only [next] at h
    cases hdir : s.dir with
    | none =>
      rw [hdir] at h
      cases h
    | some files =>
      rw [hdir] at h
      dsimp only at h
      split at h
      · cases h
      · obtain rfl := Option.some.inj h
        exact Or.inr (Or.inr ⟨files, file, rfl, rfl⟩)
  | flush amount =>
    obtain rfl := Option.some.inj h
    refine Or.inl ?_
    unfold flush
    split <;> (try split) <;> (try split) <;> rfl
  | crash =>
    obtain rfl := Option.some.inj h
    exact Or.inl rfl
  | begins i =>
    simp only [next] at h
    split at h
    · obtain rfl := Option.some.inj h
      exact Or.inl rfl
    · cases h
  | reads i =>
    simp only [next] at h
    split at h
    · cases h
    · obtain rfl := Option.some.inj h
      exact Or.inl rfl
  | finishes i =>
    obtain rfl := Option.some.inj h
    exact Or.inl rfl

theorem grown_next {l : Label ι} (h : next records s l = some s') : Grown s.dir s'.dir := by
  rcases next_dir h with hsame | ⟨hnone, _⟩ | ⟨files, file, hfiles, hnew⟩
  · rw [hsame]
    exact Grown.refl _
  · rw [hnone]
    trivial
  · rw [hfiles, hnew]
    exact List.prefix_append files [file]

/-- A step that only changes the directory, or the flusher's position to idle,
or the readers. -/
theorem Inv.of_readers (h : Inv records U s) (hgrown : Grown s.dir s'.dir) (hdir : Listed U s'.dir)
    (hstamp : s'.stamp = s.stamp) (hcache : s'.cache = s.cache) (htemporary : s'.temporary = s.temporary)
    (hflusher : s'.flusher = s.flusher ∨ s'.flusher = .idle)
    (hreaders : ∀ i r, s'.readers i = some r → s.readers i = some r ∨ ReaderOk records U s' r) :
    Inv records U s' := by
  have hk : Kept U s s' := by
    refine ⟨hgrown, fun d _ hunder => hunder.mono (fun c hc => ⟨c, hcache ▸ hc, Grown.refl _⟩) ?_⟩
    intro f hf
    rcases hflusher with hsame | hidle
    · exact Or.inl (hsame ▸ hf)
    · rw [hidle] at hf
      cases hf
  refine ⟨hdir, fun stamp hs => (h.stamp stamp (hstamp ▸ hs)).kept hk, fun c hc => ?_, ?_, fun i r hr => ?_⟩
  · obtain ⟨hrows, hpast⟩ := h.cache c (hcache ▸ hc)
    exact ⟨hrows, hpast.kept hk⟩
  · rcases hflusher with hsame | hidle
    · rw [hsame]
      have hok := h.flusher
      cases hf : s.flusher with
      | idle => trivial
      | listed d => rw [hf] at hok; exact Past.kept hok hk
      | stamped d => rw [hf] at hok; exact Past.kept hok hk
      | reading d => rw [hf] at hok; exact ⟨hok.1.kept hk, hok.2⟩
      | creating d e rows => rw [hf] at hok; exact RowsOf.kept hok hk
      | building d e rows left => rw [hf] at hok; exact ⟨hok.1.kept hk, htemporary ▸ hok.2⟩
      | unstamping d e rows => rw [hf] at hok; exact ⟨hok.1.kept hk, htemporary ▸ hok.2⟩
      | replacing d e rows => rw [hf] at hok; exact ⟨hok.1.kept hk, htemporary ▸ hok.2.1, hstamp ▸ hok.2.2⟩
      | creatingStamp d => rw [hf] at hok; exact ⟨hok.1.kept hk, hcache ▸ hok.2.1, hok.2.2⟩
      | stamping d left =>
        rw [hf] at hok
        obtain ⟨stamp, text, hs, hrest⟩ := hok
        exact ⟨stamp, text, hstamp ▸ hs, hrest⟩
    · rw [hidle]
      trivial
  · rcases hreaders i r hr with hold | hnew
    · exact (h.readers i r hold).kept hk
    · exact hnew

theorem inv_next (hU : Set.InjOn fingerprintText U) (h : Inv records U s) {l : Label ι}
    (hok : Within records U s l) (hnext : next records s l = some s') : Inv records U s' := by
  have hlisted := hok s' hnext
  have hgrown := grown_next hnext
  cases l with
  | createDir =>
    simp only [next] at hnext
    split at hnext
    · obtain rfl := Option.some.inj hnext
      exact h.of_readers hgrown hlisted rfl rfl rfl (Or.inl rfl) fun _ _ hr => Or.inl hr
    · cases hnext
  | append file =>
    simp only [next] at hnext
    split at hnext
    · cases hnext
    · split at hnext
      · cases hnext
      · obtain rfl := Option.some.inj hnext
        exact h.of_readers hgrown hlisted rfl rfl rfl (Or.inl rfl) fun _ _ hr => Or.inl hr
  | flush amount =>
    obtain rfl := Option.some.inj hnext
    exact inv_flush h amount
  | crash =>
    obtain rfl := Option.some.inj hnext
    exact h.of_readers hgrown hlisted rfl rfl rfl (Or.inr rfl) fun _ _ hr => Or.inl hr
  | begins i =>
    simp only [next] at hnext
    split at hnext
    · obtain rfl := Option.some.inj hnext
      refine h.of_readers hgrown hlisted rfl rfl rfl (Or.inl rfl) fun j r hr => ?_
      dsimp only at hr
      by_cases hij : j = i
      · subst hij
        rw [Function.update_self] at hr
        obtain rfl := Option.some.inj hr
        exact Or.inr (Past.now h.dir)
      · rw [Function.update_of_ne hij] at hr
        exact Or.inl hr
    · cases hnext
  | reads i =>
    simp only [next] at hnext
    split at hnext
    · cases hnext
    · next r hread =>
      obtain rfl := Option.some.inj hnext
      refine h.of_readers hgrown hlisted rfl rfl rfl (Or.inl rfl) fun j r' hr => ?_
      dsimp only at hr
      by_cases hij : j = i
      · subst hij
        rw [Function.update_self] at hr
        obtain rfl := Option.some.inj hr
        have hnew := readerOk_read hU h (h.readers j r hread)
        refine Or.inr (hnew.kept ⟨Grown.refl _, fun d _ hunder => ⟨hunder.cached, hunder.coming⟩⟩)
      · rw [Function.update_of_ne hij] at hr
        exact Or.inl hr
  | finishes i =>
    obtain rfl := Option.some.inj hnext
    refine h.of_readers hgrown hlisted rfl rfl rfl (Or.inl rfl) fun j r hr => ?_
    dsimp only at hr
    by_cases hij : j = i
    · subst hij
      rw [Function.update_self] at hr
      cases hr
    · rw [Function.update_of_ne hij] at hr
      exact Or.inl hr

/-- A directory between two of a run was there in between: `Grown` names no
directory that never was. -/
theorem grown_was_there {ok : State ι → Label ι → Prop} {d : Dir}
    (h : Reach ((system records U).after s) ok s') (hfrom : Grown s.dir d) (hto : Grown d s'.dir) :
    ∃ t, Reach ((system records U).after s) ok t ∧ Reach ((system records U).after t) ok s' ∧ t.dir = d := by
  induction h with
  | @start t heq =>
    have ht : t = s := heq
    subst ht
    refine ⟨t, .start rfl, .start rfl, ?_⟩
    cases hdir : t.dir with
    | none =>
      rw [hdir] at hto
      cases d with
      | none => rfl
      | some files => exact hto.elim
    | some files =>
      rw [hdir] at hfrom hto
      cases d with
      | none => exact hfrom.elim
      | some files' => rw [List.IsPrefix.eq_of_length_le (hfrom : files <+: files') (List.IsPrefix.length_le hto)]
  | step hreach hok hstep ih =>
    next mid last a =>
    have hlast : Reach ((system records U).after s) ok last := .step hreach hok hstep
    by_cases hmid : Grown d mid.dir
    · obtain ⟨t, ht, hrest, hdir⟩ := ih hmid
      exact ⟨t, ht, .step hrest hok hstep, hdir⟩
    · -- The last step added what `d` has and the directory before it had not.
      refine ⟨last, hlast, .start rfl, ?_⟩
      rcases next_dir hstep with hsame | ⟨_, hnew⟩ | ⟨files, file, hfiles, hnew⟩
      · exact absurd (hsame ▸ hto) hmid
      · rw [hnew] at hto ⊢
        cases d with
        | none => exact absurd trivial hmid
        | some files' => rw [List.prefix_nil.mp hto]
      · rw [hnew] at hto ⊢
        rw [hfiles] at hmid
        cases d with
        | none => exact absurd trivial hmid
        | some files' =>
          rcases List.prefix_concat_iff.mp hto with heq | hpre
          · rw [heq]
          · exact absurd hpre hmid

/-- No file is added. -/
def Quiet : Label ι → Prop
  | .createDir | .append _ => False
  | _ => True

end

/-! ## A read beside a flusher that dies -/

/-- One file of no rows. -/
def oneFile : List (Batch RollupRow) := [⟨"n", 0, []⟩]

end RapidRouter.Usage.DayCache
