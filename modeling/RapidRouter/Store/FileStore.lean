import RapidRouter.Lib.Interleave
import RapidRouter.Store.Backend

/-!
# The file backend

`router-store/src/backend/file.rs`: the document in one JSON file, replaced by
a rename over it. `commit` reads the version in the file, writes the new
document to a temporary file beside it and renames that over the original,
under a lock that only this process takes. Every file-system operation is a
step of its own here and may fail; processes share the files and nothing
else.

The module's documentation says this is safe for more than one process. Two
processes that both read the version before either renames both report
success (`both_commit`), and the first one's document is gone. What the file
does promise is `atomic_swap`: as long as a rename finds the version its
commit read and the temporary file it wrote, `commit` is a compare-and-swap.
-/

namespace RapidRouter.Store

open Interleave Lts

/-- `Document::encode` and `Document::decode`, which fail with a fault's text:
what is encoded decodes. -/
structure Codec (β : Type) where
  encode : Nat → StoreState → Except String β
  decode : β → Except String (StoreState × Nat)
  decode_encode : ∀ {version state bytes}, encode version state = .ok bytes →
    decode bytes = .ok (state, version)

namespace FileStore

variable {β P : Type}

/-- The two files all processes share. -/
structure Files (β : Type) where
  store : Option β
  tmp : Option β

/-- One commit that replaced the file: the document it had read, and the one
it reports. -/
structure Success (β : Type) where
  read : StoreState × Nat
  base : Nat
  snapshot : Snapshot
  bytes : β

structure Shared (β P : Type) where
  files : Files β
  /-- Each process's `write` lock. -/
  locked : P → Bool
  /-- A ghost: the commits that replaced the file, the latest first. -/
  commits : List (Success β)

structure Commit (P : Type) where
  process : P
  base : Snapshot
  next : StoreState

inductive Call (P : Type) where
  | load
  | commit (c : Commit P)

abbrev Ret := Except ControlPlaneError Snapshot

/-- Which operation comes next. -/
inductive Pc (β P : Type) where
  | load
  | lock (c : Commit P)
  | read (c : Commit P)
  | createDir (c : Commit P) (document : StoreState × Nat) (bytes : β)
  | writeTmp (c : Commit P) (document : StoreState × Nat) (bytes : β)
  | restrict (c : Commit P) (document : StoreState × Nat) (bytes : β)
  | rename (c : Commit P) (document : StoreState × Nat) (bytes : β)
  | unlock (c : Commit P) (result : Ret)

def start : Call P → Pc β P
  | .load => .load
  | .commit c => .lock c

variable (codec : Codec β)

def readDocument (files : Files β) : Except ControlPlaneError (StoreState × Nat) :=
  match files.store with
  | none => .ok (StoreState.default, 0)
  | some bytes =>
    match codec.decode bytes with
    | .ok document => .ok document
    | .error err => .error (.fault err)

/-- With the document read: the version check and the encoding. -/
def checkVersion (c : Commit P) (document : StoreState × Nat) : Pc β P :=
  if document.2 ≠ c.base.version then
    .unlock c (.error (.conflict c.base.version document.2))
  else
    match codec.encode (document.2 + 1) c.next with
    | .ok bytes => .createDir c document bytes
    | .error err => .unlock c (.error (.fault err))

variable [DecidableEq P]

/-- One operation. `refused` is the error the file system returns, if it
does. -/
def step (s : Shared β P) (p : Pc β P) (refused : Option String) :
    Option (Shared β P × Outcome (Pc β P) Ret) :=
  match p with
  | .load =>
    match refused with
    | some err => some (s, .returns (.error (.unavailableIn "reading the store file" err)))
    | none =>
      match readDocument codec s.files with
      | .ok document => some (s, .returns (.ok ⟨document.1, document.2⟩))
      | .error err => some (s, .returns (.error err))
  | .lock c =>
    if s.locked c.process then none
    else some ({ s with locked := Function.update s.locked c.process true }, .goes (.read c))
  | .read c =>
    match refused with
    | some err =>
      some (s, .goes (.unlock c (.error (.unavailableIn "reading the store file" err))))
    | none =>
      match readDocument codec s.files with
      | .ok document => some (s, .goes (checkVersion codec c document))
      | .error err => some (s, .goes (.unlock c (.error err)))
  | .createDir c document bytes =>
    match refused with
    | some err =>
      some (s, .goes (.unlock c (.error (.unavailableIn "creating the store directory" err))))
    | none => some (s, .goes (.writeTmp c document bytes))
  | .writeTmp c document bytes =>
    match refused with
    | some err =>
      some (s, .goes (.unlock c (.error (.unavailableIn "writing the store file" err))))
    | none =>
      some ({ s with files := { s.files with tmp := some bytes } }, .goes (.restrict c document bytes))
  -- Its failure is ignored.
  | .restrict c document bytes => some (s, .goes (.rename c document bytes))
  | .rename c document bytes =>
    match refused, s.files.tmp with
    | some err, _ =>
      some (s, .goes (.unlock c (.error (.unavailableIn "replacing the store file" err))))
    | none, none =>
      some (s, .goes (.unlock c (.error (.unavailableIn "replacing the store file"
        "No such file or directory (os error 2)"))))
    | none, some tmp =>
      let snapshot : Snapshot := ⟨c.next, document.2 + 1⟩
      some ({ s with
          files := ⟨some tmp, none⟩
          commits := ⟨document, c.base.version, snapshot, bytes⟩ :: s.commits },
        .goes (.unlock c (.ok snapshot)))
  | .unlock c result =>
    some ({ s with locked := Function.update s.locked c.process false }, .returns result)

def machine : Machine (Shared β P) (Pc β P) (Call P) (Option String) Ret := ⟨start, step codec⟩

/-- The processes start on any files, with no lock taken. -/
def Starts (store : Option β) (s : Shared β P) : Prop :=
  s.files.store = store ∧ s.locked = (fun _ => false) ∧ s.commits = []

/-! ## A compare-and-swap -/

def versionIn (files : Files β) : Option Nat :=
  match readDocument codec files with
  | .ok document => some document.2
  | .error _ => none

/-- A rename finds the version its commit read, and the temporary file it
wrote. -/
def Finds (s : Shared β P) : Pc β P → Prop
  | .rename _ document bytes =>
    versionIn codec s.files = some document.2 ∧ s.files.tmp = some bytes
  | _ => True

/-- No other process comes between what a commit reads and its rename. -/
def Uncontended {ι : Type} (s : State ι (Shared β P) (Pc β P)) :
    Label ι (Call P) (Option String) → Prop
  | .step i none => ∀ p ∈ s.pc i, Finds codec s.shared p
  | _ => True

/-- Each commit replaced the document the one before it wrote. -/
def Chained (first : Except ControlPlaneError (StoreState × Nat)) : List (Success β) → Prop
  | [] => True
  | [e] => first = .ok e.read
  | e :: d :: rest =>
    e.read = (d.snapshot.state, d.snapshot.version) ∧ Chained first (d :: rest)

/-- What the file holds: the document of the last commit, whole, or the one
it held at first. -/
def Holds (store : Option β) (files : Files β) : List (Success β) → Prop
  | [] => files.store = store
  | e :: _ => files.store = some e.bytes ∧
      codec.decode e.bytes = .ok (e.snapshot.state, e.snapshot.version)

structure FileInv (store : Option β) (s : Shared β P) : Prop where
  holds : Holds codec store s.files s.commits
  chained : Chained (readDocument codec ⟨store, none⟩) s.commits
  bases : ∀ document, readDocument codec s.files = .ok document →
    ∀ e ∈ s.commits, e.base < document.2
  once : (s.commits.map Success.base).Nodup
  versions : ∀ e ∈ s.commits, e.read.2 = e.base ∧ e.snapshot.version = e.base + 1

/-- What a commit on its way knows of the file. -/
structure Read (s : Shared β P) (c : Commit P) (document : StoreState × Nat) (bytes : β) : Prop where
  base : document.2 = c.base.version
  encoded : codec.encode (document.2 + 1) c.next = .ok bytes
  current : ∃ d, readDocument codec s.files = .ok d ∧ document.2 ≤ d.2 ∧
    (document.2 = d.2 → d = document)

def PcOk (s : Shared β P) : Pc β P → Prop
  | .createDir c document bytes | .writeTmp c document bytes | .restrict c document bytes
  | .rename c document bytes => Read codec s c document bytes
  | .unlock c (.ok snapshot) => ∃ e ∈ s.commits, e.base = c.base.version ∧ e.snapshot = snapshot
  | _ => True

variable {codec}

omit [DecidableEq P] in
/-- A commit on its way may be taken for any other step's business while the
file only moves on. -/
theorem Read.mono {s s' : Shared β P} {c : Commit P} {document : StoreState × Nat} {bytes : β}
    (h : Read codec s c document bytes)
    (hmoves : ∀ d, readDocument codec s.files = .ok d →
      readDocument codec s'.files = .ok d ∨ ∃ d', readDocument codec s'.files = .ok d' ∧ d.2 < d'.2) :
    Read codec s' c document bytes := by
  obtain ⟨hbase, hencoded, d, hd, hle, heq⟩ := h
  refine ⟨hbase, hencoded, ?_⟩
  rcases hmoves d hd with hsame | ⟨d', hd', hlt⟩
  · exact ⟨d, hsame, hle, heq⟩
  · exact ⟨d', hd', by omega, fun h => absurd h (by omega)⟩

omit [DecidableEq P] in
theorem PcOk.mono {s s' : Shared β P} {p : Pc β P} (h : PcOk codec s p)
    (hmoves : ∀ d, readDocument codec s.files = .ok d →
      readDocument codec s'.files = .ok d ∨ ∃ d', readDocument codec s'.files = .ok d' ∧ d.2 < d'.2)
    (hcommits : ∀ e ∈ s.commits, e ∈ s'.commits) : PcOk codec s' p := by
  cases p with
  | load | lock c | read c => trivial
  | createDir c document bytes | writeTmp c document bytes | restrict c document bytes
  | rename c document bytes => exact Read.mono h hmoves
  | unlock c result =>
    cases result with
    | error err => trivial
    | ok snapshot =>
      obtain ⟨e, he, hbase, hsnapshot⟩ := h
      exact ⟨e, hcommits e he, hbase, hsnapshot⟩

/-- A rename that succeeds replaces the file; no other step changes it, or
what has been committed. -/
theorem step_cases {s s' : Shared β P} {p : Pc β P} {refused : Option String}
    {out : Outcome (Pc β P) Ret} (h : step codec s p refused = some (s', out)) :
    (s'.files.store = s.files.store ∧ s'.commits = s.commits ∧
      (∀ q, out = .goes q → PcOk codec s p → PcOk codec s' q)) ∨
    ∃ c document bytes tmp, p = .rename c document bytes ∧ refused = none ∧
      s.files.tmp = some tmp ∧ s'.files = ⟨some tmp, none⟩ ∧
      s'.commits = ⟨document, c.base.version, ⟨c.next, document.2 + 1⟩, bytes⟩ :: s.commits ∧
      out = .goes (.unlock c (.ok ⟨c.next, document.2 + 1⟩)) := by
  have hrefused : ∀ (c : Commit P) err q, (Outcome.goes (.unlock c (.error err)) :
      Outcome (Pc β P) Ret) = .goes q → PcOk codec s q := by
    intro c err q hq
    cases hq
    trivial
  cases p with
  | load =>
    refine Or.inl ?_
    unfold step at h
    dsimp only at h
    split at h
    · cases h
      exact ⟨rfl, rfl, fun q hq => by cases hq⟩
    · split at h <;> cases h
      · exact ⟨rfl, rfl, fun q hq => by cases hq⟩
      · exact ⟨rfl, rfl, fun q hq => by cases hq⟩
  | lock c =>
    refine Or.inl ?_
    unfold step at h
    dsimp only at h
    split at h <;> cases h
    refine ⟨rfl, rfl, fun q hq _ => ?_⟩
    cases hq
    trivial
  | read c =>
    refine Or.inl ?_
    unfold step at h
    dsimp only at h
    split at h
    · cases h
      exact ⟨rfl, rfl, fun q hq _ => hrefused c _ q hq⟩
    · split at h
      · next document hread =>
        cases h
        refine ⟨rfl, rfl, fun q hq _ => ?_⟩
        cases hq
        unfold checkVersion
        split
        · trivial
        · next hversion =>
          split
          · next bytes hencode =>
            exact ⟨not_not.mp hversion, hencode, document, hread, le_rfl, fun _ => rfl⟩
          · trivial
      · cases h
        exact ⟨rfl, rfl, fun q hq _ => hrefused c _ q hq⟩
  | createDir c document bytes =>
    refine Or.inl ?_
    unfold step at h
    dsimp only at h
    split at h <;> cases h
    · exact ⟨rfl, rfl, fun q hq _ => hrefused c _ q hq⟩
    · refine ⟨rfl, rfl, fun q hq hp => ?_⟩
      cases hq
      exact hp
  | writeTmp c document bytes =>
    refine Or.inl ?_
    unfold step at h
    dsimp only at h
    split at h <;> cases h
    · exact ⟨rfl, rfl, fun q hq _ => hrefused c _ q hq⟩
    · refine ⟨rfl, rfl, fun q hq hp => ?_⟩
      cases hq
      exact Read.mono hp fun d hd => Or.inl hd
  | restrict c document bytes =>
    refine Or.inl ?_
    cases h
    refine ⟨rfl, rfl, fun q hq hp => ?_⟩
    cases hq
    exact hp
  | rename c document bytes =>
    unfold step at h
    dsimp only at h
    split at h
    · cases h
      exact Or.inl ⟨rfl, rfl, fun q hq _ => hrefused c _ q hq⟩
    · cases h
      exact Or.inl ⟨rfl, rfl, fun q hq _ => hrefused c _ q hq⟩
    · next tmp htmp =>
      cases h
      exact Or.inr ⟨c, document, bytes, tmp, rfl, rfl, htmp, rfl, rfl, rfl⟩
  | unlock c result =>
    cases h
    exact Or.inl ⟨rfl, rfl, fun q hq => by cases hq⟩

omit [DecidableEq P] in
/-- The step that replaces the file keeps the invariant when it finds the
version it read and the file it wrote. -/
theorem fileInv_rename {store : Option β} {s : Shared β P} {c : Commit P}
    {document : StoreState × Nat} {bytes : β} {s' : Shared β P} (h : FileInv codec store s)
    (hread : Read codec s c document bytes)
    (hcurrent : versionIn codec s.files = some document.2)
    (hfiles : s'.files = ⟨some bytes, none⟩)
    (hcommits : s'.commits =
      ⟨document, c.base.version, ⟨c.next, document.2 + 1⟩, bytes⟩ :: s.commits) :
    FileInv codec store s' ∧ readDocument codec s'.files = .ok (c.next, document.2 + 1) ∧
      readDocument codec s.files = .ok document := by
  have hdecode : codec.decode bytes = .ok (c.next, document.2 + 1) := codec.decode_encode hread.encoded
  have hdocument : readDocument codec s.files = .ok document := by
    obtain ⟨d, hd, hle, heq⟩ := hread.current
    unfold versionIn at hcurrent
    rw [hd] at hcurrent
    have hversion : d.2 = document.2 := Option.some.inj hcurrent
    rw [hd, heq hversion.symm]
  have hafter : readDocument codec s'.files = .ok (c.next, document.2 + 1) := by
    rw [hfiles]
    unfold readDocument
    dsimp only
    rw [hdecode]
  refine ⟨⟨?_, ?_, ?_, ?_, ?_⟩, hafter, hdocument⟩
  · rw [hcommits, hfiles]
    exact ⟨rfl, hdecode⟩
  · have hholds := h.holds
    have hchained := h.chained
    rw [hcommits]
    cases hlist : s.commits with
    | nil =>
      rw [hlist] at hholds
      have hstore : s.files.store = store := hholds
      have hfirst : readDocument codec ⟨store, none⟩ = readDocument codec s.files := by
        rw [← hstore]
        rfl
      exact hfirst.trans hdocument
    | cons d rest =>
      rw [hlist] at hholds hchained
      obtain ⟨hstore, hd⟩ := hholds
      refine ⟨?_, hchained⟩
      unfold readDocument at hdocument
      rw [hstore] at hdocument
      dsimp only at hdocument
      rw [hd] at hdocument
      cases hdocument
      rfl
  · intro d hd e he
    rw [hafter, Except.ok.injEq] at hd
    subst hd
    rw [hcommits] at he
    rcases List.mem_cons.mp he with rfl | he
    · show c.base.version < document.2 + 1
      rw [hread.base]
      exact Nat.lt_succ_self _
    · have := h.bases document hdocument e he
      show e.base < document.2 + 1
      omega
  · rw [hcommits, List.map_cons, List.nodup_cons]
    refine ⟨?_, h.once⟩
    intro hmem
    obtain ⟨e, he, hbase⟩ := List.mem_map.mp hmem
    have hlt := h.bases document hdocument e he
    have hsame : e.base = c.base.version := hbase
    rw [hsame, ← hread.base] at hlt
    exact absurd hlt (lt_irrefl _)
  · intro e he
    rw [hcommits] at he
    rcases List.mem_cons.mp he with rfl | he
    · exact ⟨hread.base, by rw [← hread.base]⟩
    · exact h.versions e he

/-- While renames are uncontended, `commit` is an atomic compare-and-swap on
the version in the file. -/
theorem atomic_swap {ι : Type} [DecidableEq ι] {store : Option β}
    {s : State ι (Shared β P) (Pc β P)}
    (h : Reach ((machine codec).system (Starts store)) (Uncontended codec) s) :
    (s.shared.commits.map Success.base).Nodup ∧
      Holds codec store s.shared.files s.shared.commits ∧
      Chained (readDocument codec ⟨store, none⟩) s.shared.commits ∧
      (∀ e ∈ s.shared.commits, e.read.2 = e.base ∧ e.snapshot.version = e.base + 1) ∧
      ∀ i c snapshot, s.pc i = some (.unlock c (.ok snapshot)) →
        ∃ e ∈ s.shared.commits, e.base = c.base.version ∧ e.snapshot = snapshot := by
  have hinv : Machine.Inv (FileInv codec store) (PcOk codec) s := by
    refine h.invariant (I := Machine.Inv (FileInv codec store) (PcOk codec)) ?_ ?_
    · rintro s ⟨shared, ⟨hstore, _, hnone⟩, rfl⟩
      refine ⟨⟨?_, ?_, ?_, ?_, ?_⟩, fun i p hp => by cases hp⟩
      · show Holds codec store shared.files shared.commits
        rw [hnone]
        exact hstore
      · show Chained _ shared.commits
        rw [hnone]
        trivial
      · intro document _ e he
        change e ∈ shared.commits at he
        rw [hnone] at he
        cases he
      · show (shared.commits.map Success.base).Nodup
        rw [hnone]
        exact List.nodup_nil
      · intro e he
        change e ∈ shared.commits at he
        rw [hnone] at he
        cases he
    · intro s a s' hs hok hnext
      refine Machine.inv_step hs ?_ ?_ hnext
      · intro i call _ _
        cases call <;> trivial
      · intro i refused p shared out ha hp hfile hpc hstep
        rcases step_cases hstep with ⟨hstore, hcommits, hout⟩ |
          ⟨c, document, bytes, tmp, rfl, rfl, htmp, hfiles, hcommits, rfl⟩
        · have hsame : readDocument codec shared.files = readDocument codec s.shared.files := by
            unfold readDocument
            rw [hstore]
          refine ⟨⟨?_, ?_, ?_, ?_, ?_⟩, fun q hq => hout q hq hpc, fun _ q _ _ hq => ?_⟩
          · have hholds := hfile.holds
            rw [hcommits]
            unfold Holds at hholds ⊢
            rw [hstore]
            exact hholds
          · rw [hcommits]
            exact hfile.chained
          · rw [hcommits, hsame]
            exact hfile.bases
          · rw [hcommits]
            exact hfile.once
          · rw [hcommits]
            exact hfile.versions
          · refine PcOk.mono hq (fun d hd => Or.inl (hsame.trans hd)) fun e he => ?_
            rw [hcommits]
            exact he
        · subst ha
          obtain ⟨hcurrent, hown⟩ := hok _ hp
          rw [htmp, Option.some.injEq] at hown
          subst hown
          obtain ⟨hinv', hafter, hbefore⟩ := fileInv_rename hfile hpc hcurrent hfiles hcommits
          refine ⟨hinv', ?_, fun _ q _ _ hq => ?_⟩
          · intro q hq
            cases hq
            refine ⟨⟨document, c.base.version, ⟨c.next, document.2 + 1⟩, tmp⟩, ?_, rfl, rfl⟩
            rw [hcommits]
            exact List.mem_cons_self
          · refine PcOk.mono hq (fun d hd => Or.inr ⟨_, hafter, ?_⟩) fun e he => ?_
            · rw [hbefore, Except.ok.injEq] at hd
              rw [← hd]
              exact Nat.lt_succ_self _
            · rw [hcommits]
              exact List.mem_cons_of_mem _ he
  exact ⟨hinv.shared.once, hinv.shared.holds, hinv.shared.chained, hinv.shared.versions,
    fun i c snapshot hp => hinv.thread i _ hp⟩

instance [DecidableEq β] (s : Shared β P) (p : Pc β P) : Decidable (Finds codec s p) :=
  match p with
  | .rename _ document bytes =>
    inferInstanceAs (Decidable (versionIn codec s.files = some document.2 ∧
      s.files.tmp = some bytes))
  | .load | .lock _ | .read _ | .createDir _ _ _ | .writeTmp _ _ _ | .restrict _ _ _
  | .unlock _ _ => isTrue trivial

instance [DecidableEq β] {ι : Type} (s : State ι (Shared β P) (Pc β P))
    (a : Label ι (Call P) (Option String)) : Decidable (Uncontended codec s a) :=
  match a with
  | .step i none => inferInstanceAs (Decidable (∀ p ∈ s.pc i, Finds codec s.shared p))
  | .step _ (some _) | .invoke _ _ => isTrue trivial

/-- A document that is kept as it is. -/
def plainCodec : Codec (Nat × StoreState) where
  encode version state := .ok (version, state)
  decode bytes := .ok (bytes.2, bytes.1)
  decode_encode := by
    intro version state bytes h
    cases h
    rfl

/-- No file yet. -/
def emptyShared : Shared (Nat × StoreState) Bool := ⟨⟨none, none⟩, fun _ => false, []⟩

def emptyBase : Snapshot := ⟨StoreState.default, 0⟩

/-- Process `b` writes its own configuration over an empty store. -/
def configCommit (b : Bool) (base : Snapshot) : Commit Bool :=
  ⟨b, base, { StoreState.default with configText := some (if b then "b" else "a") }⟩

/-- The second process reads after the first has renamed, and the first's
next commit is told of the conflict. -/
def oneByOne : List (Label Bool (Call Bool) (Option String)) :=
  [.invoke false (.commit (configCommit false emptyBase)), .step false none, .step false none,
    .step false none, .step false none, .step false none, .step false none, .step false none,
    .invoke true (.commit (configCommit true ⟨(configCommit false emptyBase).next, 1⟩)),
    .step true none, .step true none, .step true none,
    .invoke false (.commit (configCommit false emptyBase)), .step false none, .step false none,
    .step true none, .step true none, .step true none]

theorem atomic_swap_one_by_one :
    ∃ s : State Bool (Shared (Nat × StoreState) Bool) (Pc (Nat × StoreState) Bool),
      s.shared.commits.map Success.base = [1, 0] ∧
        Holds plainCodec none s.shared.files s.shared.commits := by
  have hstart : ((machine plainCodec).system (Starts none)).init (Machine.initial emptyShared :
      State Bool (Shared (Nat × StoreState) Bool) (Pc (Nat × StoreState) Bool)) :=
    ⟨_, ⟨rfl, rfl, rfl⟩, rfl⟩
  have hreach := Reach.of_trace (Uncontended plainCodec) (machine plainCodec).next hstart oneByOne
    (by decide) (by decide)
  exact ⟨_, by decide, (atomic_swap hreach).2.1⟩

/-- Both processes read before either renames. -/
def racing : List (Label Bool (Call Bool) (Option String)) :=
  [.invoke false (.commit (configCommit false emptyBase)), .step false none, .step false none,
    .invoke true (.commit (configCommit true emptyBase)), .step true none, .step true none,
    .step false none, .step false none, .step false none, .step false none,
    .step true none, .step true none, .step true none, .step true none]

/-- **Two processes both commit version 1.** Both have read version 0 when
the first renames, and the second renames over it. -/
theorem both_commit :
    ¬ ∀ s : State Bool (Shared (Nat × StoreState) Bool) (Pc (Nat × StoreState) Bool),
      Reach ((machine plainCodec).system (Starts none)) free s →
        (s.shared.commits.map Success.base).Nodup := by
  intro h
  have hstart : ((machine plainCodec).system (Starts none)).init (Machine.initial emptyShared :
      State Bool (Shared (Nat × StoreState) Bool) (Pc (Nat × StoreState) Bool)) :=
    ⟨_, ⟨rfl, rfl, rfl⟩, rfl⟩
  have hreach := Reach.of_trace free (machine plainCodec).next hstart racing (by decide)
    (by decide)
  exact absurd (h _ hreach) (by decide)

end FileStore

end RapidRouter.Store
