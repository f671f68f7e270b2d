import RapidRouter.Lib.Lts
import RapidRouter.Usage.Rollup

/-!
# Shipping partitions while they are written

The flusher of `router-server/src/usage.rs` writes the files of a batch
(`write_batch`, `write_rollups`, `write_bodies`), each under its final name from
the moment it is created, and `ship_partitions` uploads every file it finds
without a marker and then leaves one. Both take their steps in any order, an
upload can be lost or stay unanswered, a file can fail half way, and the process
can start again anywhere, under a new node id.

A marked file is one that no pass will look at again, so its objects have to be
what the file holds in the end (`Shipped`). They are as long as no file is read
while its writer has bytes of it left (`ReadsWhole`): names are not used twice,
and a file nobody has bytes left for stays as it is (`final_step`).

Directories are listed as the files are visited: a file is there from its
creation on, and a listing can miss any of those that came later.
-/

namespace RapidRouter.Usage.Ship

open Civil Tally Lts
open Rollup (UsageRecord RollupRow rollUp)

/-! ## Files -/

inductive Kind where
  | usage
  | rollup
  | bodies
  deriving DecidableEq

/-- `{kind}/{day}/{node}-{seq:08}.jsonl.zst`; node ids are numbered by boot. -/
structure Path where
  kind : Kind
  day : Nat
  node : Nat
  seq : Nat
  deriving DecidableEq

structure RequestBodies where
  requestId : String
  ts : Nat
  request : Option String
  response : Option String

abbrev Bytes := List UInt8

/-- What a file holds when all of its lines went through the encoder. -/
structure Codec where
  usage : List UsageRecord → Bytes
  rollup : List RollupRow → Bytes
  bodies : List RequestBodies → Bytes

/-- A file to be written. -/
structure Job where
  path : Path
  bytes : Bytes

variable (codec : Codec)

/-- The files of one kind, one for each day. -/
def jobsOfKind {α : Type} (kind : Kind) (encode : List α → Bytes) (node seq : Nat) (day : α → Nat)
    (items : List α) : List Job :=
  (group day items).entries.map fun e => ⟨⟨kind, e.1, node, seq⟩, encode e.2⟩

/-- `write_batch`, `write_rollups` and `write_bodies`, in this order. -/
def jobsOf (node seq : Nat) (batch : List UsageRecord) (bodies : List RequestBodies) : List Job :=
  jobsOfKind .usage codec.usage node seq (fun r => dayOf r.ts) batch ++
    jobsOfKind .rollup codec.rollup node seq (fun row => dayOf row.1.hourMs) (rollUp batch) ++
    jobsOfKind .bodies codec.bodies node seq (fun body => dayOf body.ts) bodies

/-! ## The parties -/

inductive Flusher where
  | waiting
  | flushing (todo : List Job)
  | writing (path : Path) (left : Bytes) (todo : List Job)

/-- A pass of `ship_partitions`, at one file. -/
inductive Shipper where
  | idle
  | reading (path : Path) (node : Nat)
  | uploading (path : Path) (node : Nat) (body : Bytes)
  | marking (path : Path)

/-- How an upload can end: the store may have the object and not say so. -/
inductive Put where
  | stored
  | refused
  | unanswered

structure State (ι : Type) where
  /-- The node id of this boot. -/
  node : Nat
  seq : Nat
  flusher : Flusher
  files : Path → Option Bytes
  marked : Path → Bool
  /-- `{kind}/{day}/node={node}/{name}` -/
  objects : Path → Nat → Option Bytes
  shippers : ι → Shipper

inductive Label (ι : Type) where
  | flush (batch : List UsageRecord) (bodies : List RequestBodies)
  | proceed
  | write (amount : Nat)
  | finish
  | fail
  | restart
  | visit (i : ι) (path : Path)
  | read (i : ι)
  | put (i : ι) (outcome : Put)
  | mark (i : ι) (written : Bool)
  | stop (i : ι)

variable {ι : Type} [DecidableEq ι]

def State.setFile (s : State ι) (path : Path) (bytes : Bytes) : State ι :=
  { s with files := Function.update s.files path (some bytes) }

def State.setShipper (s : State ι) (i : ι) (shipper : Shipper) : State ι :=
  { s with shippers := Function.update s.shippers i shipper }

def State.setObject (s : State ι) (path : Path) (node : Nat) (body : Bytes) : State ι :=
  { s with objects := Function.update s.objects path (Function.update (s.objects path) node (some body)) }

/-- The next file of the batch is created, or the batch is done. -/
def proceed (s : State ι) : Option (State ι) :=
  match s.flusher with
  | .flushing [] => some { s with flusher := .waiting, seq := s.seq + 1 }
  | .flushing (job :: todo) =>
    some ({ s with flusher := .writing job.path job.bytes todo }.setFile job.path [])
  | _ => none

/-- The encoder hands some bytes to the file. -/
def write (s : State ι) (amount : Nat) : Option (State ι) :=
  match s.flusher with
  | .writing path left todo =>
    some ({ s with flusher := .writing path (left.drop amount) todo }.setFile path
      ((s.files path).getD [] ++ left.take amount))
  | _ => none

/-- `encoder.finish()?.sync_all()?` -/
def finish (s : State ι) : Option (State ι) :=
  match s.flusher with
  | .writing _ [] todo => some { s with flusher := .flushing todo }
  | _ => none

/-- An error ends the writing of this kind: its other files are dropped. -/
def fail (s : State ι) : Option (State ι) :=
  match s.flusher with
  | .flushing (job :: todo) =>
    some { s with flusher := .flushing (todo.filter fun other => other.path.kind ≠ job.path.kind) }
  | .writing path _ todo =>
    some { s with flusher := .flushing (todo.filter fun other => other.path.kind ≠ path.kind) }
  | _ => none

def next (s : State ι) : Label ι → Option (State ι)
  | .flush batch bodies =>
    match s.flusher with
    | .waiting => some { s with flusher := .flushing (jobsOf codec s.node s.seq batch bodies) }
    | _ => none
  | .proceed => proceed s
  | .write amount => write s amount
  | .finish => finish s
  | .fail => fail s
  -- A node id is minted at every boot, and the sequence starts over.
  | .restart => some { s with node := s.node + 1, seq := 0, flusher := .waiting }
  | .visit i path =>
    match s.shippers i, s.files path with
    | .idle, some _ => if s.marked path then some s else some (s.setShipper i (.reading path s.node))
    | _, _ => none
  | .read i =>
    match s.shippers i with
    | .reading path node =>
      match s.files path with
      | some body => some (s.setShipper i (.uploading path node body))
      | none => some (s.setShipper i .idle)
    | _ => none
  | .put i outcome =>
    match s.shippers i with
    | .uploading path node body =>
      match outcome with
      | .stored => some ((s.setObject path node body).setShipper i (.marking path))
      | .unanswered => some ((s.setObject path node body).setShipper i .idle)
      | .refused => some (s.setShipper i .idle)
    | _ => none
  | .mark i written =>
    match s.shippers i with
    | .marking path =>
      some ({ s with marked := Function.update s.marked path (s.marked path || written) }.setShipper i
        .idle)
    | _ => none
  | .stop i => some (s.setShipper i .idle)

/-- An empty data directory and an empty store. -/
def Starts (s : State ι) : Prop :=
  s.flusher = .waiting ∧ (∀ path, s.files path = none) ∧ (∀ path, s.marked path = false) ∧
    (∀ path node, s.objects path node = none) ∧ ∀ i, s.shippers i = .idle

def system : System (State ι) (Label ι) := ofNext Starts (next codec)

/-- The objects of every marked file hold what the file holds from then on. -/
def Shipped (s : State ι) : Prop :=
  ∀ path, s.marked path = true → ∃ bytes, s.files path = some bytes ∧
    (∀ s', Reach ((system codec).after s) free s' → s'.files path = some bytes) ∧
    (∃ node, s.objects path node = some bytes) ∧
    ∀ node body, s.objects path node = some body → body = bytes

/-- No file is read while its writer has bytes of it left. -/
def ReadsWhole (s : State ι) : Label ι → Prop
  | .read i =>
    match s.shippers i, s.flusher with
    | .reading path _, .writing current left _ => current = path → left = []
    | _, _ => True
  | _ => True

instance (s : State ι) (l : Label ι) : Decidable (ReadsWhole s l) := by
  unfold ReadsWhole
  split
  · split <;> infer_instance
  · infer_instance

/-! ## Names are used once -/

def Flusher.todo : Flusher → List Job
  | .waiting => []
  | .flushing todo => todo
  | .writing _ _ todo => todo

/-- A file there is from an earlier batch, or from the one at hand and not still to come. -/
structure Fresh (s : State ι) : Prop where
  jobs : ∀ job ∈ s.flusher.todo, job.path.node = s.node ∧ job.path.seq = s.seq
  nodup : (s.flusher.todo.map Job.path).Nodup
  open_ : ∀ path left todo, s.flusher = .writing path left todo → (s.files path).isSome = true
  files : ∀ path, (s.files path).isSome = true → path.node < s.node ∨ path.node = s.node ∧
    (path.seq < s.seq ∨ path.seq = s.seq ∧ s.flusher ≠ .waiting ∧ path ∉ s.flusher.todo.map Job.path)

theorem paths_jobsOfKind {α : Type} (kind : Kind) (encode : List α → Bytes) (node seq : Nat)
    (day : α → Nat) (items : List α) :
    (jobsOfKind kind encode node seq day items).map Job.path =
      ((group day items).entries.map Prod.fst).map fun d => ⟨kind, d, node, seq⟩ := by
  unfold jobsOfKind
  rw [List.map_map, List.map_map]
  rfl

theorem nodup_jobsOfKind {α : Type} (kind : Kind) (encode : List α → Bytes) (node seq : Nat)
    (day : α → Nat) (items : List α) : ((jobsOfKind kind encode node seq day items).map Job.path).Nodup := by
  rw [paths_jobsOfKind]
  refine List.Nodup.map ?_ (OrdMap.nodup_keys _)
  intro a b hab
  exact congrArg Path.day hab

theorem mem_jobsOfKind {α : Type} {kind : Kind} {encode : List α → Bytes} {node seq : Nat}
    {day : α → Nat} {items : List α} {path : Path}
    (h : path ∈ (jobsOfKind kind encode node seq day items).map Job.path) :
    path.kind = kind ∧ path.node = node ∧ path.seq = seq := by
  rw [paths_jobsOfKind] at h
  obtain ⟨d, -, rfl⟩ := List.mem_map.mp h
  exact ⟨rfl, rfl, rfl⟩

theorem nodup_jobsOf (node seq : Nat) (batch : List UsageRecord) (bodies : List RequestBodies) :
    ((jobsOf codec node seq batch bodies).map Job.path).Nodup := by
  unfold jobsOf
  rw [List.map_append, List.map_append]
  refine List.Nodup.append (List.Nodup.append (nodup_jobsOfKind ..) (nodup_jobsOfKind ..) ?_)
    (nodup_jobsOfKind ..) ?_
  · intro path hu hr
    exact absurd ((mem_jobsOfKind hu).1.symm.trans (mem_jobsOfKind hr).1) (by decide)
  · intro path hur hb
    rcases List.mem_append.mp hur with hu | hr
    · exact absurd ((mem_jobsOfKind hu).1.symm.trans (mem_jobsOfKind hb).1) (by decide)
    · exact absurd ((mem_jobsOfKind hr).1.symm.trans (mem_jobsOfKind hb).1) (by decide)

theorem mem_jobsOf {node seq : Nat} {batch : List UsageRecord} {bodies : List RequestBodies} {job : Job}
    (h : job ∈ jobsOf codec node seq batch bodies) : job.path.node = node ∧ job.path.seq = seq := by
  have hpath := List.mem_map_of_mem (f := Job.path) h
  unfold jobsOf at hpath
  rw [List.map_append, List.map_append] at hpath
  rcases List.mem_append.mp hpath with hur | hb
  · rcases List.mem_append.mp hur with hu | hr
    · exact (mem_jobsOfKind hu).2
    · exact (mem_jobsOfKind hr).2
  · exact (mem_jobsOfKind hb).2

/-- The shippers' steps leave the flusher and the files as they are. -/
theorem next_shipper {s s' : State ι} {l : Label ι} (h : next codec s l = some s')
    (hl : (∃ i path, l = .visit i path) ∨ (∃ i, l = .read i) ∨ (∃ i outcome, l = .put i outcome) ∨
      (∃ i written, l = .mark i written) ∨ ∃ i, l = .stop i) :
    s'.node = s.node ∧ s'.seq = s.seq ∧ s'.flusher = s.flusher ∧ s'.files = s.files := by
  rcases hl with ⟨i, path, rfl⟩ | ⟨i, rfl⟩ | ⟨i, outcome, rfl⟩ | ⟨i, written, rfl⟩ | ⟨i, rfl⟩ <;>
    simp only [next] at h
  · split at h
    · split at h
      · obtain rfl := Option.some.inj h
        exact ⟨rfl, rfl, rfl, rfl⟩
      · obtain rfl := Option.some.inj h
        exact ⟨rfl, rfl, rfl, rfl⟩
    · cases h
  · split at h
    · split at h <;> obtain rfl := Option.some.inj h <;> exact ⟨rfl, rfl, rfl, rfl⟩
    · cases h
  · split at h
    · split at h <;> obtain rfl := Option.some.inj h <;> exact ⟨rfl, rfl, rfl, rfl⟩
    · cases h
  · split at h
    · obtain rfl := Option.some.inj h
      exact ⟨rfl, rfl, rfl, rfl⟩
    · cases h
  · obtain rfl := Option.some.inj h
    exact ⟨rfl, rfl, rfl, rfl⟩

/-- What the flusher can do to itself and the files in one step. -/
inductive Flush (s : State ι) : State ι → Prop where
  | start (batch : List UsageRecord) (bodies : List RequestBodies) (hwaiting : s.flusher = .waiting) :
      Flush s { s with flusher := .flushing (jobsOf codec s.node s.seq batch bodies) }
  | done (h : s.flusher = .flushing []) : Flush s { s with flusher := .waiting, seq := s.seq + 1 }
  | create (job : Job) (todo : List Job) (h : s.flusher = .flushing (job :: todo)) :
      Flush s ({ s with flusher := .writing job.path job.bytes todo }.setFile job.path [])
  | write (path : Path) (left : Bytes) (todo : List Job) (amount : Nat)
      (h : s.flusher = .writing path left todo) :
      Flush s ({ s with flusher := .writing path (left.drop amount) todo }.setFile path
        ((s.files path).getD [] ++ left.take amount))
  | close (todo : List Job) (hsub : todo.Sublist s.flusher.todo) (h : s.flusher ≠ .waiting) :
      Flush s { s with flusher := .flushing todo }
  | restart : Flush s { s with node := s.node + 1, seq := 0, flusher := .waiting }

/-- A step is the flusher's, or it is a shipper's and no file is touched. -/
theorem next_cases {s s' : State ι} {l : Label ι} (h : next codec s l = some s') :
    Flush codec s s' ∨
      (s'.node = s.node ∧ s'.seq = s.seq ∧ s'.flusher = s.flusher ∧ s'.files = s.files) := by
  cases l with
  | flush batch bodies =>
    simp only [next] at h
    split at h
    · next hwaiting =>
      obtain rfl := Option.some.inj h
      exact .inl (.start batch bodies hwaiting)
    · cases h
  | proceed =>
    simp only [next, proceed] at h
    split at h
    · next hflusher =>
      obtain rfl := Option.some.inj h
      exact .inl (.done hflusher)
    · next job todo hflusher =>
      obtain rfl := Option.some.inj h
      exact .inl (.create job todo hflusher)
    · cases h
  | write amount =>
    simp only [next, write] at h
    split at h
    · next path left todo hflusher =>
      obtain rfl := Option.some.inj h
      exact .inl (.write path left todo amount hflusher)
    · cases h
  | finish =>
    simp only [next, finish] at h
    split at h
    · next path todo hflusher =>
      obtain rfl := Option.some.inj h
      refine .inl (.close todo ?_ ?_)
      · rw [hflusher]
        exact List.Sublist.refl _
      · rw [hflusher]
        simp
    · cases h
  | fail =>
    simp only [next, fail] at h
    split at h
    · next job todo hflusher =>
      obtain rfl := Option.some.inj h
      refine .inl (.close _ ?_ ?_)
      · rw [hflusher]
        exact List.filter_sublist.trans (List.sublist_cons_self _ _)
      · rw [hflusher]
        simp
    · next path left todo hflusher =>
      obtain rfl := Option.some.inj h
      refine .inl (.close _ ?_ ?_)
      · rw [hflusher]
        exact List.filter_sublist
      · rw [hflusher]
        simp
    · cases h
  | restart =>
    obtain rfl := Option.some.inj h
    exact .inl .restart
  | visit i path => exact .inr (next_shipper codec h (.inl ⟨i, path, rfl⟩))
  | read i => exact .inr (next_shipper codec h (.inr (.inl ⟨i, rfl⟩)))
  | put i outcome => exact .inr (next_shipper codec h (.inr (.inr (.inl ⟨i, outcome, rfl⟩))))
  | mark i written => exact .inr (next_shipper codec h (.inr (.inr (.inr (.inl ⟨i, written, rfl⟩)))))
  | stop i => exact .inr (next_shipper codec h (.inr (.inr (.inr (.inr ⟨i, rfl⟩)))))

omit [DecidableEq ι] in
theorem fresh_flush {s s' : State ι} (h : Fresh s) (hstep : Flush codec s s') : Fresh s' := by
  cases hstep with
  | start batch bodies hwaiting =>
    refine ⟨fun job hjob => mem_jobsOf codec hjob, nodup_jobsOf .., fun _ _ _ heq => (by cases heq), ?_⟩
    intro path hpath
    rcases h.files path hpath with hnode | ⟨hnode, hseq | ⟨_, hbusy, _⟩⟩
    · exact .inl hnode
    · exact .inr ⟨hnode, .inl hseq⟩
    · exact absurd hwaiting hbusy
  | done hflusher =>
    refine ⟨fun job hjob => absurd hjob List.not_mem_nil, List.nodup_nil, fun _ _ _ heq => (by cases heq), ?_⟩
    intro path hpath
    show path.node < s.node ∨ path.node = s.node ∧ (path.seq < s.seq + 1 ∨ _)
    rcases h.files path hpath with hnode | ⟨hnode, hseq | ⟨hseq, _⟩⟩
    · exact .inl hnode
    · exact .inr ⟨hnode, .inl (by omega)⟩
    · exact .inr ⟨hnode, .inl (by omega)⟩
  | create job todo hflusher =>
    have htodo : s.flusher.todo = job :: todo := by rw [hflusher]; rfl
    have hnodup := h.nodup
    rw [htodo, List.map_cons, List.nodup_cons] at hnodup
    refine ⟨fun other hother => h.jobs other (htodo ▸ List.mem_cons_of_mem _ hother), hnodup.2, ?_, ?_⟩
    · intro path left rest heq
      obtain ⟨rfl, -, -⟩ := Flusher.writing.inj heq
      show (Function.update s.files job.path (some []) job.path).isSome = true
      rw [Function.update_self]
      rfl
    · intro path hpath
      by_cases hnew : path = job.path
      · subst hnew
        obtain ⟨hnode, hseq⟩ := h.jobs job (htodo ▸ List.mem_cons_self)
        exact .inr ⟨hnode, .inr ⟨hseq, fun heq => (by cases heq), hnodup.1⟩⟩
      · have hold : (s.files path).isSome = true := by
          have hother : ({ s with flusher := .writing job.path job.bytes todo }.setFile job.path []).files path =
              s.files path := Function.update_of_ne hnew _ _
          rwa [hother] at hpath
        rcases h.files path hold with hnode | ⟨hnode, hseq | ⟨hseq, _, hnot⟩⟩
        · exact .inl hnode
        · exact .inr ⟨hnode, .inl hseq⟩
        · refine .inr ⟨hnode, .inr ⟨hseq, fun heq => (by cases heq), fun hmem => hnot ?_⟩⟩
          rw [htodo]
          exact List.mem_cons_of_mem _ hmem
  | write path left todo amount hflusher =>
    have htodo : s.flusher.todo = todo := by rw [hflusher]; rfl
    have hopen := h.open_ path left todo hflusher
    have hsame : ∀ other, ({ s with flusher := .writing path (left.drop amount) todo }.setFile path
        ((s.files path).getD [] ++ left.take amount)).files other =
        Function.update s.files path (some ((s.files path).getD [] ++ left.take amount)) other :=
      fun _ => rfl
    refine ⟨fun job hjob => h.jobs job (htodo ▸ hjob), htodo ▸ h.nodup, ?_, ?_⟩
    · intro current rest more heq
      obtain ⟨rfl, -, -⟩ := Flusher.writing.inj heq
      rw [hsame, Function.update_self]
      rfl
    · intro other hother
      have hold : (s.files other).isSome = true := by
        rw [hsame] at hother
        by_cases hpath : other = path
        · exact hpath ▸ hopen
        · rwa [Function.update_of_ne hpath] at hother
      rcases h.files other hold with hnode | ⟨hnode, hseq | ⟨hseq, _, hnot⟩⟩
      · exact .inl hnode
      · exact .inr ⟨hnode, .inl hseq⟩
      · exact .inr ⟨hnode, .inr ⟨hseq, fun heq => (by cases heq), htodo ▸ hnot⟩⟩
  | close todo hsub hbusy =>
    refine ⟨fun job hjob => h.jobs job (hsub.subset hjob), h.nodup.sublist (hsub.map _),
      fun _ _ _ heq => (by cases heq), ?_⟩
    intro path hpath
    rcases h.files path hpath with hnode | ⟨hnode, hseq | ⟨hseq, _, hnot⟩⟩
    · exact .inl hnode
    · exact .inr ⟨hnode, .inl hseq⟩
    · exact .inr ⟨hnode, .inr ⟨hseq, fun heq => (by cases heq), fun hmem => hnot ((hsub.map _).subset hmem)⟩⟩
  | restart =>
    refine ⟨fun job hjob => absurd hjob List.not_mem_nil, List.nodup_nil, fun _ _ _ heq => (by cases heq), ?_⟩
    intro path hpath
    show path.node < s.node + 1 ∨ _
    rcases h.files path hpath with hnode | ⟨hnode, _⟩
    · exact .inl (by omega)
    · exact .inl (by omega)

theorem fresh_step {s s' : State ι} {l : Label ι} (h : Fresh s) (hnext : next codec s l = some s') :
    Fresh s' := by
  rcases next_cases codec hnext with hflush | ⟨hnode, hseq, hflusher, hfiles⟩
  · exact fresh_flush codec h hflush
  · refine ⟨?_, ?_, ?_, ?_⟩
    · rw [hnode, hseq, hflusher]
      exact h.jobs
    · rw [hflusher]
      exact h.nodup
    · rw [hflusher, hfiles]
      exact h.open_
    · rw [hnode, hseq, hflusher, hfiles]
      exact h.files

omit [DecidableEq ι] in
theorem fresh_start {s : State ι} (h : Starts s) : Fresh s := by
  obtain ⟨hflusher, hfiles, -⟩ := h
  refine ⟨?_, ?_, ?_, ?_⟩
  · rw [hflusher]
    exact fun job hjob => absurd hjob List.not_mem_nil
  · rw [hflusher]
    exact List.nodup_nil
  · intro path left todo heq
    rw [hflusher] at heq
    cases heq
  · intro path hpath
    rw [hfiles] at hpath
    cases hpath

/-! ## Files that are done -/

/-- A file with some bytes, of which no writer has any left. -/
def Final (s : State ι) (path : Path) (bytes : Bytes) : Prop :=
  s.files path = some bytes ∧ ∀ left todo, s.flusher = .writing path left todo → left = []

/-- Such a file keeps its bytes. -/
theorem final_step {s s' : State ι} {l : Label ι} {path : Path} {bytes : Bytes} (hfresh : Fresh s)
    (h : Final s path bytes) (hnext : next codec s l = some s') : Final s' path bytes := by
  obtain ⟨hbytes, hleft⟩ := h
  rcases next_cases codec hnext with hflush | ⟨-, -, hflusher, hfiles⟩
  · cases hflush with
    | start batch bodies hwaiting => exact ⟨hbytes, fun _ _ heq => by cases heq⟩
    | done hflusher => exact ⟨hbytes, fun _ _ heq => by cases heq⟩
    | create job todo hflusher =>
      -- The name is still to come, so the file is another one.
      have hne : path ≠ job.path := by
        intro heq
        have htodo : s.flusher.todo = job :: todo := by rw [hflusher]; rfl
        obtain ⟨hnode, hseq⟩ := hfresh.jobs job (htodo ▸ List.mem_cons_self)
        rw [← heq] at hnode hseq
        rcases hfresh.files path (by rw [hbytes]; rfl) with hlt | ⟨-, hlt | ⟨-, -, hnot⟩⟩
        · omega
        · omega
        · rw [htodo, List.map_cons, ← heq] at hnot
          exact hnot List.mem_cons_self
      refine ⟨(Function.update_of_ne hne _ _).trans hbytes, ?_⟩
      intro left rest heq
      obtain ⟨hpath, -, -⟩ := Flusher.writing.inj heq
      exact absurd hpath.symm hne
    | write current left todo amount hflusher =>
      by_cases hcurrent : current = path
      · subst hcurrent
        obtain rfl := hleft left todo hflusher
        refine ⟨?_, ?_⟩
        · show Function.update s.files current _ current = some bytes
          rw [Function.update_self, hbytes, Option.getD_some, List.take_nil, List.append_nil]
        · intro rest more heq
          obtain ⟨-, hrest, -⟩ := Flusher.writing.inj heq
          rw [← hrest, List.drop_nil]
      · refine ⟨(Function.update_of_ne (Ne.symm hcurrent) _ _).trans hbytes, ?_⟩
        intro rest more heq
        obtain ⟨hpath, -, -⟩ := Flusher.writing.inj heq
        exact absurd hpath hcurrent
    | close todo hsub hbusy => exact ⟨hbytes, fun _ _ heq => by cases heq⟩
    | restart => exact ⟨hbytes, fun _ _ heq => by cases heq⟩
  · refine ⟨hfiles ▸ hbytes, ?_⟩
    rw [hflusher]
    exact hleft

/-- It keeps them in every run from there. -/
theorem final_of_reach {s s' : State ι} {path : Path} {bytes : Bytes} (hfresh : Fresh s)
    (h : Final s path bytes) (hreach : Reach ((system codec).after s) free s') :
    s'.files path = some bytes := by
  have hinv : Fresh s' ∧ Final s' path bytes := by
    refine Reach.invariant (I := fun t => Fresh t ∧ Final t path bytes) ?_ ?_ hreach
    · rintro t rfl
      exact ⟨hfresh, h⟩
    · intro t l t' ht _ hnext
      exact ⟨fresh_step codec ht.1 hnext, final_step codec ht.1 ht.2 hnext⟩
  exact hinv.2.1

/-! ## What is uploaded -/

/-- Every body on its way, and every object, is that of a file that is done. -/
structure Inv (s : State ι) : Prop where
  uploading : ∀ i path node body, s.shippers i = .uploading path node body → Final s path body
  marking : ∀ i path, s.shippers i = .marking path → ∃ node body, s.objects path node = some body
  objects : ∀ path node body, s.objects path node = some body → Final s path body
  marked : ∀ path, s.marked path = true → ∃ node body, s.objects path node = some body

omit [DecidableEq ι] in
theorem inv_start {s : State ι} (h : Starts s) : Inv s := by
  obtain ⟨_, _, hmarked, hobjects, hshippers⟩ := h
  refine ⟨?_, ?_, ?_, ?_⟩
  · intro i path node body heq
    rw [hshippers] at heq
    cases heq
  · intro i path heq
    rw [hshippers] at heq
    cases heq
  · intro path node body heq
    rw [hobjects] at heq
    cases heq
  · intro path heq
    rw [hmarked] at heq
    cases heq

theorem shippers_setShipper (s : State ι) (i j : ι) (shipper : Shipper) :
    (s.setShipper i shipper).shippers j = if j = i then shipper else s.shippers j := by
  show Function.update s.shippers i shipper j = _
  rw [Function.update_apply]

/-- A pass goes on to where it has what the invariant asks for. -/
theorem Inv.setShipper {s : State ι} (h : Inv s) (i : ι) {shipper : Shipper}
    (huploading : ∀ path node body, shipper = .uploading path node body → Final s path body)
    (hmarking : ∀ path, shipper = .marking path → ∃ node body, s.objects path node = some body) :
    Inv (s.setShipper i shipper) := by
  refine ⟨?_, ?_, h.objects, h.marked⟩
  · intro j path node body heq
    rw [shippers_setShipper] at heq
    split at heq
    · exact huploading path node body heq
    · exact h.uploading j path node body heq
  · intro j path heq
    rw [shippers_setShipper] at heq
    split at heq
    · exact hmarking path heq
    · exact h.marking j path heq

theorem Inv.idle {s : State ι} (h : Inv s) (i : ι) : Inv (s.setShipper i .idle) :=
  h.setShipper i (fun _ _ _ heq => by cases heq) (fun _ heq => by cases heq)

omit [DecidableEq ι] in
theorem objects_setObject (s : State ι) (path : Path) (node : Nat) (body : Bytes) (other : Path) (n : Nat) :
    (s.setObject path node body).objects other n =
      if other = path ∧ n = node then some body else s.objects other n := by
  unfold State.setObject
  dsimp only
  by_cases hpath : other = path
  · subst hpath
    rw [Function.update_self]
    by_cases hnode : n = node
    · rw [hnode, Function.update_self, if_pos ⟨rfl, rfl⟩]
    · rw [Function.update_of_ne hnode, if_neg fun h => hnode h.2]
  · rw [Function.update_of_ne hpath, if_neg fun h => hpath h.1]

omit [DecidableEq ι] in
theorem Inv.put {s : State ι} (h : Inv s) {path : Path} (node : Nat) {body : Bytes}
    (hfinal : Final s path body) : Inv (s.setObject path node body) := by
  -- An object is replaced by another one, and none goes away.
  have hstays : ∀ other, (∃ n b, s.objects other n = some b) →
      ∃ n b, (s.setObject path node body).objects other n = some b := by
    rintro other ⟨n, b, hb⟩
    by_cases hsame : other = path ∧ n = node
    · exact ⟨n, body, by rw [objects_setObject, if_pos hsame]⟩
    · exact ⟨n, b, by rw [objects_setObject, if_neg hsame]; exact hb⟩
  refine ⟨h.uploading, fun i other heq => hstays other (h.marking i other heq), ?_, fun other heq =>
    hstays other (h.marked other heq)⟩
  intro other n b hb
  rw [objects_setObject] at hb
  split at hb
  · next hsame =>
    obtain ⟨rfl, -⟩ := hsame
    obtain rfl := Option.some.inj hb
    exact hfinal
  · exact h.objects other n b hb

omit [DecidableEq ι] in
theorem Inv.mark {s : State ι} (h : Inv s) {path : Path} (written : Bool)
    (hobject : ∃ node body, s.objects path node = some body) :
    Inv { s with marked := Function.update s.marked path (s.marked path || written) } := by
  refine ⟨h.uploading, h.marking, h.objects, ?_⟩
  intro other heq
  by_cases hpath : other = path
  · exact hpath ▸ hobject
  · refine h.marked other ?_
    have hsame : Function.update s.marked path (s.marked path || written) other = s.marked other :=
      Function.update_of_ne hpath _ _
    rw [← hsame]
    exact heq

theorem inv_step {s s' : State ι} {l : Label ι} (hfresh : Fresh s) (h : Inv s) (hwhole : ReadsWhole s l)
    (hnext : next codec s l = some s') : Inv s' := by
  -- The flusher touches no object and no marker, and files that are done stay so.
  have hflusher : s'.shippers = s.shippers → s'.objects = s.objects → s'.marked = s.marked → Inv s' := by
    intro hshippers hobjects hmarked
    refine ⟨?_, ?_, ?_, ?_⟩
    · rw [hshippers]
      exact fun i path node body heq => final_step codec hfresh (h.uploading i path node body heq) hnext
    · rw [hshippers, hobjects]
      exact h.marking
    · rw [hobjects]
      exact fun path node body heq => final_step codec hfresh (h.objects path node body heq) hnext
    · rw [hobjects, hmarked]
      exact h.marked
  cases l with
  | flush batch bodies =>
    simp only [next] at hnext
    split at hnext
    · obtain rfl := Option.some.inj hnext
      exact hflusher rfl rfl rfl
    · cases hnext
  | proceed =>
    simp only [next, proceed] at hnext
    split at hnext
    · obtain rfl := Option.some.inj hnext
      exact hflusher rfl rfl rfl
    · obtain rfl := Option.some.inj hnext
      exact hflusher rfl rfl rfl
    · cases hnext
  | write amount =>
    simp only [next, write] at hnext
    split at hnext
    · obtain rfl := Option.some.inj hnext
      exact hflusher rfl rfl rfl
    · cases hnext
  | finish =>
    simp only [next, finish] at hnext
    split at hnext
    · obtain rfl := Option.some.inj hnext
      exact hflusher rfl rfl rfl
    · cases hnext
  | fail =>
    simp only [next, fail] at hnext
    split at hnext
    · obtain rfl := Option.some.inj hnext
      exact hflusher rfl rfl rfl
    · obtain rfl := Option.some.inj hnext
      exact hflusher rfl rfl rfl
    · cases hnext
  | restart =>
    obtain rfl := Option.some.inj hnext
    exact hflusher rfl rfl rfl
  | visit i path =>
    simp only [next] at hnext
    split at hnext
    · split at hnext
      · obtain rfl := Option.some.inj hnext
        exact h
      · obtain rfl := Option.some.inj hnext
        exact h.setShipper i (fun _ _ _ heq => by cases heq) (fun _ heq => by cases heq)
    · cases hnext
  | read i =>
    simp only [next] at hnext
    split at hnext
    · next path node hreading =>
      split at hnext
      · next body hbody =>
        obtain rfl := Option.some.inj hnext
        have hfinal : Final s path body := by
          refine ⟨hbody, fun left todo hwriting => ?_⟩
          simp only [ReadsWhole, hreading, hwriting, forall_const] at hwhole
          exact hwhole
        refine h.setShipper i (fun other node' body' heq => ?_) (fun _ heq => by cases heq)
        obtain ⟨rfl, -, rfl⟩ := Shipper.uploading.inj heq
        exact hfinal
      · obtain rfl := Option.some.inj hnext
        exact h.idle i
    · cases hnext
  | put i outcome =>
    simp only [next] at hnext
    split at hnext
    · next path node body huploading =>
      have hfinal := h.uploading i path node body huploading
      split at hnext
      · obtain rfl := Option.some.inj hnext
        refine (h.put node hfinal).setShipper i (fun _ _ _ heq => by cases heq) (fun other heq => ?_)
        obtain rfl := Shipper.marking.inj heq
        exact ⟨node, body, by rw [objects_setObject, if_pos ⟨rfl, rfl⟩]⟩
      · obtain rfl := Option.some.inj hnext
        exact (h.put node hfinal).idle i
      · obtain rfl := Option.some.inj hnext
        exact h.idle i
    · cases hnext
  | mark i written =>
    simp only [next] at hnext
    split at hnext
    · next path hmarking =>
      obtain rfl := Option.some.inj hnext
      exact (h.mark written (h.marking i path hmarking)).idle i
    · cases hnext
  | stop i =>
    obtain rfl := Option.some.inj hnext
    exact h.idle i

/-! ## The shipping law -/

/-- In every run that reads no file its writer still has bytes for, the objects
of a marked file are what it holds in the end. -/
theorem shipped_whole {s : State ι} (h : Reach (system codec) ReadsWhole s) : Shipped codec s := by
  have hinv : Fresh s ∧ Inv s := by
    refine Reach.invariant (I := fun t => Fresh t ∧ Inv t) ?_ ?_ h
    · exact fun t ht => ⟨fresh_start ht, inv_start ht⟩
    · exact fun t l t' ht hwhole hnext =>
        ⟨fresh_step codec ht.1 hnext, inv_step codec ht.1 ht.2 hwhole hnext⟩
  intro path hmarked
  obtain ⟨node, bytes, hobject⟩ := hinv.2.marked path hmarked
  have hfinal := hinv.2.objects path node bytes hobject
  refine ⟨bytes, hfinal.1, fun s' hreach => final_of_reach codec hinv.1 hfinal hreach, ⟨node, hobject⟩, ?_⟩
  intro other body hbody
  have hsame := (hinv.2.objects path other body hbody).1
  rw [hfinal.1] at hsame
  exact (Option.some.inj hsame).symm

/-! ## A pass beside a flush -/

/-- The lines as they are, one byte for each record. -/
def plain : Codec := ⟨fun recs => recs.map fun _ => 10, fun rows => rows.map fun _ => 10, fun bodies => bodies.map fun _ => 10⟩

def oneRecord : List UsageRecord :=
  [{ ts := 0, provider := "openai", model := "gpt-4o", vkey := none, status := 200, inputTokens := 10,
     outputTokens := 20, cachedTokens := 0, costMicroUsd := 5, latencyMs := 100, attempts := 1 }]

def bootState : State Unit :=
  ⟨0, 0, .waiting, fun _ => none, fun _ => false, fun _ _ => none, fun _ => .idle⟩

def usagePath : Path := ⟨.usage, 0, 0, 0⟩

theorem boot_starts : Starts bootState := ⟨rfl, fun _ => rfl, fun _ => rfl, fun _ _ => rfl, fun _ => rfl⟩

/-- The file is written, then shipped. -/
def inTurn : List (Label Unit) :=
  [.flush oneRecord [], .proceed, .write 1, .finish, .visit () usagePath, .read (), .put () .stored,
    .mark () true]

/-- The file is shipped when it was just created. -/
def scanInside : List (Label Unit) :=
  [.flush oneRecord [], .proceed, .visit () usagePath, .read (), .put () .stored, .mark () true,
    .write 1, .finish]

theorem shipped_whole_in_turn :
    ∃ s : State Unit, s.marked usagePath = true ∧ Shipped plain s := by
  have hreach : Reach (system plain) ReadsWhole
      ((run (next plain) bootState inTurn).get rfl) :=
    Reach.of_trace _ (next plain) boot_starts inTurn (by decide) rfl
  exact ⟨_, rfl, shipped_whole plain hreach⟩

/-- The marked file has a line, and its object has none. -/
theorem ships_unfinished : ¬∀ s : State Unit, Reach (system plain) free s → Shipped plain s := by
  intro hall
  have hreach : Reach (system plain) free ((run (next plain) bootState scanInside).get rfl) :=
    Reach.of_trace _ (next plain) boot_starts scanInside (by decide) rfl
  obtain ⟨bytes, hbytes, -, -, hobjects⟩ := hall _ hreach usagePath rfl
  have hfile : bytes = [10] := (Option.some.inj hbytes).symm
  have hobject : [] = bytes := hobjects 0 [] rfl
  rw [hfile] at hobject
  cases hobject

end RapidRouter.Usage.Ship
