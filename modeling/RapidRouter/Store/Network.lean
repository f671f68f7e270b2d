import RapidRouter.Lib.Conditional
import RapidRouter.Store.FileStore

/-!
# The network backends

`router-store/src/backend/s3.rs` and `dynamodb.rs`: the document is one object
in a service that any number of nodes read and replace. S3 checks an entity tag
(`If-Match`, or `If-None-Match: *` where nothing was there) and DynamoDB a
number beside the document (`attribute_not_exists(pk) OR version = :expected`).
Both keep a commit to the document its base was read from, which is the
compare-and-swap the trait asks of every backend.

A request is a step of its own and may go any way: the service refuses it, or
does what it is asked and the answer is lost, whereupon the SDK sends it again.
So a commit can be told of a conflict with its own document
(`resent_conflicts`); what it is never told is that it wrote when it did not.
-/

namespace RapidRouter.Store.Network

open Interleave Lts Conditional

/-- `Snapshot`, with the backend's token. -/
structure Snapshot where
  state : StoreState
  version : Nat
  token : Option String
  deriving DecidableEq

/-- `Snapshot::empty`. -/
def Snapshot.empty : Snapshot := ⟨StoreState.default, 0, none⟩

/-- How the request for the document goes: the service answers it, or not at
all, or the body is cut off. -/
inductive Fetch where
  | sent
  | refused (err : String)
  | cut (err : String)
  deriving DecidableEq

/-- How the request to replace it goes. `lost` is done and its answer lost, so
that it is sent again; `contested` is a 409. -/
inductive Put where
  | sent
  | lost
  | contested
  | refused (err : String)
  deriving DecidableEq

/-- What the two backends differ in. -/
structure Medium (ω : Type) where
  load : Option ω → Fetch → Except ControlPlaneError Snapshot
  /-- The object a commit sends. -/
  object : Snapshot → StoreState → Except ControlPlaneError ω
  condition : Snapshot → Option ω → Bool
  /-- The snapshot a commit returns. -/
  written : Snapshot → StoreState → ω → Snapshot
  /-- Whether a 409 counts as a conflict. -/
  contests : Bool
  writing : String

namespace Medium

variable {ω : Type} (m : Medium ω)

def register : Register ω Snapshot StoreState where
  read stored := (m.load stored .sent).toOption
  version := Snapshot.version
  write base next := (m.object base next).toOption
  condition := m.condition

/-- What a backend promises over the objects it reads. -/
structure Lawful (Good : Option ω → Prop) : Prop where
  /-- Whichever way a document is read, it is the one that is there. -/
  load_ok : ∀ {stored how x}, m.load stored how = .ok x → m.load stored .sent = .ok x
  object_ok : ∀ {base next object}, m.object base next = .ok object →
    Good (some object) ∧ m.load (some object) .sent = .ok (m.written base next object)
  object_error : ∀ {base next err}, m.object base next = .error err →
    ∃ message, err = .fault message
  written_state : ∀ base next object, (m.written base next object).state = next
  written_version : ∀ base next object, (m.written base next object).version = base.version + 1
  condition_iff : ∀ {stored x}, Good stored → m.register.Known stored x →
    m.register.Genuine Good x → (m.condition x stored = true ↔ m.register.read stored = some x)

theorem read_eq_some {m : Medium ω} {stored : Option ω} {x : Snapshot} :
    m.register.read stored = some x ↔ m.load stored .sent = .ok x := by
  show (m.load stored .sent).toOption = some x ↔ _
  cases m.load stored .sent <;> simp [Except.toOption]

theorem write_eq_some {m : Medium ω} {base : Snapshot} {next : StoreState} {object : ω} :
    m.register.write base next = some object ↔ m.object base next = .ok object := by
  show (m.object base next).toOption = some object ↔ _
  cases m.object base next <;> simp [Except.toOption]

theorem Lawful.register {m : Medium ω} {Good : Option ω → Prop} (hm : m.Lawful Good) :
    m.register.Lawful Good where
  written := by
    intro x d o h
    obtain ⟨hgood, hload⟩ := hm.object_ok (write_eq_some.mp h)
    exact ⟨hgood, _, read_eq_some.mpr hload, hm.written_version x d o⟩
  condition_iff := hm.condition_iff

end Medium

/-! ## Any number of tasks -/

structure Shared (ω : Type) where
  stored : Option ω
  /-- A ghost: the snapshots the backend has given out. -/
  handed : List Snapshot
  /-- A ghost: what the service wrote, the base and what it left, the latest
  first. -/
  log : List (Snapshot × Snapshot)

inductive Call where
  | load
  | commit (base : Snapshot) (next : StoreState)

inductive Ret where
  | loaded (result : Except ControlPlaneError Snapshot)
  | committed (result : Except ControlPlaneError Snapshot)
  deriving DecidableEq

/-- Which request comes next. `applied` is a ghost, how often the service wrote
this commit's document, and so is `lost`, how many answers were lost. -/
inductive Pc (ω : Type) where
  | load
  | commit (base : Snapshot) (next : StoreState)
  | put (base : Snapshot) (next : StoreState) (object : ω) (applied lost : Nat)
  | reload (base : Snapshot) (next : StoreState) (applied lost : Nat) (contested : Bool)
  | done (base : Snapshot) (next : StoreState) (applied lost : Nat) (contested : Bool)
      (result : Except ControlPlaneError Snapshot)
  deriving DecidableEq

inductive Choice where
  | fetch (how : Fetch)
  | put (how : Put)
  deriving DecidableEq

variable {ω : Type}

def start : Call → Pc ω
  | .load => .load
  | .commit base next => .commit base next

def Shared.hand (s : Shared ω) (x : Snapshot) : Shared ω := { s with handed := x :: s.handed }

/-- The service writes. -/
def Shared.write (s : Shared ω) (base left : Snapshot) (object : ω) : Shared ω :=
  { s with stored := some object, log := (base, left) :: s.log }

variable (m : Medium ω)

/-- `actual` of a conflict: the version there now, or the base's own when that
cannot be read. -/
def actual (stored : Option ω) (base : Snapshot) (how : Fetch) : Nat :=
  match m.load stored how with
  | .ok x => x.version
  | .error _ => base.version

/-- One request. A commit is called with a snapshot this backend gave out. -/
def step (s : Shared ω) (p : Pc ω) (choice : Choice) : Option (Shared ω × Outcome (Pc ω) Ret) :=
  match p, choice with
  | .load, .fetch how =>
    match m.load s.stored how with
    | .ok x => some (s.hand x, .returns (.loaded (.ok x)))
    | .error err => some (s, .returns (.loaded (.error err)))
  | .commit base next, _ =>
    if base ∈ s.handed then
      match m.object base next with
      | .ok object => some (s, .goes (.put base next object 0 0))
      | .error err => some (s, .goes (.done base next 0 0 false (.error err)))
    else none
  | .put base next object applied lost, .put .sent =>
    if m.condition base s.stored then
      let left := m.written base next object
      some ((s.write base left object).hand left,
        .goes (.done base next (applied + 1) lost false (.ok left)))
    else some (s, .goes (.reload base next applied lost false))
  | .put base next object applied lost, .put .lost =>
    if m.condition base s.stored then
      some (s.write base (m.written base next object) object,
        .goes (.put base next object (applied + 1) (lost + 1)))
    else some (s, .goes (.put base next object applied (lost + 1)))
  | .put base next _ applied lost, .put .contested =>
    if m.contests then some (s, .goes (.reload base next applied lost true)) else none
  | .put base next _ applied lost, .put (.refused err) =>
    some (s, .goes (.done base next applied lost false (.error (.unavailableIn m.writing err))))
  | .reload base next applied lost contested, .fetch how =>
    some (s, .goes (.done base next applied lost contested
      (.error (.conflict base.version (actual m s.stored base how)))))
  | .done _ _ _ _ _ result, _ => some (s, .returns (.committed result))
  | .load, .put _ | .put _ _ _ _ _, .fetch _ | .reload _ _ _ _ _, .put _ => none

def machine : Machine (Shared ω) (Pc ω) Call Choice Ret := ⟨start, step m⟩

/-- The service holds an object, or none, and nobody has asked for it. -/
def Starts (stored : Option ω) (s : Shared ω) : Prop := s = ⟨stored, [], []⟩

/-! ## What a commit knows -/

/-- What the task with this base knows of the store. -/
def Holds (Good : Option ω → Prop) (stored : Option ω) (x : Snapshot) : Prop :=
  m.register.Known stored x ∧ m.register.Genuine Good x

/-- The commit's document was written over its base. -/
def Wrote (s : Shared ω) (base : Snapshot) (next : StoreState) : Prop :=
  ∃ left, (base, left) ∈ s.log ∧ left.state = next ∧ left.version = base.version + 1

/-- What the ghosts of a commit that has not returned `Ok` say: its document
was written once at most, and only if an answer was lost; then the store has
moved past its base. -/
structure Ghosts (s : Shared ω) (base : Snapshot) (next : StoreState) (applied lost : Nat) :
    Prop where
  once : applied ≤ 1
  lost : applied ≤ lost
  wrote : applied = 1 → Wrote s base next ∧ m.register.Past s.stored base

/-- What a commit's result means. A conflict means that the store has moved
past the base, unless the service only reported another write going on. -/
def Returned (s : Shared ω) (base : Snapshot) (next : StoreState) (applied lost : Nat)
    (contested : Bool) : Except ControlPlaneError Snapshot → Prop
  | .ok x =>
    applied = 1 ∧ (base, x) ∈ s.log ∧ x.state = next ∧ x.version = base.version + 1 ∧
      x ∈ s.handed
  | .error (.conflict expected actual) =>
    Ghosts m s base next applied lost ∧ expected = base.version ∧ expected ≤ actual ∧
      (contested = false ∨ expected < actual → m.register.Past s.stored base)
  | .error (.unavailable _) | .error (.fault _) => Ghosts m s base next applied lost

structure StoreInv (Good : Option ω → Prop) (first : Snapshot) (s : Shared ω) : Prop where
  good : Good s.stored
  readable : ∃ newest, m.load s.stored .sent = .ok newest ∧ m.register.Linked first s.log newest
  handed : ∀ x ∈ s.handed, Holds m Good s.stored x

def PcOk (s : Shared ω) : Pc ω → Prop
  | .load | .commit _ _ => True
  | .put base next object applied lost =>
    m.object base next = .ok object ∧ base ∈ s.handed ∧ Ghosts m s base next applied lost
  | .reload base next applied lost contested =>
    base ∈ s.handed ∧ Ghosts m s base next applied lost ∧
      (contested = false → m.register.Past s.stored base)
  | .done base next applied lost contested result =>
    Returned m s base next applied lost contested result

/-! ## One step -/

/-- Nothing given out is forgotten, and the service wrote one document over the
one that was there, or none. -/
structure Grows (s s' : Shared ω) : Prop where
  handed : ∀ x ∈ s.handed, x ∈ s'.handed
  stored : s'.stored = s.stored ∧ s'.log = s.log ∨
    ∃ base next object, m.load s.stored .sent = .ok base ∧ m.object base next = .ok object ∧
      s'.stored = some object ∧ s'.log = (base, m.written base next object) :: s.log

variable {m} {Good : Option ω → Prop} {first : Snapshot} {s s' : Shared ω}

theorem Grows.refl (s : Shared ω) : Grows m s s := ⟨fun _ h => h, Or.inl ⟨rfl, rfl⟩⟩

theorem Grows.log (h : Grows m s s') {e : Snapshot × Snapshot} (he : e ∈ s.log) : e ∈ s'.log := by
  rcases h.stored with ⟨_, hlog⟩ | ⟨base, next, object, _, _, _, hlog⟩
  · rw [hlog]
    exact he
  · rw [hlog]
    exact List.mem_cons_of_mem _ he

theorem Grows.holds (hm : m.Lawful Good) (h : Grows m s s') {x : Snapshot}
    (hx : Holds m Good s.stored x) : Holds m Good s'.stored x := by
  refine ⟨?_, hx.2⟩
  rcases h.stored with ⟨hstored, _⟩ | ⟨base, next, object, hload, hobject, hstored, _⟩
  · rw [hstored]
    exact hx.1
  · rw [hstored]
    exact hx.1.write hm.register (Medium.read_eq_some.mpr hload) (Medium.write_eq_some.mpr hobject)

theorem Grows.past (hm : m.Lawful Good) (h : Grows m s s') {x : Snapshot}
    (hx : m.register.Past s.stored x) : m.register.Past s'.stored x := by
  rcases h.stored with ⟨hstored, _⟩ | ⟨base, next, object, hload, hobject, hstored, _⟩
  · rw [hstored]
    exact hx
  · rw [hstored]
    exact hx.write hm.register (Medium.read_eq_some.mpr hload) (Medium.write_eq_some.mpr hobject)

theorem Ghosts.mono (hm : m.Lawful Good) (h : Grows m s s') {base : Snapshot} {next : StoreState}
    {applied lost : Nat} (hg : Ghosts m s base next applied lost) :
    Ghosts m s' base next applied lost := by
  refine ⟨hg.once, hg.lost, fun hone => ?_⟩
  obtain ⟨⟨left, hleft, hrest⟩, hpast⟩ := hg.wrote hone
  exact ⟨⟨left, h.log hleft, hrest⟩, h.past hm hpast⟩

theorem Returned.mono (hm : m.Lawful Good) (h : Grows m s s') {base : Snapshot}
    {next : StoreState} {applied lost : Nat} {contested : Bool}
    {result : Except ControlPlaneError Snapshot}
    (hr : Returned m s base next applied lost contested result) :
    Returned m s' base next applied lost contested result := by
  cases result with
  | ok x =>
    obtain ⟨hone, hlog, hstate, hversion, hx⟩ := hr
    exact ⟨hone, h.log hlog, hstate, hversion, h.handed x hx⟩
  | error err =>
    cases err with
    | conflict expected actual =>
      obtain ⟨hg, hexpected, hle, hpast⟩ := hr
      exact ⟨hg.mono hm h, hexpected, hle, fun hc => h.past hm (hpast hc)⟩
    | unavailable message => exact Ghosts.mono hm h hr
    | fault message => exact Ghosts.mono hm h hr

theorem PcOk.mono (hm : m.Lawful Good) (h : Grows m s s') {p : Pc ω} (hp : PcOk m s p) :
    PcOk m s' p := by
  cases p with
  | load | commit => trivial
  | put base next object applied lost =>
    obtain ⟨hobject, hbase, hg⟩ := hp
    exact ⟨hobject, h.handed base hbase, hg.mono hm h⟩
  | reload base next applied lost contested =>
    obtain ⟨hbase, hg, hpast⟩ := hp
    exact ⟨h.handed base hbase, hg.mono hm h, fun hc => h.past hm (hpast hc)⟩
  | done => exact Returned.mono hm h hp

/-- What a step gives out is what the service holds then. -/
theorem StoreInv.grows (hm : m.Lawful Good) (hinv : StoreInv m Good first s) (h : Grows m s s')
    (hhanded : ∀ x ∈ s'.handed, x ∈ s.handed ∨ m.load s'.stored .sent = .ok x) :
    StoreInv m Good first s' := by
  obtain ⟨newest, hnewest, hlinked⟩ := hinv.readable
  have hgood : Good s'.stored := by
    rcases h.stored with ⟨hstored, _⟩ | ⟨base, next, object, _, hobject, hstored, _⟩
    · rw [hstored]
      exact hinv.good
    · rw [hstored]
      exact (hm.object_ok hobject).1
  refine ⟨hgood, ?_, fun x hx => ?_⟩
  · rcases h.stored with ⟨hstored, hlog⟩ | ⟨base, next, object, hload, hobject, hstored, hlog⟩
    · rw [hstored, hlog]
      exact ⟨newest, hnewest, hlinked⟩
    · rw [hload, Except.ok.injEq] at hnewest
      rw [hstored, hlog]
      exact ⟨_, (hm.object_ok hobject).2, rfl, hm.written_version base next object,
        hnewest ▸ hlinked⟩
  · rcases hhanded x hx with hold | hnew
    · exact h.holds hm (hinv.handed x hold)
    · have hread := Medium.read_eq_some.mpr hnew
      exact ⟨Register.known_self hread, s'.stored, hgood, hread⟩

/-- Whichever way the document is read, its version is no older than the
base's. -/
theorem le_actual (hm : m.Lawful Good) {stored : Option ω} {base : Snapshot}
    (hbase : m.register.Known stored base) (how : Fetch) :
    base.version ≤ actual m stored base how := by
  unfold actual
  cases hload : m.load stored how with
  | error err => exact Nat.le_refl _
  | ok x =>
    obtain ⟨c, hc, hle, _⟩ := hbase
    have hsent := hm.load_ok hload
    rw [Medium.read_eq_some, hsent, Except.ok.injEq] at hc
    rw [hc]
    exact hle

theorem past_of_lt_actual (hm : m.Lawful Good) {stored : Option ω} {base : Snapshot} {how : Fetch}
    (h : base.version < actual m stored base how) : m.register.Past stored base := by
  unfold actual at h
  cases hload : m.load stored how with
  | error err =>
    rw [hload] at h
    exact absurd h (Nat.lt_irrefl _)
  | ok x =>
    rw [hload] at h
    exact ⟨x, Medium.read_eq_some.mpr (hm.load_ok hload), h⟩

/-- The condition holds: the service writes, over the base. -/
theorem grows_write (hm : m.Lawful Good) (hinv : StoreInv m Good first s) {base : Snapshot}
    {next : StoreState} {object : ω} (hobject : m.object base next = .ok object)
    (hbase : base ∈ s.handed) (hcond : m.condition base s.stored = true)
    (hstored : s'.stored = some object)
    (hlog : s'.log = (base, m.written base next object) :: s.log)
    (hhanded : ∀ x ∈ s.handed, x ∈ s'.handed) : Grows m s s' := by
  obtain ⟨hknown, hgenuine⟩ := hinv.handed base hbase
  have hcur := (hm.condition_iff hinv.good hknown hgenuine).mp hcond
  exact ⟨hhanded, Or.inr ⟨base, next, object, Medium.read_eq_some.mp hcur, hobject, hstored, hlog⟩⟩

/-- Its document was not yet written, or its condition would not hold. -/
theorem Ghosts.unapplied (hm : m.Lawful Good) (hinv : StoreInv m Good first s) {base : Snapshot}
    {next : StoreState} {applied lost : Nat} (hg : Ghosts m s base next applied lost)
    (hbase : base ∈ s.handed) (hcond : m.condition base s.stored = true) : applied = 0 := by
  have honce := hg.once
  by_cases hone : applied = 1
  · obtain ⟨hknown, hgenuine⟩ := hinv.handed base hbase
    have hstale := (Register.Known.stale hm.register hinv.good hknown hgenuine).mpr
      (hg.wrote hone).2
    have hcond' : m.register.condition base s.stored = true := hcond
    rw [hcond'] at hstale
    cases hstale
  · omega

theorem past_of_refused (hm : m.Lawful Good) (hinv : StoreInv m Good first s) {base : Snapshot}
    (hbase : base ∈ s.handed) (hcond : m.condition base s.stored ≠ true) :
    m.register.Past s.stored base := by
  obtain ⟨hknown, hgenuine⟩ := hinv.handed base hbase
  refine (Register.Known.stale hm.register hinv.good hknown hgenuine).mp ?_
  exact Bool.eq_false_of_not_eq_true hcond

/-- One request: the service writes one document at most, over the one its
base was read from, and the task goes on knowing what it should. -/
theorem step_sound (hm : m.Lawful Good) {p : Pc ω} {choice : Choice} {out : Outcome (Pc ω) Ret}
    (hinv : StoreInv m Good first s) (hp : PcOk m s p)
    (h : step m s p choice = some (s', out)) :
    Grows m s s' ∧ StoreInv m Good first s' ∧ ∀ q, out = .goes q → PcOk m s' q := by
  have hsame := Grows.refl (m := m) s
  cases p with
  | load =>
    cases choice with
    | put how => cases h
    | fetch how =>
      unfold step at h
      dsimp only at h
      split at h
      · next x hload =>
        cases h
        have hg : Grows m s (s.hand x) := ⟨fun y hy => List.mem_cons_of_mem _ hy, Or.inl ⟨rfl, rfl⟩⟩
        refine ⟨hg, hinv.grows hm hg fun y hy => ?_, fun q hq => by cases hq⟩
        rcases List.mem_cons.mp hy with rfl | hy
        · exact Or.inr (hm.load_ok hload)
        · exact Or.inl hy
      · cases h
        exact ⟨hsame, hinv, fun q hq => by cases hq⟩
  | commit base next =>
    unfold step at h
    dsimp only at h
    split at h
    · next hbase =>
      split at h
      · next object hobject =>
        cases h
        refine ⟨hsame, hinv, fun q hq => ?_⟩
        cases hq
        exact ⟨hobject, hbase, Nat.zero_le _, Nat.le_refl _, fun hone => by cases hone⟩
      · next err hobject =>
        cases h
        refine ⟨hsame, hinv, fun q hq => ?_⟩
        cases hq
        obtain ⟨message, rfl⟩ := hm.object_error hobject
        exact ⟨Nat.zero_le _, Nat.le_refl _, fun hone => by cases hone⟩
    · cases h
  | put base next object applied lost =>
    obtain ⟨hobject, hbase, hg⟩ := hp
    cases choice with
    | fetch how => cases h
    | put how =>
      cases how with
      | sent =>
        unfold step at h
        dsimp only at h
        split at h
        · next hcond =>
          cases h
          have hzero := hg.unapplied hm hinv hbase hcond
          have hgrows : Grows m s ((s.write base (m.written base next object) object).hand
              (m.written base next object)) :=
            grows_write hm hinv hobject hbase hcond rfl rfl fun x hx => List.mem_cons_of_mem _ hx
          refine ⟨hgrows, hinv.grows hm hgrows fun x hx => ?_, fun q hq => ?_⟩
          · rcases List.mem_cons.mp hx with rfl | hx
            · exact Or.inr (hm.object_ok hobject).2
            · exact Or.inl hx
          · cases hq
            rw [hzero]
            exact ⟨rfl, List.mem_cons_self, hm.written_state .., hm.written_version ..,
              List.mem_cons_self⟩
        · next hcond =>
          cases h
          refine ⟨hsame, hinv, fun q hq => ?_⟩
          cases hq
          exact ⟨hbase, hg, fun _ => past_of_refused hm hinv hbase hcond⟩
      | lost =>
        unfold step at h
        dsimp only at h
        split at h
        · next hcond =>
          cases h
          have hzero := hg.unapplied hm hinv hbase hcond
          have hgrows : Grows m s (s.write base (m.written base next object) object) :=
            grows_write hm hinv hobject hbase hcond rfl rfl fun x hx => hx
          refine ⟨hgrows, hinv.grows hm hgrows fun x hx => Or.inl hx, fun q hq => ?_⟩
          cases hq
          rw [hzero]
          refine ⟨hobject, hbase, Nat.le_refl _, Nat.le_add_left _ _, fun _ => ⟨?_, ?_⟩⟩
          · exact ⟨_, List.mem_cons_self, hm.written_state .., hm.written_version ..⟩
          · exact Register.past_written hm.register (Medium.write_eq_some.mpr hobject)
        · cases h
          refine ⟨hsame, hinv, fun q hq => ?_⟩
          cases hq
          exact ⟨hobject, hbase, hg.once, Nat.le_succ_of_le hg.lost, hg.wrote⟩
      | contested =>
        unfold step at h
        dsimp only at h
        split at h <;> cases h
        refine ⟨hsame, hinv, fun q hq => ?_⟩
        cases hq
        exact ⟨hbase, hg, fun hc => by cases hc⟩
      | refused err =>
        cases h
        refine ⟨hsame, hinv, fun q hq => ?_⟩
        cases hq
        exact hg
  | reload base next applied lost contested =>
    obtain ⟨hbase, hg, hpast⟩ := hp
    cases choice with
    | put how => cases h
    | fetch how =>
      cases h
      refine ⟨hsame, hinv, fun q hq => ?_⟩
      cases hq
      refine ⟨hg, rfl, le_actual hm (hinv.handed base hbase).1 how, fun hc => ?_⟩
      rcases hc with hc | hlt
      · exact hpast hc
      · exact past_of_lt_actual hm hlt
  | done base next applied lost contested result =>
    have hs : s = s' := by
      cases choice <;> cases h <;> rfl
    subst hs
    refine ⟨hsame, hinv, fun q hq => ?_⟩
    cases choice <;> cases h <;> cases hq

/-- **A commit whose answer was lost conflicts with itself.** The service wrote
its document; sent again, the request finds that the store has moved on. -/
theorem resent_conflicts (hm : m.Lawful Good) (hinv : StoreInv m Good first s) {base : Snapshot}
    {next : StoreState} {object : ω} (hobject : m.object base next = .ok object)
    (hbase : base ∈ s.handed) (hcond : m.condition base s.stored = true) :
    ∃ s', step m s (.put base next object 0 0) (.put .lost) =
        some (s', .goes (.put base next object 1 1)) ∧
      step m s' (.put base next object 1 1) (.put .sent) =
        some (s', .goes (.reload base next 1 1 false)) ∧
      step m s' (.reload base next 1 1 false) (.fetch .sent) =
        some (s', .goes (.done base next 1 1 false
          (.error (.conflict base.version (base.version + 1))))) ∧
      m.load s'.stored .sent = .ok (m.written base next object) := by
  have hload := (hm.object_ok hobject).2
  have hgrows : Grows m s (s.write base (m.written base next object) object) :=
    grows_write hm hinv hobject hbase hcond rfl rfl fun x hx => hx
  obtain ⟨hknown, hgenuine⟩ := hgrows.holds hm (hinv.handed base hbase)
  have hfalse : m.condition base (some object) = false :=
    (Register.Known.stale hm.register (hm.object_ok hobject).1 hknown hgenuine).mpr
      (Register.past_written hm.register (Medium.write_eq_some.mpr hobject))
  refine ⟨s.write base (m.written base next object) object, ?_, ?_, ?_, hload⟩
  · unfold step
    dsimp only
    rw [if_pos hcond]
  · show (if m.condition base (some object) = true then _ else _) = _
    rw [if_neg (by rw [hfalse]; exact Bool.false_ne_true)]
  · have hactual : actual m (some object) base .sent = base.version + 1 := by
      unfold actual
      rw [hload]
      exact hm.written_version base next object
    show some (_, Outcome.goes (Pc.done base next 1 1 false (.error (.conflict base.version
      (actual m (some object) base .sent))))) = _
    rw [hactual]

/-! ## Every run -/

section

variable {ι : Type} [DecidableEq ι] {stored : Option ω}

theorem reach_store (hm : m.Lawful Good) (hgood : Good stored)
    (hfirst : m.load stored .sent = .ok first) {s : State ι (Shared ω) (Pc ω)}
    (h : Reach ((machine m).system (Starts stored)) free s) :
    Machine.Inv (StoreInv m Good first) (PcOk m) s := by
  refine Machine.reach_inv ?_ ?_ ?_ h
  · intro shared hshared
    rw [hshared]
    exact ⟨hgood, ⟨first, hfirst, rfl⟩, fun x hx => absurd hx List.not_mem_nil⟩
  · intro shared call _
    cases call <;> trivial
  · intro shared p choice shared' out hinv hp hstep
    obtain ⟨hgrows, hinv', hout⟩ := step_sound hm hinv hp hstep
    exact ⟨hinv', hout, fun q hq => hq.mono hm hgrows⟩

omit [DecidableEq ι] in
/-- A commit returns from its last position. -/
theorem result_committed {s : State ι (Shared ω) (Pc ω)} {i : ι} {choice : Choice}
    {result : Except ControlPlaneError Snapshot}
    (h : (machine m).result s i choice = some (.committed result)) :
    ∃ base next applied lost contested,
      s.pc i = some (.done base next applied lost contested result) := by
  obtain ⟨p, shared, hp, hstep⟩ := Machine.result_eq_some.mp h
  have hstep' : step m s.shared p choice = some (shared, .returns (.committed result)) := hstep
  cases p with
  | done base next applied lost contested result' =>
    cases choice <;> cases hstep' <;> exact ⟨base, next, applied, lost, contested, hp⟩
  | load =>
    cases choice with
    | put how => cases hstep'
    | fetch how =>
      unfold step at hstep'
      dsimp only at hstep'
      split at hstep' <;> cases hstep'
  | commit base next =>
    unfold step at hstep'
    dsimp only at hstep'
    repeat' split at hstep'
    all_goals cases hstep'
  | put base next object applied lost =>
    cases choice with
    | fetch how => cases hstep'
    | put how =>
      cases how with
      | refused err => cases hstep'
      | sent | lost | contested =>
        unfold step at hstep'
        dsimp only at hstep'
        split at hstep' <;> cases hstep'
  | reload base next applied lost contested =>
    cases choice <;> cases hstep'

variable (m) in
/-- What any tasks make of the stored document, and what they are told. -/
structure Exact (first : Snapshot) (s : State ι (Shared ω) (Pc ω)) : Prop where
  /-- Each document replaced the one its commit's base was read from. -/
  linked : ∃ newest, m.load s.shared.stored .sent = .ok newest ∧
    m.register.Linked first s.shared.log newest ∧
    newest.version = first.version + s.shared.log.length
  increasing : (s.shared.log.map fun e => e.2.version).Pairwise (· > ·)
  /-- The service's condition is a comparison of versions. -/
  swap : ∀ x ∈ s.shared.handed, ∀ newest, m.load s.shared.stored .sent = .ok newest →
    (m.condition x s.shared.stored = true ↔ x.version = newest.version)
  returned : ∀ i choice result, (machine m).result s i choice = some (.committed result) →
    ∃ base next applied lost contested,
      s.pc i = some (.done base next applied lost contested result) ∧
        Returned m s.shared base next applied lost contested result

theorem exact (hm : m.Lawful Good) (hgood : Good stored)
    (hfirst : m.load stored .sent = .ok first) {s : State ι (Shared ω) (Pc ω)}
    (h : Reach ((machine m).system (Starts stored)) free s) : Exact m first s := by
  have hinv := reach_store hm hgood hfirst h
  obtain ⟨newest, hnewest, hlinked⟩ := hinv.shared.readable
  refine ⟨⟨newest, hnewest, hlinked, hlinked.version⟩, hlinked.increasing, ?_, ?_⟩
  · intro x hx newest' hnewest'
    obtain ⟨hknown, hgenuine⟩ := hinv.shared.handed x hx
    exact Register.Known.condition_iff_version hm.register hinv.shared.good hknown hgenuine
      (Medium.read_eq_some.mpr hnewest')
  · intro i choice result hresult
    obtain ⟨base, next, applied, lost, contested, hp⟩ := result_committed hresult
    exact ⟨base, next, applied, lost, contested, hp, hinv.thread i _ hp⟩

end

/-! ## S3 -/

namespace S3Store

variable {β : Type} (codec : Codec β) (tag : β → String)

/-- What `GetObject` answers with, its entity tag kept. -/
def load (stored : Option β) : Fetch → Except ControlPlaneError Snapshot
  | .refused err => .error (.unavailableIn "reading from S3" err)
  | .cut err =>
    match stored with
    | none => .ok .empty
    | some _ => .error (.unavailableIn "reading the S3 object body" err)
  | .sent =>
    match stored with
    | none => .ok .empty
    | some bytes =>
      match codec.decode bytes with
      | .ok document => .ok ⟨document.1, document.2, some (tag bytes)⟩
      | .error err => .error (.fault err)

def object (base : Snapshot) (next : StoreState) : Except ControlPlaneError β :=
  match codec.encode (base.version + 1) next with
  | .ok bytes => .ok bytes
  | .error err => .error (.fault err)

/-- `If-Match: <etag>`, or `If-None-Match: *`. -/
def condition (base : Snapshot) (stored : Option β) : Bool :=
  match base.token with
  | some etag => stored.map tag == some etag
  | none => stored.isNone

def medium [DecidableEq β] : Medium β where
  load := load codec tag
  object := object codec
  condition := condition tag
  written base next bytes := ⟨next, base.version + 1, some (tag bytes)⟩
  contests := true
  writing := "writing to S3"

variable {codec tag}

/-- A snapshot has the tag of the bytes it was read from, and there is none
without bytes. -/
theorem load_token {stored : Option β} {x : Snapshot} (h : load codec tag stored .sent = .ok x) :
    x.token = stored.map tag := by
  unfold load at h
  cases stored with
  | none =>
    cases h
    rfl
  | some bytes =>
    dsimp only at h
    split at h <;> cases h
    rfl

/-- Where tags tell the documents apart. -/
theorem lawful [DecidableEq β] (htag : Function.Injective tag) :
    (medium codec tag).Lawful fun stored => ∃ x, load codec tag stored .sent = .ok x where
  load_ok := by
    intro stored how x h
    cases how with
    | sent => exact h
    | refused err => cases h
    | cut err =>
      cases stored with
      | none => exact h
      | some bytes => cases h
  object_ok := by
    intro base next bytes h
    have hencode : codec.encode (base.version + 1) next = .ok bytes := by
      have hobject : object codec base next = .ok bytes := h
      unfold object at hobject
      split at hobject
      · next bytes' hbytes =>
        cases hobject
        exact hbytes
      · cases hobject
    have hload : load codec tag (some bytes) .sent =
        .ok ⟨next, base.version + 1, some (tag bytes)⟩ := by
      unfold load
      dsimp only
      rw [codec.decode_encode hencode]
    exact ⟨⟨_, hload⟩, hload⟩
  object_error := by
    intro base next err h
    have hobject : object codec base next = .error err := h
    unfold object at hobject
    split at hobject
    · cases hobject
    · next err' _ =>
      cases hobject
      exact ⟨err', rfl⟩
  written_state := fun base next bytes => rfl
  written_version := fun base next bytes => rfl
  condition_iff := by
    intro stored x hgood _ hgenuine
    obtain ⟨c, hc⟩ := hgood
    obtain ⟨old, _, hold⟩ := hgenuine
    rw [Medium.read_eq_some] at hold ⊢
    have holdtag := load_token hold
    show condition tag x stored = true ↔ load codec tag stored .sent = .ok x
    unfold condition
    constructor
    · intro hcond
      -- The tag is that of the bytes the snapshot was read from, so the bytes are the same.
      have hsame : stored = old := by
        rw [holdtag] at hcond
        cases old with
        | none =>
          cases stored with
          | none => rfl
          | some bytes => cases hcond
        | some bytes =>
          cases stored with
          | none => cases hcond
          | some bytes' =>
            have heq : tag bytes' = tag bytes := by simpa using hcond
            rw [htag heq]
      rw [hsame]
      exact hold
    · intro hload
      rw [load_token hload]
      cases stored with
      | none => rfl
      | some bytes => simp

end S3Store

/-! ## DynamoDB -/

namespace DynamoStore

/-- The item of the document: its `version` attribute and its `state`. -/
structure Item where
  version : Option Nat
  state : Option String
  deriving DecidableEq

variable (codec : Codec String)

def load (stored : Option Item) : Fetch → Except ControlPlaneError Snapshot
  | .refused err | .cut err => .error (.unavailableIn "reading from DynamoDB" err)
  | .sent =>
    match stored with
    | none => .ok .empty
    | some item =>
      match item.state with
      | none => .error (.fault
          "the store item has no `state` attribute; is another application using this table?")
      | some json =>
        match codec.decode json with
        | .ok document => .ok ⟨document.1, document.2, some (toString document.2)⟩
        | .error err => .error (.fault err)

def object (base : Snapshot) (next : StoreState) : Except ControlPlaneError Item :=
  match codec.encode (base.version + 1) next with
  | .ok json => .ok ⟨some (base.version + 1), some json⟩
  | .error err => .error (.fault err)

/-- `attribute_not_exists(pk) OR version = :expected`. -/
def condition (base : Snapshot) (stored : Option Item) : Bool :=
  match stored with
  | none => true
  | some item => item.version == some base.version

def medium : Medium Item where
  load := load codec
  object := object codec
  condition := condition
  written base next _ := ⟨next, base.version + 1, some (toString (base.version + 1))⟩
  contests := false
  writing := "writing to DynamoDB"

/-- The number beside the document is the document's own. -/
def Numbered (stored : Option Item) : Prop :=
  ∃ x, load codec stored .sent = .ok x ∧ ∀ item ∈ stored, item.version = some x.version

variable {codec}

theorem lawful : (medium codec).Lawful (Numbered codec) where
  load_ok := by
    intro stored how x h
    cases how with
    | sent => exact h
    | refused err | cut err => cases h
  object_ok := by
    intro base next item h
    have hobject : object codec base next = .ok item := h
    unfold object at hobject
    split at hobject
    · next json hencode =>
      cases hobject
      have hload : load codec (some ⟨some (base.version + 1), some json⟩) .sent =
          .ok ⟨next, base.version + 1, some (toString (base.version + 1))⟩ := by
        unfold load
        dsimp only
        rw [codec.decode_encode hencode]
      refine ⟨⟨_, hload, fun item hitem => ?_⟩, hload⟩
      cases hitem
      rfl
    · cases hobject
  object_error := by
    intro base next err h
    have hobject : object codec base next = .error err := h
    unfold object at hobject
    split at hobject
    · cases hobject
    · next err' _ =>
      cases hobject
      exact ⟨err', rfl⟩
  written_state := fun base next item => rfl
  written_version := fun base next item => rfl
  condition_iff := by
    intro stored x hgood hknown _
    obtain ⟨c, hc, hnumbered⟩ := hgood
    obtain ⟨c', hc', hle, heq⟩ := hknown
    have hread : (medium codec).register.read stored = some c := Medium.read_eq_some.mpr hc
    rw [hread, Option.some.injEq] at hc'
    subst hc'
    rw [hread, Option.some.injEq]
    show condition x stored = true ↔ c = x
    constructor
    · intro hcond
      refine (heq ?_).symm
      show x.version = c.version
      cases stored with
      | none =>
        -- Nothing is there, so there was nothing to have been read.
        cases hc
        exact Nat.le_zero.mp hle
      | some item =>
        have hitem := hnumbered item rfl
        have hversion : item.version = some x.version := by simpa [condition] using hcond
        rw [hitem, Option.some.injEq] at hversion
        exact hversion.symm
    · rintro rfl
      cases stored with
      | none => rfl
      | some item =>
        show (item.version == some c.version) = true
        rw [hnumbered item rfl]
        exact beq_self_eq_true _

end DynamoStore

/-! ## What the two backends keep -/

section

variable {ι : Type} [DecidableEq ι]

/-- S3, where entity tags tell documents apart. -/
theorem s3_commits_exact {β : Type} [DecidableEq β] {codec : Codec β} {tag : β → String}
    (htag : Function.Injective tag) {stored : Option β} {first : Snapshot}
    (hfirst : S3Store.load codec tag stored .sent = .ok first)
    {s : State ι (Shared β) (Pc β)}
    (h : Reach ((machine (S3Store.medium codec tag)).system (Starts stored)) free s) :
    Exact (S3Store.medium codec tag) first s :=
  exact (S3Store.lawful htag) ⟨first, hfirst⟩ hfirst h

/-- DynamoDB, from an item numbered as its document is. -/
theorem dynamo_commits_exact {codec : Codec String} {stored : Option DynamoStore.Item}
    {first : Snapshot} (hfirst : DynamoStore.load codec stored .sent = .ok first)
    (hnumbered : ∀ item ∈ stored, item.version = some first.version)
    {s : State ι (Shared DynamoStore.Item) (Pc DynamoStore.Item)}
    (h : Reach ((machine (DynamoStore.medium codec)).system (Starts stored)) free s) :
    Exact (DynamoStore.medium codec) first s :=
  exact DynamoStore.lawful ⟨first, hfirst, hnumbered⟩ hfirst h

end

/-- A document that holds a configuration and nothing else. -/
def configState (text : String) : StoreState := { StoreState.default with configText := some text }

/-- Three documents and their texts. -/
def texts : List ((Nat × StoreState) × String) :=
  [((1, configState "a"), "1 a"), ((1, configState "b"), "1 b"), ((2, configState "b"), "2 b")]

def textCodec : Codec String where
  encode version state :=
    match texts.find? fun e => e.1 = (version, state) with
    | some e => .ok e.2
    | none => .error "no text"
  decode text :=
    match texts.find? fun e => e.2 = text with
    | some e => .ok (e.1.2, e.1.1)
    | none => .error "no document"
  decode_encode := by
    intro version state bytes h
    have hread : ∀ e ∈ texts, texts.find? (fun e' => e'.2 = e.2) = some e := by decide
    split at h
    · next e he =>
      cases h
      have hdoc : e.1 = (version, state) := by simpa using List.find?_some he
      rw [hread e (List.mem_of_find?_eq_some he)]
      dsimp only
      rw [hdoc]
    · cases h

/-- Both tasks read that nothing is there. The first creates the document and
the second is told so; it reads again, and the answer to its next commit is
lost. -/
def crossing : List (Label Bool Call Choice) :=
  [.invoke false .load, .step false (.fetch .sent), .invoke true .load, .step true (.fetch .sent),
    .invoke false (.commit .empty (configState "a")),
    .invoke true (.commit .empty (configState "b")), .step false (.put .sent),
    .step true (.put .sent), .step false (.put .sent),
    .step true (.put .sent), .step true (.fetch .sent), .step true (.fetch .sent),
    .invoke true .load, .step true (.fetch .sent),
    .invoke true (.commit ⟨configState "a", 1, some "1 a"⟩ (configState "b")),
    .step true (.put .sent), .step true (.put .lost), .step true (.put .sent),
    .step true (.fetch .sent)]

theorem s3_commits_exact_crossing :
    ∃ s : State Bool (Shared String) (Pc String),
      (machine (S3Store.medium textCodec id)).result s true (.put .sent) =
          some (.committed (.error (.conflict 1 2))) ∧
        s.shared.stored = some "2 b" ∧
        Exact (S3Store.medium textCodec id) .empty s := by
  have hstart : ((machine (S3Store.medium textCodec id)).system (Starts none)).init
      (Machine.initial ⟨none, [], []⟩ : State Bool (Shared String) (Pc String)) := ⟨_, rfl, rfl⟩
  have hreach := Reach.of_trace free (machine (S3Store.medium textCodec id)).next hstart crossing
    (admitted_free _ _ _) (by decide)
  exact ⟨_, by decide, by decide, s3_commits_exact Function.injective_id rfl hreach⟩

/-- The same, each document's version its token. -/
def crossingNumbers : List (Label Bool Call Choice) :=
  crossing.map fun l =>
    match l with
    | .invoke i (.commit ⟨state, 1, _⟩ next) => .invoke i (.commit ⟨state, 1, some "1"⟩ next)
    | l => l

theorem dynamo_commits_exact_crossing :
    ∃ s : State Bool (Shared DynamoStore.Item) (Pc DynamoStore.Item),
      (machine (DynamoStore.medium textCodec)).result s true (.put .sent) =
          some (.committed (.error (.conflict 1 2))) ∧
        s.shared.stored = some ⟨some 2, some "2 b"⟩ ∧
        Exact (DynamoStore.medium textCodec) .empty s := by
  have hstart : ((machine (DynamoStore.medium textCodec)).system (Starts none)).init
      (Machine.initial ⟨none, [], []⟩ :
        State Bool (Shared DynamoStore.Item) (Pc DynamoStore.Item)) := ⟨_, rfl, rfl⟩
  have hreach := Reach.of_trace free (machine (DynamoStore.medium textCodec)).next hstart
    crossingNumbers (admitted_free _ _ _) (by decide)
  exact ⟨_, by decide, by decide, dynamo_commits_exact rfl (fun item h => by cases h) hreach⟩

end RapidRouter.Store.Network
