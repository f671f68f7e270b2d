import RapidRouter.Lib.Interleave
import RapidRouter.Store.Backend

/-!
# Nodes over one backend

`Store::commit` and `Store::refresh` of `router-store/src/lib.rs`: any number
of nodes, each with a cached copy of the document and a lock its own commits
take, and any number of tasks on them. The backend's `load` and `commit` are
one step each, the latter a compare-and-swap on the stored version; reading
the cache and installing a snapshot are others.

A copy anyone holds is the stored document or an older one (`Known`), since
each version is stored once. So a write that passes the backend's check was
computed from the document it replaces, and the stored state is the fold of
the commands that succeeded (`commits_exact`).

The cache of one node has no such order. A refresh compares for inequality
and a commit does not compare at all, so what is installed can be older than
what is there (`refresh_regresses`); `version_monotone` says when it is not.
-/

namespace RapidRouter.Store.Node

open Interleave Lts

/-- `COMMIT_ATTEMPTS`. -/
def commitAttempts : Nat := 5

variable {ν : Type}

structure NodeState where
  cached : Snapshot
  /-- The `writing` lock. -/
  writing : Bool

/-- One command the backend took: the document it replaced, and the one it
left. -/
structure Entry where
  command : Command
  base : Snapshot
  snapshot : Snapshot
  deriving DecidableEq

structure Shared (ν : Type) where
  stored : Snapshot
  nodes : ν → NodeState
  /-- A ghost: what the backend took, the latest first. -/
  log : List Entry

structure Commit (ν : Type) where
  node : ν
  expect : Option Nat
  command : Command
  deriving DecidableEq

inductive Call (ν : Type) where
  | commit (c : Commit ν)
  | refresh (node : ν)

inductive Ret where
  | committed (result : Except ControlPlaneError Nat)
  | refreshed (result : Except ControlPlaneError (Option Nat))
  deriving DecidableEq

/-- Which step comes next. `applied` is a ghost: how often the backend took
this commit's command. -/
inductive Pc (ν : Type) where
  | lock (c : Commit ν)
  | loadBase (c : Commit ν) (attempt applied : Nat)
  | write (c : Commit ν) (attempt applied : Nat) (base : Snapshot)
  | install (c : Commit ν) (applied : Nat) (snapshot : Snapshot)
  | conflictLoad (c : Commit ν) (attempt applied actual : Nat)
  | conflictCompare (c : Commit ν) (attempt applied actual : Nat) (fetched : Snapshot)
  | conflictInstall (c : Commit ν) (attempt applied actual : Nat) (fetched : Snapshot)
  | unlock (c : Commit ν) (applied : Nat) (result : Except ControlPlaneError Nat)
  | refreshLoad (node : ν)
  | refreshCompare (node : ν) (fetched : Snapshot)
  | refreshInstall (node : ν) (fetched : Snapshot)
  deriving DecidableEq

def start : Call ν → Pc ν
  | .commit c => .lock c
  | .refresh node => .refreshLoad node

def gaveUp : ControlPlaneError :=
  .unavailable ("gave up after " ++ toString commitAttempts ++
    " attempts: the store is being written faster than this node can keep up")

/-- The caller's own compare-and-swap, against the cached version. -/
def checkExpect (c : Commit ν) (attempt applied : Nat) (base : Snapshot) : Pc ν :=
  match c.expect with
  | some expected =>
    if expected ≠ base.version then .unlock c applied (.error (.conflict expected base.version))
    else .write c attempt applied base
  | none => .write c attempt applied base

/-- After a lost race and the refresh that follows it. -/
def retry (c : Commit ν) (attempt applied actual : Nat) : Pc ν :=
  match c.expect with
  | some expected => .unlock c applied (.error (.conflict expected actual))
  | none =>
    if attempt ≥ commitAttempts then .unlock c applied (.error gaveUp)
    else .loadBase c (attempt + 1) applied

variable [DecidableEq ν]

def Shared.cache (s : Shared ν) (node : ν) (snapshot : Snapshot) : Shared ν :=
  { s with nodes := Function.update s.nodes node { s.nodes node with cached := snapshot } }

def Shared.setWriting (s : Shared ν) (node : ν) (writing : Bool) : Shared ν :=
  { s with nodes := Function.update s.nodes node { s.nodes node with writing := writing } }

/-- One step. `down` is the error the backend answers with, if it does not do
what it is asked. -/
def step (s : Shared ν) (p : Pc ν) (down : Option ControlPlaneError) :
    Option (Shared ν × Outcome (Pc ν) Ret) :=
  match p with
  | .lock c =>
    if (s.nodes c.node).writing then none
    else some (s.setWriting c.node true, .goes (.loadBase c 1 0))
  | .loadBase c attempt applied =>
    some (s, .goes (checkExpect c attempt applied (s.nodes c.node).cached))
  | .write c attempt applied base =>
    match down with
    | some (.conflict _ _) => none
    | some err => some (s, .goes (.unlock c applied (.error err)))
    | none =>
      if s.stored.version ≠ base.version then
        some (s, .goes (.conflictLoad c attempt applied s.stored.version))
      else
        let snapshot : Snapshot := ⟨base.state.apply c.command, base.version + 1⟩
        some ({ s with stored := snapshot, log := ⟨c.command, s.stored, snapshot⟩ :: s.log },
          .goes (.install c (applied + 1) snapshot))
  | .install c applied snapshot =>
    some (s.cache c.node snapshot, .goes (.unlock c applied (.ok snapshot.version)))
  | .conflictLoad c attempt applied actual =>
    match down with
    | some _ => some (s, .goes (retry c attempt applied actual))
    | none => some (s, .goes (.conflictCompare c attempt applied actual s.stored))
  | .conflictCompare c attempt applied actual fetched =>
    if fetched.version = (s.nodes c.node).cached.version then
      some (s, .goes (retry c attempt applied actual))
    else some (s, .goes (.conflictInstall c attempt applied actual fetched))
  | .conflictInstall c attempt applied actual fetched =>
    some (s.cache c.node fetched, .goes (retry c attempt applied actual))
  | .unlock c _ result => some (s.setWriting c.node false, .returns (.committed result))
  | .refreshLoad node =>
    match down with
    | some err => some (s, .returns (.refreshed (.error err)))
    | none => some (s, .goes (.refreshCompare node s.stored))
  | .refreshCompare node fetched =>
    if fetched.version = (s.nodes node).cached.version then
      some (s, .returns (.refreshed (.ok none)))
    else some (s, .goes (.refreshInstall node fetched))
  | .refreshInstall node fetched =>
    some (s.cache node fetched, .returns (.refreshed (.ok (some fetched.version))))

def machine : Machine (Shared ν) (Pc ν) (Call ν) (Option ControlPlaneError) Ret := ⟨start, step⟩

/-- Every node has opened the store on the first document. -/
def Starts (first : Snapshot) (s : Shared ν) : Prop :=
  s.stored = first ∧ (∀ node, s.nodes node = ⟨first, false⟩) ∧ s.log = []

/-! ## What the tasks know -/

/-- A snapshot someone holds: the stored one or an older one. -/
def Known (stored x : Snapshot) : Prop :=
  x.version ≤ stored.version ∧ (x.version = stored.version → x = stored)

/-- Each document was made of the one before it by one command. -/
def Linked (first : Snapshot) : List Entry → Snapshot → Prop
  | [], stored => stored = first
  | e :: rest, stored =>
    e.snapshot = stored ∧ stored = ⟨e.base.state.apply e.command, e.base.version + 1⟩ ∧
      Linked first rest e.base

/-- The backend took a commit's command and left version `version`; the
document it replaced was the one the caller expected. -/
def Applied (s : Shared ν) (c : Commit ν) (version : Nat) : Prop :=
  ∃ e ∈ s.log, e.command = c.command ∧ e.snapshot.version = version ∧
    ∀ expected, c.expect = some expected → e.base.version = expected

structure NodesInv (first : Snapshot) (s : Shared ν) : Prop where
  linked : Linked first s.log s.stored
  caches : ∀ node, Known s.stored (s.nodes node).cached

def PcOk (s : Shared ν) : Pc ν → Prop
  | .lock _ | .refreshLoad _ => True
  | .loadBase _ _ applied | .conflictLoad _ _ applied _ => applied = 0
  | .write c _ applied base =>
    applied = 0 ∧ Known s.stored base ∧ ∀ expected, c.expect = some expected → base.version = expected
  | .install c applied snapshot =>
    applied = 1 ∧ Known s.stored snapshot ∧ Applied s c snapshot.version
  | .conflictCompare _ _ applied _ fetched | .conflictInstall _ _ applied _ fetched =>
    applied = 0 ∧ Known s.stored fetched
  | .unlock c applied (.ok version) => applied = 1 ∧ Applied s c version
  | .unlock _ applied (.error _) => applied = 0
  | .refreshCompare _ fetched | .refreshInstall _ fetched => Known s.stored fetched

/-- The backend took one more command, or none. -/
def Grows (s s' : Shared ν) : Prop :=
  s'.stored = s.stored ∧ s'.log = s.log ∨
    ∃ command, s'.stored = ⟨s.stored.state.apply command, s.stored.version + 1⟩ ∧
      s'.log = ⟨command, s.stored, s'.stored⟩ :: s.log

omit [DecidableEq ν] in
theorem Grows.known {s s' : Shared ν} (h : Grows s s') {x : Snapshot} (hx : Known s.stored x) :
    Known s'.stored x := by
  rcases h with ⟨hstored, _⟩ | ⟨command, hstored, _⟩
  · rw [hstored]
    exact hx
  · obtain ⟨hle, _⟩ := hx
    rw [hstored]
    exact ⟨by dsimp only; omega, fun heq => absurd heq (by dsimp only; omega)⟩

omit [DecidableEq ν] in
theorem Grows.applied {s s' : Shared ν} (h : Grows s s') {c : Commit ν} {version : Nat}
    (hc : Applied s c version) : Applied s' c version := by
  obtain ⟨e, he, hrest⟩ := hc
  rcases h with ⟨_, hlog⟩ | ⟨command, _, hlog⟩
  · exact ⟨e, hlog ▸ he, hrest⟩
  · exact ⟨e, hlog ▸ List.mem_cons_of_mem _ he, hrest⟩

omit [DecidableEq ν] in
theorem Grows.linked {first : Snapshot} {s s' : Shared ν} (h : Grows s s')
    (hs : Linked first s.log s.stored) : Linked first s'.log s'.stored := by
  rcases h with ⟨hstored, hlog⟩ | ⟨command, hstored, hlog⟩
  · rw [hstored, hlog]
    exact hs
  · rw [hlog]
    exact ⟨rfl, hstored, hs⟩

omit [DecidableEq ν] in
theorem PcOk.mono {s s' : Shared ν} (h : Grows s s') {p : Pc ν} (hp : PcOk s p) : PcOk s' p := by
  cases p with
  | lock | refreshLoad => trivial
  | loadBase | conflictLoad => exact hp
  | write c attempt applied base => exact ⟨hp.1, h.known hp.2.1, hp.2.2⟩
  | install c applied snapshot => exact ⟨hp.1, h.known hp.2.1, h.applied hp.2.2⟩
  | conflictCompare | conflictInstall => exact ⟨hp.1, h.known hp.2⟩
  | refreshCompare | refreshInstall => exact h.known hp
  | unlock c applied result =>
    cases result with
    | error err => exact hp
    | ok version => exact ⟨hp.1, h.applied hp.2⟩

omit [DecidableEq ν] in
theorem pcOk_checkExpect {s : Shared ν} (c : Commit ν) (attempt : Nat) {base : Snapshot}
    (hbase : Known s.stored base) : PcOk s (checkExpect c attempt 0 base) := by
  unfold checkExpect
  split
  · next expected hexpect =>
    split
    · rfl
    · next heq =>
      refine ⟨rfl, hbase, fun v hv => ?_⟩
      rw [hexpect, Option.some.injEq] at hv
      rw [← hv]
      exact (not_not.mp heq).symm
  · next hexpect =>
    refine ⟨rfl, hbase, fun v hv => ?_⟩
    rw [hexpect] at hv
    cases hv

omit [DecidableEq ν] in
theorem pcOk_retry (s : Shared ν) (c : Commit ν) (attempt actual : Nat) :
    PcOk s (retry c attempt 0 actual) := by
  unfold retry
  split
  · rfl
  · split <;> rfl

theorem cache_cached (s : Shared ν) (node : ν) (snapshot : Snapshot) (n : ν) :
    ((s.cache node snapshot).nodes n).cached = if n = node then snapshot else (s.nodes n).cached := by
  unfold Shared.cache
  dsimp only
  by_cases hn : n = node
  · subst hn
    rw [Function.update_self, if_pos rfl]
  · rw [Function.update_of_ne hn, if_neg hn]

theorem caches_cache {s : Shared ν} {node : ν} {snapshot : Snapshot}
    (hs : ∀ n, Known s.stored (s.nodes n).cached) (hsnapshot : Known s.stored snapshot) (n : ν) :
    Known s.stored ((s.cache node snapshot).nodes n).cached := by
  rw [cache_cached]
  by_cases hn : n = node
  · rw [if_pos hn]
    exact hsnapshot
  · rw [if_neg hn]
    exact hs n

theorem setWriting_cached (s : Shared ν) (node : ν) (writing : Bool) (n : ν) :
    ((s.setWriting node writing).nodes n).cached = (s.nodes n).cached := by
  unfold Shared.setWriting
  dsimp only
  by_cases hn : n = node
  · subst hn
    rw [Function.update_self]
  · rw [Function.update_of_ne hn]

/-- One step: the backend takes one command at most, no copy is from the
future, and the task goes on knowing what it should. -/
theorem step_sound {s s' : Shared ν} {p : Pc ν} {down : Option ControlPlaneError}
    {out : Outcome (Pc ν) Ret} (h : step s p down = some (s', out))
    (hcaches : ∀ n, Known s.stored (s.nodes n).cached) (hp : PcOk s p) :
    Grows s s' ∧ (∀ n, Known s'.stored (s'.nodes n).cached) ∧ ∀ q, out = .goes q → PcOk s' q := by
  have hsame : Grows s s := Or.inl ⟨rfl, rfl⟩
  cases p with
  | lock c =>
    unfold step at h
    dsimp only at h
    split at h <;> cases h
    refine ⟨Or.inl ⟨rfl, rfl⟩, fun n => ?_, fun q hq => ?_⟩
    · rw [setWriting_cached]
      exact hcaches n
    · cases hq
      rfl
  | loadBase c attempt applied =>
    cases h
    have hzero : applied = 0 := hp
    subst hzero
    refine ⟨hsame, hcaches, fun q hq => ?_⟩
    cases hq
    exact pcOk_checkExpect c attempt (hcaches c.node)
  | write c attempt applied base =>
    obtain ⟨hzero, hbase, hexpect⟩ := hp
    subst hzero
    unfold step at h
    dsimp only at h
    split at h
    · cases h
    · cases h
      refine ⟨hsame, hcaches, fun q hq => ?_⟩
      cases hq
      rfl
    · split at h
      · cases h
        refine ⟨hsame, hcaches, fun q hq => ?_⟩
        cases hq
        rfl
      · next hversion =>
        cases h
        have hstored : base = s.stored := hbase.2 (not_not.mp hversion).symm
        subst hstored
        have hgrows : Grows s { s with
            stored := ⟨s.stored.state.apply c.command, s.stored.version + 1⟩
            log := ⟨c.command, s.stored, ⟨s.stored.state.apply c.command, s.stored.version + 1⟩⟩ ::
              s.log } := Or.inr ⟨c.command, rfl, rfl⟩
        refine ⟨hgrows, fun n => hgrows.known (hcaches n), fun q hq => ?_⟩
        cases hq
        refine ⟨rfl, ⟨le_rfl, fun _ => rfl⟩, ?_⟩
        exact ⟨_, List.mem_cons_self, rfl, rfl, hexpect⟩
  | install c applied snapshot =>
    obtain ⟨hone, hsnapshot, happlied⟩ := hp
    cases h
    refine ⟨Or.inl ⟨rfl, rfl⟩, caches_cache hcaches hsnapshot, fun q hq => ?_⟩
    cases hq
    exact ⟨hone, happlied⟩
  | conflictLoad c attempt applied actual =>
    have hzero : applied = 0 := hp
    subst hzero
    unfold step at h
    dsimp only at h
    split at h <;> cases h
    · refine ⟨hsame, hcaches, fun q hq => ?_⟩
      cases hq
      exact pcOk_retry s c attempt actual
    · refine ⟨hsame, hcaches, fun q hq => ?_⟩
      cases hq
      exact ⟨rfl, le_rfl, fun _ => rfl⟩
  | conflictCompare c attempt applied actual fetched =>
    obtain ⟨hzero, hfetched⟩ := hp
    subst hzero
    unfold step at h
    dsimp only at h
    split at h <;> cases h
    · refine ⟨hsame, hcaches, fun q hq => ?_⟩
      cases hq
      exact pcOk_retry s c attempt actual
    · refine ⟨hsame, hcaches, fun q hq => ?_⟩
      cases hq
      exact ⟨rfl, hfetched⟩
  | conflictInstall c attempt applied actual fetched =>
    obtain ⟨hzero, hfetched⟩ := hp
    subst hzero
    cases h
    refine ⟨Or.inl ⟨rfl, rfl⟩, caches_cache hcaches hfetched, fun q hq => ?_⟩
    cases hq
    exact pcOk_retry _ c attempt actual
  | unlock c applied result =>
    cases h
    refine ⟨Or.inl ⟨rfl, rfl⟩, fun n => ?_, fun q hq => by cases hq⟩
    rw [setWriting_cached]
    exact hcaches n
  | refreshLoad node =>
    unfold step at h
    dsimp only at h
    split at h <;> cases h
    · exact ⟨hsame, hcaches, fun q hq => by cases hq⟩
    · refine ⟨hsame, hcaches, fun q hq => ?_⟩
      cases hq
      exact ⟨le_rfl, fun _ => rfl⟩
  | refreshCompare node fetched =>
    unfold step at h
    dsimp only at h
    split at h <;> cases h
    · exact ⟨hsame, hcaches, fun q hq => by cases hq⟩
    · refine ⟨hsame, hcaches, fun q hq => ?_⟩
      cases hq
      exact hp
  | refreshInstall node fetched =>
    cases h
    exact ⟨Or.inl ⟨rfl, rfl⟩, caches_cache hcaches hp, fun q hq => by cases hq⟩

section
variable {ι : Type} [DecidableEq ι] {first : Snapshot}

theorem reach_nodes {ok : State ι (Shared ν) (Pc ν) → Label ι (Call ν) (Option ControlPlaneError) → Prop}
    {s : State ι (Shared ν) (Pc ν)} (h : Reach (machine.system (Starts first)) ok s) :
    Machine.Inv (NodesInv first) PcOk s := by
  refine Machine.reach_inv ?_ ?_ ?_ h
  · rintro s ⟨hstored, hnodes, hlog⟩
    refine ⟨?_, fun n => ?_⟩
    · rw [hlog]
      exact hstored
    · rw [hnodes n, hstored]
      exact ⟨le_rfl, fun _ => rfl⟩
  · intro s call _
    cases call <;> trivial
  · intro s p down s' out hs hp hstep
    obtain ⟨hgrows, hcaches, hout⟩ := step_sound hstep hs.caches hp
    exact ⟨⟨hgrows.linked hs.linked, hcaches⟩, hout, fun q hq => hq.mono hgrows⟩

omit [DecidableEq ν] in
theorem Linked.fold {log : List Entry} {stored : Snapshot} (h : Linked first log stored) :
    stored.state = (log.reverse.map Entry.command).foldl StoreState.apply first.state ∧
      stored.version = first.version + log.length := by
  induction log generalizing stored with
  | nil =>
    rw [show stored = first from h]
    exact ⟨rfl, rfl⟩
  | cons e rest ih =>
    obtain ⟨_, hstored, hrest⟩ := h
    obtain ⟨hstate, hversion⟩ := ih hrest
    rw [hstored, List.reverse_cons, List.map_append, List.foldl_append, ← hstate, hversion]
    exact ⟨rfl, rfl⟩

theorem Linked.newest {log : List Entry} {stored : Snapshot} (h : Linked first log stored) :
    ∀ e ∈ log, e.snapshot.version ≤ stored.version := by
  induction log generalizing stored with
  | nil =>
    intro e he
    cases he
  | cons d rest ih =>
    obtain ⟨hd, hstored, hrest⟩ := h
    intro e he
    rcases List.mem_cons.mp he with rfl | he
    · rw [hd]
    · have hle := ih hrest e he
      rw [hstored]
      dsimp only
      omega

theorem Linked.increasing {log : List Entry} {stored : Snapshot} (h : Linked first log stored) :
    (log.map fun e => e.snapshot.version).Pairwise (· > ·) := by
  induction log generalizing stored with
  | nil => exact List.Pairwise.nil
  | cons d rest ih =>
    obtain ⟨hd, hstored, hrest⟩ := h
    rw [List.map_cons, List.pairwise_cons]
    refine ⟨fun version hversion => ?_, ih hrest⟩
    obtain ⟨e, he, rfl⟩ := List.mem_map.mp hversion
    have hle := hrest.newest e he
    rw [hd, hstored]
    show e.snapshot.version < d.base.version + 1
    omega

omit [DecidableEq ι] in
/-- A commit returns from where it gives the lock back. -/
theorem result_committed {s : State ι (Shared ν) (Pc ν)} {i : ι} {down : Option ControlPlaneError}
    {result : Except ControlPlaneError Nat}
    (h : machine.result s i down = some (.committed result)) :
    ∃ c applied, s.pc i = some (.unlock c applied result) := by
  unfold Machine.result at h
  cases hp : s.pc i with
  | none => simp [hp] at h
  | some p =>
    rw [hp] at h
    dsimp only [machine] at h
    split at h
    · next shared r hstep =>
      rw [Option.some.injEq] at h
      subst h
      cases p with
      | unlock c applied result' =>
        cases hstep
        exact ⟨c, applied, rfl⟩
      | lock | write | conflictLoad | conflictCompare | refreshLoad | refreshCompare =>
        unfold step at hstep
        dsimp only at hstep
        repeat' split at hstep
        all_goals cases hstep
      | loadBase | install | conflictInstall | refreshInstall => cases hstep
    · cases h

/-- What the commits of any nodes make of the stored document. -/
structure CommitsExact (first : Snapshot) (s : State ι (Shared ν) (Pc ν)) : Prop where
  linked : Linked first s.shared.log s.shared.stored
  folded : s.shared.stored.state =
    (s.shared.log.reverse.map Entry.command).foldl StoreState.apply first.state
  increasing : (s.shared.log.map fun e => e.snapshot.version).Pairwise (· > ·)
  succeeded : ∀ i down version, machine.result s i down = some (.committed (.ok version)) →
    ∃ c, s.pc i = some (.unlock c 1 (.ok version)) ∧ Applied s.shared c version
  failed : ∀ i down err, machine.result s i down = some (.committed (.error err)) →
    ∃ c, s.pc i = some (.unlock c 0 (.error err))

/-- A commit that returns `Ok` was applied once, to the document it replaced,
which was the one its caller expected; one that returns an error was not. -/
theorem commits_exact {s : State ι (Shared ν) (Pc ν)}
    (h : Reach (machine.system (Starts first)) free s) : CommitsExact first s := by
  have hinv := reach_nodes h
  have hlinked := hinv.shared.linked
  refine ⟨hlinked, hlinked.fold.1, hlinked.increasing, ?_, ?_⟩
  · intro i down version hresult
    obtain ⟨c, applied, hp⟩ := result_committed hresult
    obtain ⟨hone, happlied⟩ := hinv.thread i _ hp
    exact ⟨c, hone ▸ hp, happlied⟩
  · intro i down err hresult
    obtain ⟨c, applied, hp⟩ := result_committed hresult
    have hzero : applied = 0 := hinv.thread i _ hp
    exact ⟨c, hzero ▸ hp⟩

end

/-- Both nodes open an empty store. -/
def emptyShared : Shared Bool := ⟨⟨StoreState.default, 0⟩, fun _ => ⟨⟨StoreState.default, 0⟩, false⟩, []⟩

/-- Two nodes read version 0. The second to write is refused, refreshes and
writes version 2. -/
def racing : List (Label Bool (Call Bool) (Option ControlPlaneError)) :=
  [.invoke false (.commit ⟨false, some 0, .putConfig "a"⟩), .step false none, .step false none,
    .invoke true (.commit ⟨true, none, .putConfig "b"⟩), .step true none, .step true none,
    .step false none, .step false none, .step true none, .step true none, .step true none,
    .step true none, .step true none, .step true none, .step true none]

theorem commits_exact_racing :
    ∃ s : State Bool (Shared Bool) (Pc Bool),
      machine.result s false none = some (.committed (.ok 1)) ∧
        machine.result s true none = some (.committed (.ok 2)) ∧
        CommitsExact ⟨StoreState.default, 0⟩ s := by
  have hstart : (machine.system (Starts ⟨StoreState.default, 0⟩)).init
      (Machine.initial emptyShared : State Bool (Shared Bool) (Pc Bool)) :=
    ⟨_, ⟨rfl, fun _ => rfl, rfl⟩, rfl⟩
  have hreach := Reach.of_trace free machine.next hstart racing (by decide) (by decide)
  exact ⟨_, by decide, by decide, commits_exact hreach⟩

/-! ## What a node has cached -/

/-- A snapshot a task has from the backend, and the node it is for. -/
def Pc.pending : Pc ν → Option (ν × Snapshot)
  | .install c _ snapshot => some (c.node, snapshot)
  | .conflictCompare c _ _ _ fetched | .conflictInstall c _ _ _ fetched => some (c.node, fetched)
  | .refreshCompare node fetched | .refreshInstall node fetched => some (node, fetched)
  | .lock _ | .loadBase _ _ _ | .write _ _ _ _ | .conflictLoad _ _ _ _ | .unlock _ _ _
  | .refreshLoad _ => none

/-- The snapshot the next step installs, and the node it does that on. -/
def Pc.installs : Pc ν → Option (ν × Snapshot)
  | .install c _ snapshot => some (c.node, snapshot)
  | .conflictInstall c _ _ _ fetched => some (c.node, fetched)
  | .refreshInstall node fetched => some (node, fetched)
  | .lock _ | .loadBase _ _ _ | .write _ _ _ _ | .conflictLoad _ _ _ _
  | .conflictCompare _ _ _ _ _ | .unlock _ _ _ | .refreshLoad _ | .refreshCompare _ _ => none

/-- No snapshot is installed over an older one that another task has yet to
install on the node. -/
def InOrder {ι : Type} (s : State ι (Shared ν) (Pc ν)) :
    Label ι (Call ν) (Option ControlPlaneError) → Prop
  | .step i _ => ∀ p ∈ s.pc i, ∀ x ∈ p.installs, ∀ j, j ≠ i → ∀ q ∈ s.pc j, ∀ y ∈ q.pending,
      y.1 = x.1 → x.2.version ≤ y.2.version
  | .invoke _ _ => True

/-- What a task has from the backend is no older than what its node has. -/
def Ahead (s : Shared ν) (p : Pc ν) : Prop :=
  ∀ y ∈ p.pending, (s.nodes y.1).cached.version ≤ y.2.version

omit [DecidableEq ν] in
theorem ahead_of_none {s : Shared ν} {q : Pc ν} (hq : q.pending = none) : Ahead s q := by
  intro y hy
  rw [hq] at hy
  cases hy

omit [DecidableEq ν] in
@[simp] theorem pending_checkExpect (c : Commit ν) (attempt applied : Nat) (base : Snapshot) :
    (checkExpect c attempt applied base).pending = none := by
  unfold checkExpect
  split
  · split <;> rfl
  · rfl

omit [DecidableEq ν] in
@[simp] theorem pending_retry (c : Commit ν) (attempt applied actual : Nat) :
    (retry c attempt applied actual).pending = none := by
  unfold retry
  split
  · rfl
  · split <;> rfl

/-- A step that installs nothing leaves every cache as it is, and what it has
from the backend is what it had or what is stored. -/
theorem step_keeps {first : Snapshot} {s s' : Shared ν} {p : Pc ν} {down : Option ControlPlaneError}
    {out : Outcome (Pc ν) Ret} (h : step s p down = some (s', out)) (hinv : NodesInv first s)
    (hp : PcOk s p) (hahead : Ahead s p) (hinstalls : p.installs = none) :
    (∀ n, (s'.nodes n).cached = (s.nodes n).cached) ∧ ∀ q, out = .goes q → Ahead s' q := by
  cases p with
  | install | conflictInstall | refreshInstall => cases hinstalls
  | lock c =>
    unfold step at h
    dsimp only at h
    split at h <;> cases h
    refine ⟨setWriting_cached s c.node true, fun q hq => ?_⟩
    cases hq
    exact ahead_of_none rfl
  | loadBase c attempt applied =>
    cases h
    refine ⟨fun n => rfl, fun q hq => ?_⟩
    cases hq
    exact ahead_of_none (pending_checkExpect ..)
  | write c attempt applied base =>
    obtain ⟨_, hbase, _⟩ := hp
    unfold step at h
    dsimp only at h
    split at h
    · cases h
    · cases h
      refine ⟨fun n => rfl, fun q hq => ?_⟩
      cases hq
      exact ahead_of_none rfl
    · split at h
      · cases h
        refine ⟨fun n => rfl, fun q hq => ?_⟩
        cases hq
        exact ahead_of_none rfl
      · next hversion =>
        cases h
        refine ⟨fun n => rfl, fun q hq => ?_⟩
        cases hq
        intro y hy
        cases hy
        have hle := (hinv.caches c.node).1
        rw [not_not.mp hversion] at hle
        exact Nat.le_succ_of_le hle
  | conflictLoad c attempt applied actual =>
    unfold step at h
    dsimp only at h
    split at h <;> cases h
    · refine ⟨fun n => rfl, fun q hq => ?_⟩
      cases hq
      exact ahead_of_none (pending_retry ..)
    · refine ⟨fun n => rfl, fun q hq => ?_⟩
      cases hq
      intro y hy
      cases hy
      exact (hinv.caches c.node).1
  | conflictCompare c attempt applied actual fetched =>
    unfold step at h
    dsimp only at h
    split at h <;> cases h
    · refine ⟨fun n => rfl, fun q hq => ?_⟩
      cases hq
      exact ahead_of_none (pending_retry ..)
    · refine ⟨fun n => rfl, fun q hq => ?_⟩
      cases hq
      exact hahead
  | unlock c applied result =>
    cases h
    exact ⟨setWriting_cached s c.node false, fun q hq => by cases hq⟩
  | refreshLoad node =>
    unfold step at h
    dsimp only at h
    split at h <;> cases h
    · exact ⟨fun n => rfl, fun q hq => by cases hq⟩
    · refine ⟨fun n => rfl, fun q hq => ?_⟩
      cases hq
      intro y hy
      cases hy
      exact (hinv.caches node).1
  | refreshCompare node fetched =>
    unfold step at h
    dsimp only at h
    split at h <;> cases h
    · exact ⟨fun n => rfl, fun q hq => by cases hq⟩
    · refine ⟨fun n => rfl, fun q hq => ?_⟩
      cases hq
      exact hahead

/-- A step that installs replaces the cache of one node by what it had from
the backend, and has nothing after it. -/
theorem step_installs {s s' : Shared ν} {p : Pc ν} {down : Option ControlPlaneError}
    {out : Outcome (Pc ν) Ret} (h : step s p down = some (s', out)) {x : ν × Snapshot}
    (hinstalls : p.installs = some x) :
    p.pending = some x ∧ (∀ q, out = .goes q → q.pending = none) ∧
      ∀ n, (s'.nodes n).cached = if n = x.1 then x.2 else (s.nodes n).cached := by
  cases p with
  | install c applied snapshot =>
    cases hinstalls
    cases h
    refine ⟨rfl, fun q hq => ?_, cache_cached s c.node snapshot⟩
    cases hq
    rfl
  | conflictInstall c attempt applied actual fetched =>
    cases hinstalls
    cases h
    refine ⟨rfl, fun q hq => ?_, cache_cached s c.node fetched⟩
    cases hq
    exact pending_retry ..
  | refreshInstall node fetched =>
    cases hinstalls
    cases h
    exact ⟨rfl, fun q hq => (by cases hq), cache_cached s node fetched⟩
  | lock | loadBase | write | conflictLoad | conflictCompare | unlock | refreshLoad
  | refreshCompare => cases hinstalls

section
variable {ι : Type} [DecidableEq ι] {first : Snapshot}

def Ordered (first : Snapshot) (s : State ι (Shared ν) (Pc ν)) : Prop :=
  Machine.Inv (NodesInv first) (fun s p => PcOk s p ∧ Ahead s p) s

/-- One step in order: what was pending stays ahead of the caches, and no
cache goes back. -/
theorem ordered_step {s s' : State ι (Shared ν) (Pc ν)}
    {a : Label ι (Call ν) (Option ControlPlaneError)} (hs : Ordered first s) (hok : InOrder s a)
    (hnext : machine.next s a = some s') :
    Ordered first s' ∧
      ∀ n, (s.shared.nodes n).cached.version ≤ (s'.shared.nodes n).cached.version := by
  refine ⟨Machine.inv_step hs ?_ ?_ hnext, ?_⟩
  · intro i call _ _
    cases call <;> exact ⟨trivial, ahead_of_none rfl⟩
  · intro i down p shared out ha hp hshared hpc hstep
    subst ha
    obtain ⟨hgrows, hcaches, hout⟩ := step_sound hstep hshared.caches hpc.1
    refine ⟨⟨hgrows.linked hshared.linked, hcaches⟩, ?_⟩
    cases hinstalls : p.installs with
    | none =>
      obtain ⟨hsame, hahead⟩ := step_keeps hstep hshared hpc.1 hpc.2 hinstalls
      refine ⟨fun q hq => ⟨hout q hq, hahead q hq⟩, fun j q _ _ hq => ⟨hq.1.mono hgrows, ?_⟩⟩
      intro y hy
      rw [hsame]
      exact hq.2 y hy
    | some x =>
      obtain ⟨_, hafter, hset⟩ := step_installs hstep hinstalls
      refine ⟨fun q hq => ⟨hout q hq, ahead_of_none (hafter q hq)⟩,
        fun j q hij hjq hq => ⟨hq.1.mono hgrows, ?_⟩⟩
      intro y hy
      rw [hset]
      by_cases hnode : y.1 = x.1
      · rw [if_pos hnode]
        exact hok p hp x hinstalls j hij q hjq y hy hnode
      · rw [if_neg hnode]
        exact hq.2 y hy
  · intro n
    rcases Machine.next_cases _ hnext with ⟨i, call, _, _, rfl⟩ |
      ⟨i, down, p, shared, out, _, hp, hstep, rfl⟩
    · exact le_rfl
    · have hpc := hs.thread i p hp
      dsimp only
      cases hinstalls : p.installs with
      | none => rw [(step_keeps hstep hs.shared hpc.1 hpc.2 hinstalls).1 n]
      | some x =>
        obtain ⟨hpending, _, hset⟩ := step_installs hstep hinstalls
        rw [hset]
        by_cases hnode : n = x.1
        · subst hnode
          rw [if_pos rfl]
          exact hpc.2 x hpending
        · rw [if_neg hnode]

/-- While snapshots are installed in order, no node's cached version
decreases. -/
theorem version_monotone {s s' : State ι (Shared ν) (Pc ν)}
    (h : Reach (machine.system (Starts first)) InOrder s)
    (h' : Reach ((machine.system (Starts first)).after s) InOrder s') (n : ν) :
    (s.shared.nodes n).cached.version ≤ (s'.shared.nodes n).cached.version := by
  have hs : Ordered first s := by
    refine h.invariant ?_ fun s a s' hs hok hnext => (ordered_step hs hok hnext).1
    rintro s ⟨shared, hstarts, rfl⟩
    have hstart : Reach (machine.system (Starts first)) free (Machine.initial shared :
        State ι (Shared ν) (Pc ν)) := .start ⟨shared, hstarts, rfl⟩
    exact ⟨(reach_nodes hstart).shared, fun i p hp => by cases hp⟩
  have hboth : Ordered first s' ∧
      (s.shared.nodes n).cached.version ≤ (s'.shared.nodes n).cached.version := by
    refine h'.invariant (I := fun t => Ordered first t ∧
      (s.shared.nodes n).cached.version ≤ (t.shared.nodes n).cached.version) ?_ ?_
    · intro t ht
      rw [show t = s from ht]
      exact ⟨hs, le_rfl⟩
    · intro t a t' ht hok hnext
      obtain ⟨hordered, hle⟩ := ordered_step ht.1 hok hnext
      exact ⟨hordered, ht.2.trans (hle n)⟩
  exact hboth.2

end

instance {ι : Type} [Fintype ι] [DecidableEq ι] (s : State ι (Shared ν) (Pc ν))
    (a : Label ι (Call ν) (Option ControlPlaneError)) : Decidable (InOrder s a) :=
  match a with
  | .step i _ => inferInstanceAs (Decidable (∀ p ∈ s.pc i, ∀ x ∈ p.installs, ∀ j, j ≠ i →
      ∀ q ∈ s.pc j, ∀ y ∈ q.pending, y.1 = x.1 → x.2.version ≤ y.2.version))
  | .invoke _ _ => isTrue trivial

/-- A refresh reads what its node's commit has just written, and finds it
installed. -/
def refreshAfter : List (Label Bool (Call Bool) (Option ControlPlaneError)) :=
  [.invoke true (.refresh false), .invoke false (.commit ⟨false, none, .putConfig "a"⟩),
    .step false none, .step false none, .step false none, .step true none, .step false none,
    .step true none]

theorem version_monotone_refresh_after :
    ∃ s : State Bool (Shared Bool) (Pc Bool), (s.shared.nodes false).cached.version = 1 ∧
      0 ≤ (s.shared.nodes false).cached.version := by
  have hstart : (machine.system (Starts ⟨StoreState.default, 0⟩)).init
      (Machine.initial emptyShared : State Bool (Shared Bool) (Pc Bool)) :=
    ⟨_, ⟨rfl, fun _ => rfl, rfl⟩, rfl⟩
  have hfrom := @Reach.of_trace _ _ InOrder (· = Machine.initial emptyShared) machine.next _ rfl
    refreshAfter (by decide) (by decide)
  exact ⟨_, by decide, version_monotone (.start hstart) hfrom false⟩

/-- A refresh has read version 0 when its node's commit installs version 1. -/
def refreshBefore : List (Label Bool (Call Bool) (Option ControlPlaneError)) :=
  [.invoke true (.refresh false), .step true none,
    .invoke false (.commit ⟨false, none, .putConfig "a"⟩), .step false none, .step false none,
    .step false none, .step false none, .step false none]

/-- **A refresh takes a node back.** It compares for inequality, and installs
what it read before the commit over what the commit installed. -/
theorem refresh_regresses :
    ¬ ∀ s s' : State Bool (Shared Bool) (Pc Bool),
      Reach (machine.system (Starts ⟨StoreState.default, 0⟩)) free s →
      Reach ((machine.system (Starts ⟨StoreState.default, 0⟩)).after s) free s' →
      ∀ n, (s.shared.nodes n).cached.version ≤ (s'.shared.nodes n).cached.version := by
  intro h
  have hstart : (machine.system (Starts ⟨StoreState.default, 0⟩)).init
      (Machine.initial emptyShared : State Bool (Shared Bool) (Pc Bool)) :=
    ⟨_, ⟨rfl, fun _ => rfl, rfl⟩, rfl⟩
  have hreach := Reach.of_trace free machine.next hstart refreshBefore (by decide) (by decide)
  have hfrom := @Reach.of_trace _ _ free (· = (run machine.next (Machine.initial emptyShared)
    refreshBefore).get (by decide)) machine.next _ rfl [.step true none, .step true none]
    (by decide) (by decide)
  exact absurd (h _ _ hreach hfrom false) (by decide)

end RapidRouter.Store.Node
