import RapidRouter.Lib.Interleave
import RapidRouter.Core.VKey
import RapidRouter.Store.State

/-!
# Adopting the document

`adopt_store_state`, `refresh_vkeys` and `apply_config` of
`router-server/src/lib.rs`, and what calls them on one node: the handlers
after a commit, the refresher, the heartbeat and the file reload. Each load
and each swap is a step of its own, so the calls interleave as they like.

What should be in force once the calls have returned follows from the
document alone (`wanted`, `wantedKeys`). A call *owes* the parts it has yet to
swap in; a part is then in force, or some call owes it (`Covered`), as long as
calls do what they do in time (`Timely`). They need not: a text that does not
parse leaves the old keys live (`revoked_key_live`).
-/

namespace RapidRouter.Server.Adopt

open Interleave Lts RapidRouter.Core Store

/-- Where the text of a configuration is from. -/
inductive Source where
  | store (text : String)
  | file (text : String)
  deriving DecidableEq

/-- What a node makes of a configuration: the loader, given the sealed
secrets, and the tables built from what it loads. -/
structure Builder (γ τ π : Type) where
  parse : OrdMap String String → Source → Option γ
  virtualKeys : γ → List VirtualKeyDef
  routing : γ → τ
  pricing : γ → π

/-- `VkTable`, without the enforcement state it carries over. -/
structure VkTable where
  byId : OrdMap String VirtualKeyDef
  shares : Nat
  deriving DecidableEq

/-- `VkTable::build_with_shares`. -/
def VkTable.buildWithShares (defs : List VirtualKeyDef) (shares : Nat) : VkTable :=
  ⟨defs.foldl (fun byId d => byId.insert d.id d) .empty, max shares 1⟩

structure AppState (γ τ π : Type) where
  snapshot : Snapshot
  liveNodes : Nat
  appliedText : Option String
  config : γ
  table : τ
  vkeys : VkTable
  pricing : π
  /-- Ghosts: the texts the node has been given, the latest first, and the
  configuration it started with. -/
  given : List Source
  boot : γ

/-- What a caller does after the document moved. -/
inductive Follow where
  | nothing
  | refreshVkeys
  | adopt
  deriving DecidableEq

/-- A commit is given by the documents its lost races fetch and the one it
writes in the end, if it does not fail. -/
inductive Call where
  | commit (command : Command) (fetched : List Snapshot) (written : Option Snapshot)
  | poll (fetched : Snapshot)
  | beat (live : Nat)
  | reload (text : String)

inductive Pc (γ : Type) where
  | commit (follow : Follow) (fetched : List Snapshot) (written : Option Snapshot)
  | commitInstall (follow : Follow) (snapshot : Snapshot) (rest : List Snapshot)
      (written : Option Snapshot)
  | poll (fetched : Snapshot)
  | pollInstall (fetched : Snapshot)
  | beat (live : Nat)
  | reload (text : String)
  | adoptRead
  | adoptCompare (text : String)
  | adoptParse (text : String)
  | adoptSetText (text : String) (config : γ)
  | applyCollect (config : γ)
  | applyVkeys (config : γ) (defs : List VirtualKeyDef)
  | applyPricing (config : γ)
  | applyTable (config : γ)
  | applyConfig (config : γ)
  | refreshLoad
  | refreshCollect (config : γ)
  | refreshVkeys (defs : List VirtualKeyDef)

/-- What the handlers do after a commit of theirs: the configuration's adopt
it, the keys' rebuild the key table, the others do nothing. -/
def Follow.after : Command → Follow
  | .putConfig _ => .adopt
  | .putVirtualKey _ | .deleteVirtualKey _ => .refreshVkeys
  | .putSecret _ _ | .deleteSecret _ | .putSetting _ _ | .deleteSetting _ | .putUser _
  | .deleteUser _ | .putTeam _ | .deleteTeam _ => .nothing

variable {γ τ π : Type} (B : Builder γ τ π)

/-- `collect_defs`: the configuration's keys, and the store's over them. -/
def collectDefs (config : γ) (state : StoreState) : List VirtualKeyDef :=
  let byId := (B.virtualKeys config).foldl (fun byId d => byId.insert d.id d) OrdMap.empty
  (state.virtualKeys.values.foldl (fun byId d => byId.insert d.id d) byId).values

def start : Call → Pc γ
  | .commit command fetched written =>
    .commit (if written.isSome then .after command else .nothing) fetched written
  | .poll fetched => .poll fetched
  | .beat live => .beat live
  | .reload text => .reload text

def Follow.goes : Follow → Interleave.Outcome (Pc γ) Unit
  | .nothing => .returns ()
  | .refreshVkeys => .goes .refreshLoad
  | .adopt => .goes .adoptRead

/-- The node's copy of the document moves. -/
def AppState.install (s : AppState γ τ π) (x : Snapshot) : AppState γ τ π :=
  { s with
    snapshot := x
    given :=
      if x.state.configText = s.snapshot.state.configText then s.given
      else
        match x.state.configText with
        | some text => .store text :: s.given
        | none => s.given }

def step (s : AppState γ τ π) (p : Pc γ) (_ : Unit) :
    Option (AppState γ τ π × Interleave.Outcome (Pc γ) Unit) :=
  match p with
  | .commit follow (x :: rest) written =>
    if x.version = s.snapshot.version then some (s, .goes (.commit follow rest written))
    else some (s, .goes (.commitInstall follow x rest written))
  | .commit _ [] none => some (s, .returns ())
  | .commit follow [] (some x) => some (s.install x, follow.goes)
  | .commitInstall follow x rest written => some (s.install x, .goes (.commit follow rest written))
  | .poll x =>
    if x.version = s.snapshot.version then some (s, .returns ())
    else some (s, .goes (.pollInstall x))
  | .pollInstall x => some (s.install x, .goes .adoptRead)
  | .beat live => some ({ s with liveNodes := live }, .goes .refreshLoad)
  | .reload text =>
    let s' := { s with given := .file text :: s.given }
    match B.parse s.snapshot.state.secrets (.file text) with
    | some config => some (s', .goes (.applyCollect config))
    -- The previous configuration is kept.
    | none => some (s', .returns ())
  | .adoptRead =>
    match s.snapshot.state.configText with
    | none => some (s, .goes .refreshLoad)
    | some text => some (s, .goes (.adoptCompare text))
  | .adoptCompare text =>
    if s.appliedText = some text then some (s, .goes .refreshLoad)
    else some (s, .goes (.adoptParse text))
  | .adoptParse text =>
    match B.parse s.snapshot.state.secrets (.store text) with
    | some config => some (s, .goes (.adoptSetText text config))
    -- Kept out rather than applied, and nothing else is done.
    | none => some (s, .returns ())
  | .adoptSetText text config => some ({ s with appliedText := some text }, .goes (.applyCollect config))
  | .applyCollect config =>
    some (s, .goes (.applyVkeys config (collectDefs B config s.snapshot.state)))
  | .applyVkeys config defs =>
    some ({ s with vkeys := .buildWithShares defs s.liveNodes }, .goes (.applyPricing config))
  | .applyPricing config => some ({ s with pricing := B.pricing config }, .goes (.applyTable config))
  | .applyTable config => some ({ s with table := B.routing config }, .goes (.applyConfig config))
  | .applyConfig config => some ({ s with config := config }, .returns ())
  | .refreshLoad => some (s, .goes (.refreshCollect s.config))
  | .refreshCollect config =>
    some (s, .goes (.refreshVkeys (collectDefs B config s.snapshot.state)))
  | .refreshVkeys defs => some ({ s with vkeys := .buildWithShares defs s.liveNodes }, .returns ())

def machine : Machine (AppState γ τ π) (Pc γ) Call Unit Unit := ⟨start, step B⟩

/-! ## What should be in force -/

/-- The configuration of the last text that parses with the secrets as they
are. -/
def wanted (s : AppState γ τ π) : γ :=
  (s.given.findSome? (B.parse s.snapshot.state.secrets)).getD s.boot

/-- The live keys: that configuration's and the document's. -/
def wantedKeys (s : AppState γ τ π) : OrdMap String VirtualKeyDef :=
  (VkTable.buildWithShares (collectDefs B (wanted B s) s.snapshot.state) s.liveNodes).byId

inductive Part where
  | keys
  | pricing
  | table
  | config
  deriving DecidableEq

instance : Fintype Part := ⟨{.keys, .pricing, .table, .config}, by rintro (_ | _ | _ | _) <;> decide⟩

def InForce (s : AppState γ τ π) : Part → Prop
  | .keys => s.vkeys.byId = wantedKeys B s
  | .pricing => s.pricing = B.pricing (wanted B s)
  | .table => s.table = B.routing (wanted B s)
  | .config => s.config = wanted B s

/-- A node starts with everything built from its first configuration. -/
def Starts (s : AppState γ τ π) : Prop := s.appliedText = none ∧ ∀ part, InForce B s part

/-! ## What the calls owe -/

def Follow.owes : Follow → Part → Bool
  | .nothing, _ => false
  | .refreshVkeys, part => part = .keys
  | .adopt, _ => true

/-- The parts a call swaps in before it returns, unless it gives up. -/
def Pc.owes : Pc γ → Part → Bool
  | .commit follow _ (some _), part | .commitInstall follow _ _ (some _), part => follow.owes part
  | .commit _ _ none, _ | .commitInstall _ _ _ none, _ | .poll _, _ | .reload _, _ => false
  | .pollInstall _, _ | .adoptRead, _ | .adoptCompare _, _ | .adoptParse _, _
  | .adoptSetText _ _, _ | .applyCollect _, _ | .applyVkeys _ _, _ => true
  | .applyPricing _, part => part ≠ .keys
  | .applyTable _, part => part = .table || part = .config
  | .applyConfig _, part => part = .config
  | .beat _, part | .refreshLoad, part | .refreshCollect _, part | .refreshVkeys _, part =>
    part = .keys

variable {ι : Type}

def Elsewhere (s : State ι (AppState γ τ π) (Pc γ)) (i : ι) (part : Part) : Prop :=
  ∃ j, j ≠ i ∧ ∃ q ∈ s.pc j, q.owes part = true

/-- In force already, or another call is still to swap it in. -/
def Settled (s : State ι (AppState γ τ π) (Pc γ)) (i : ι) (part : Part) : Prop :=
  InForce B s.shared part ∨ Elsewhere s i part

/-- A document nobody adopts configures what the one before it did, and one
after which the keys are not rebuilt has the same keys. -/
def Leaves (s : AppState γ τ π) (x : Snapshot) : Follow → Prop
  | .adopt => True
  | .refreshVkeys => wanted B (s.install x) = wanted B s
  | .nothing => wanted B (s.install x) = wanted B s ∧
      x.state.virtualKeys = s.snapshot.state.virtualKeys

/-- The condition on one step: what a call leaves as it is needs no change,
and what it swaps in has not been overtaken. -/
def TimelyAt (s : State ι (AppState γ τ π) (Pc γ)) (i : ι) : Pc γ → Prop
  | .commit follow [] (some x) | .commitInstall follow x _ (some _) => Leaves B s.shared x follow
  | .commitInstall _ x _ none => Leaves B s.shared x .nothing
  | .adoptRead =>
    s.shared.snapshot.state.configText = none → ∀ part, part ≠ .keys → Settled B s i part
  | .adoptCompare text =>
    s.shared.appliedText = some text → ∀ part, part ≠ .keys → Settled B s i part
  | .adoptParse text =>
    B.parse s.shared.snapshot.state.secrets (.store text) = none → ∀ part, Settled B s i part
  | .applyVkeys _ defs | .refreshVkeys defs =>
    (VkTable.buildWithShares defs s.shared.liveNodes).byId = wantedKeys B s.shared
  | .applyPricing config | .applyTable config | .applyConfig config => config = wanted B s.shared
  | .commit _ _ _ | .poll _ | .pollInstall _ | .beat _ | .reload _ | .adoptSetText _ _
  | .applyCollect _ | .refreshLoad | .refreshCollect _ => True

def Timely (s : State ι (AppState γ τ π) (Pc γ)) : Label ι Call Unit → Prop
  | .step i _ => ∀ p ∈ s.pc i, TimelyAt B s i p
  | .invoke _ _ => True

/-- Every part is in force, or owed by some call. -/
def Covered (s : State ι (AppState γ τ π) (Pc γ)) : Prop :=
  ∀ part, InForce B s.shared part ∨ ∃ i, ∃ p ∈ s.pc i, p.owes part = true

variable {B}

theorem collectDefs_congr {config : γ} {state state' : StoreState}
    (h : state.virtualKeys = state'.virtualKeys) :
    collectDefs B config state = collectDefs B config state' := by
  unfold collectDefs
  rw [h]

theorem InForce.install {s : AppState γ τ π} {x : Snapshot} {part : Part} (h : InForce B s part)
    (hwanted : wanted B (s.install x) = wanted B s)
    (hkeys : part = .keys → x.state.virtualKeys = s.snapshot.state.virtualKeys) :
    InForce B (s.install x) part := by
  cases part with
  | keys =>
    show s.vkeys.byId = wantedKeys B (s.install x)
    have hsame : wantedKeys B (s.install x) = wantedKeys B s := by
      unfold wantedKeys
      rw [hwanted]
      show (VkTable.buildWithShares (collectDefs B _ x.state) _).byId = _
      rw [collectDefs_congr (hkeys rfl)]
      rfl
    exact Eq.trans h hsame.symm
  | pricing => exact Eq.trans h (congrArg B.pricing hwanted.symm)
  | table => exact Eq.trans h (congrArg B.routing hwanted.symm)
  | config => exact Eq.trans h hwanted.symm

/-- What becomes of a part at a step that was `Timely`. -/
inductive Fate (B : Builder γ τ π) (s : State ι (AppState γ τ π) (Pc γ)) (i : ι) (p : Pc γ)
    (shared : AppState γ τ π) (out : Interleave.Outcome (Pc γ) Unit) (part : Part) : Prop where
  | owed {q : Pc γ} : out = .goes q → q.owes part = true → Fate B s i p shared out part
  | inForce : InForce B shared part → Fate B s i p shared out part
  | same : (InForce B s.shared part → InForce B shared part) →
      (p.owes part = true → Elsewhere s i part) → Fate B s i p shared out part

theorem Settled.fate {s : State ι (AppState γ τ π) (Pc γ)} {i : ι} {p : Pc γ}
    {out : Interleave.Outcome (Pc γ) Unit} {part : Part} (h : Settled B s i part) :
    Fate B s i p s.shared out part := by
  rcases h with h | h
  · exact .inForce h
  · exact .same id fun _ => h

/-- What a document leaves when it moves before `follow`. -/
theorem fate_install {s : State ι (AppState γ τ π) (Pc γ)} {i : ι} {p : Pc γ} {x : Snapshot}
    {follow : Follow} {out : Interleave.Outcome (Pc γ) Unit} (h : Leaves B s.shared x follow) (part : Part)
    (howes : p.owes part = follow.owes part)
    (hout : follow.owes part = true → ∃ q, out = .goes q ∧ q.owes part = true) :
    Fate B s i p (s.shared.install x) out part := by
  cases hfollow : follow.owes part with
  | true =>
    obtain ⟨q, hq, hqowes⟩ := hout hfollow
    exact .owed hq hqowes
  | false =>
    refine .same (fun hin => ?_) fun hp => ?_
    · cases follow with
      | adopt => cases hfollow
      | refreshVkeys =>
        refine hin.install h fun hkeys => ?_
        subst hkeys
        cases hfollow
      | nothing => exact hin.install h.1 fun _ => h.2
    · rw [howes, hfollow] at hp
      cases hp

theorem wanted_given {s : AppState γ τ π} {source : Source} :
    wanted B { s with given := source :: s.given } =
      (B.parse s.snapshot.state.secrets source).getD (wanted B s) := by
  unfold wanted
  dsimp only
  rw [List.findSome?_cons]
  cases B.parse s.snapshot.state.secrets source <;> rfl

theorem Follow.goes_owes {follow : Follow} {part : Part} (h : follow.owes part = true) :
    ∃ q, (follow.goes : Interleave.Outcome (Pc γ) Unit) = .goes q ∧ q.owes part = true := by
  cases follow with
  | nothing => cases h
  | refreshVkeys => exact ⟨_, rfl, h⟩
  | adopt => exact ⟨_, rfl, rfl⟩

/-- One step, position by position. -/
theorem step_fate {s : State ι (AppState γ τ π) (Pc γ)} {i : ι} {p : Pc γ}
    {shared : AppState γ τ π} {out : Interleave.Outcome (Pc γ) Unit}
    (hstep : step B s.shared p () = some (shared, out)) (h : TimelyAt B s i p) (part : Part) :
    Fate B s i p shared out part := by
  cases p with
  | commit follow fetched written =>
    cases fetched with
    | nil =>
      cases written with
      | none =>
        cases hstep
        exact .same id fun hp => by cases hp
      | some x =>
        cases hstep
        exact fate_install h part rfl Follow.goes_owes
    | cons x rest =>
      unfold step at hstep
      dsimp only at hstep
      cases written with
      | none =>
        split at hstep <;> cases hstep <;> exact .same id fun hp => by cases hp
      | some y =>
        cases howes : follow.owes part with
        | true =>
          split at hstep <;> cases hstep
          · exact .owed rfl howes
          · exact .owed rfl howes
        | false =>
          split at hstep <;> cases hstep <;>
            exact .same id fun hp => absurd (hp.symm.trans howes) Bool.noConfusion
  | commitInstall follow x rest written =>
    cases hstep
    cases written with
    | none =>
      have hnothing : Leaves B s.shared x .nothing := h
      exact fate_install hnothing part rfl fun hnone => by cases hnone
    | some y => exact fate_install h part rfl fun howes => ⟨_, rfl, howes⟩
  | poll x =>
    unfold step at hstep
    dsimp only at hstep
    split at hstep <;> cases hstep
    · exact .same id fun hp => by cases hp
    · exact .owed rfl rfl
  | pollInstall x =>
    cases hstep
    exact .owed rfl rfl
  | beat live =>
    cases hstep
    cases part with
    | keys => exact .owed rfl rfl
    | pricing | table | config => exact .same id fun hp => by cases hp
  | reload text =>
    unfold step at hstep
    dsimp only at hstep
    split at hstep
    · cases hstep
      exact .owed rfl rfl
    · next hparse =>
      cases hstep
      have hwanted : wanted B { s.shared with given := .file text :: s.shared.given } =
          wanted B s.shared := by
        rw [wanted_given, hparse]
        rfl
      refine .same (fun hin => ?_) fun hp => by cases hp
      cases part with
      | keys =>
        show s.shared.vkeys.byId = wantedKeys B _
        unfold wantedKeys
        rw [hwanted]
        exact hin
      | pricing => exact Eq.trans hin (congrArg B.pricing hwanted.symm)
      | table => exact Eq.trans hin (congrArg B.routing hwanted.symm)
      | config => exact Eq.trans hin hwanted.symm
  | adoptRead =>
    unfold step at hstep
    dsimp only at hstep
    split at hstep
    · next hnone =>
      cases hstep
      cases part with
      | keys => exact .owed rfl rfl
      | pricing | table | config => exact (h hnone _ (by decide)).fate
    · cases hstep
      exact .owed rfl rfl
  | adoptCompare text =>
    unfold step at hstep
    dsimp only at hstep
    split at hstep
    · next hsame =>
      cases hstep
      cases part with
      | keys => exact .owed rfl rfl
      | pricing | table | config => exact (h hsame _ (by decide)).fate
    · cases hstep
      exact .owed rfl rfl
  | adoptParse text =>
    unfold step at hstep
    dsimp only at hstep
    split at hstep
    · cases hstep
      exact .owed rfl rfl
    · next hparse =>
      cases hstep
      exact (h hparse part).fate
  | adoptSetText text config =>
    cases hstep
    exact .owed rfl rfl
  | applyCollect config =>
    cases hstep
    exact .owed rfl rfl
  | applyVkeys config defs =>
    cases hstep
    cases part with
    | keys => exact .inForce h
    | pricing | table | config => exact .owed rfl rfl
  | applyPricing config =>
    cases hstep
    cases part with
    | keys => exact .same id fun hp => by cases hp
    | pricing => exact .inForce (congrArg B.pricing h)
    | table | config => exact .owed rfl rfl
  | applyTable config =>
    cases hstep
    cases part with
    | keys | pricing => exact .same id fun hp => by cases hp
    | table => exact .inForce (congrArg B.routing h)
    | config => exact .owed rfl rfl
  | applyConfig config =>
    cases hstep
    cases part with
    | keys | pricing | table => exact .same id fun hp => by cases hp
    | config => exact .inForce h
  | refreshLoad =>
    cases hstep
    cases part with
    | keys => exact .owed rfl rfl
    | pricing | table | config => exact .same id fun hp => by cases hp
  | refreshCollect config =>
    cases hstep
    cases part with
    | keys => exact .owed rfl rfl
    | pricing | table | config => exact .same id fun hp => by cases hp
  | refreshVkeys defs =>
    cases hstep
    cases part with
    | keys => exact .inForce h
    | pricing | table | config => exact .same id fun hp => by cases hp

variable [DecidableEq ι]

instance [DecidableEq γ] [DecidableEq τ] [DecidableEq π] (s : AppState γ τ π) (part : Part) :
    Decidable (InForce B s part) :=
  match part with
  | .keys => inferInstanceAs (Decidable (_ = _))
  | .pricing => inferInstanceAs (Decidable (_ = _))
  | .table => inferInstanceAs (Decidable (_ = _))
  | .config => inferInstanceAs (Decidable (_ = _))

instance [DecidableEq γ] (s : AppState γ τ π) (x : Snapshot) (follow : Follow) :
    Decidable (Leaves B s x follow) :=
  match follow with
  | .adopt => isTrue trivial
  | .refreshVkeys => inferInstanceAs (Decidable (_ = _))
  | .nothing => inferInstanceAs (Decidable (_ ∧ _))

instance [Fintype ι] [DecidableEq γ] [DecidableEq τ] [DecidableEq π]
    (s : State ι (AppState γ τ π) (Pc γ)) (i : ι) (part : Part) : Decidable (Settled B s i part) :=
  inferInstanceAs (Decidable (_ ∨ ∃ j, j ≠ i ∧ ∃ q ∈ s.pc j, q.owes part = true))

instance [Fintype ι] [DecidableEq γ] [DecidableEq τ] [DecidableEq π]
    (s : State ι (AppState γ τ π) (Pc γ)) (i : ι) (p : Pc γ) : Decidable (TimelyAt B s i p) :=
  match p with
  | .commit follow [] (some x) => inferInstanceAs (Decidable (Leaves B s.shared x follow))
  | .commitInstall follow x _ (some _) => inferInstanceAs (Decidable (Leaves B s.shared x follow))
  | .commitInstall _ x _ none => inferInstanceAs (Decidable (Leaves B s.shared x .nothing))
  | .adoptRead => inferInstanceAs (Decidable (_ = _ → ∀ part, _ → Settled B s i part))
  | .adoptCompare _ => inferInstanceAs (Decidable (_ = _ → ∀ part, _ → Settled B s i part))
  | .adoptParse _ => inferInstanceAs (Decidable (_ = _ → ∀ part, Settled B s i part))
  | .applyVkeys _ _ => inferInstanceAs (Decidable (_ = _))
  | .refreshVkeys _ => inferInstanceAs (Decidable (_ = _))
  | .applyPricing _ => inferInstanceAs (Decidable (_ = _))
  | .applyTable _ => inferInstanceAs (Decidable (_ = _))
  | .applyConfig _ => inferInstanceAs (Decidable (_ = _))
  | .commit _ [] none | .commit _ (_ :: _) _ | .poll _ | .pollInstall _ | .beat _ | .reload _
  | .adoptSetText _ _ | .applyCollect _ | .refreshLoad | .refreshCollect _ => isTrue trivial

instance [Fintype ι] [DecidableEq γ] [DecidableEq τ] [DecidableEq π]
    (s : State ι (AppState γ τ π) (Pc γ)) (a : Label ι Call Unit) : Decidable (Timely B s a) :=
  match a with
  | .step i _ => inferInstanceAs (Decidable (∀ p ∈ s.pc i, TimelyAt B s i p))
  | .invoke _ _ => isTrue trivial

/-- A configuration that stands by itself, and one that needs the token. -/
def tokenBuilder : Builder (String × Option String) String String where
  parse secrets
    | .store text | .file text =>
      if text = "plain" then some (text, none)
      else (secrets.get? "token").map fun token => (text, some token)
  virtualKeys _ := []
  routing := Prod.fst
  pricing := Prod.fst

def callerKey : VirtualKeyDef :=
  ⟨"k1", "caller", "hash", none, [], none, none, none, none, .empty, true, 0⟩

/-- A document with the key in it, and no configuration yet. -/
def withKey : StoreState := StoreState.default.apply (.putVirtualKey callerKey)

def booted : AppState (String × Option String) String String :=
  ⟨⟨withKey, 1⟩, 1, none, ("boot", none), "boot", .buildWithShares [callerKey] 1, "boot", [],
    ("boot", none)⟩

theorem starts_booted : Starts tokenBuilder booted := by
  refine ⟨rfl, ?_⟩
  rintro (_ | _ | _ | _) <;> decide

end RapidRouter.Server.Adopt
