import Mathlib.Data.Rat.Floor
import Mathlib.Data.List.Infix
import RapidRouter.Lib.Debts
import RapidRouter.Usage.Extract

/-!
# Prices in force

`Pricing` of `router-server/src/usage.rs`, and the two writers of the one a node
has in force: `apply_config` and the price refresh (`spawn_price_refresher` and
the handler `refresh_pricing`, which do the same). Each knows one half.
`apply_config` stores the configuration's own prices with an empty catalog, and
a refresh loads what is in force, puts the catalog it fetched in, and stores the
outcome; neither takes a lock.

Both halves are what they should be once the calls have returned, as long as
each stores its own half in time and the other one's as it is (`Timely`). An
`apply_config` after a fetch does not (`apply_drops_catalog`).

Prices are rational numbers here.
-/

namespace RapidRouter.Server.Prices

open Interleave Lts RapidRouter.Usage

/-! ## Pricing -/

/-- USD per million tokens. -/
structure Price where
  inputPerMtok : ℚ
  outputPerMtok : ℚ
  deriving DecidableEq

/-- Public list prices, matched by the longest substring of the model name. -/
def builtinPrices : List (String × ℚ × ℚ) :=
  [("gpt-5-nano", 0.05, 0.40), ("gpt-5-mini", 0.25, 2.00), ("gpt-5-codex", 1.25, 10.00),
    ("gpt-5-chat", 1.25, 10.00), ("gpt-5", 1.25, 10.00), ("gpt-4.1-nano", 0.10, 0.40),
    ("gpt-4.1-mini", 0.40, 1.60), ("gpt-4.1", 2.00, 8.00), ("gpt-4o-mini", 0.15, 0.60),
    ("gpt-4o", 2.50, 10.00), ("gpt-4-turbo", 10.00, 30.00), ("gpt-3.5-turbo", 0.50, 1.50),
    ("o4-mini", 1.10, 4.40), ("o3-mini", 1.10, 4.40), ("o3-pro", 20.00, 80.00), ("o3", 2.00, 8.00),
    ("o1-mini", 1.10, 4.40), ("o1-pro", 150.00, 600.00), ("o1", 15.00, 60.00),
    ("text-embedding-3-large", 0.13, 0.0), ("text-embedding-3-small", 0.02, 0.0),
    ("claude-haiku-4-5", 1.00, 5.00), ("claude-3-5-haiku", 0.80, 4.00),
    ("claude-3-haiku", 0.25, 1.25), ("claude-haiku", 1.00, 5.00),
    ("claude-sonnet-4-5", 3.00, 15.00), ("claude-3-7-sonnet", 3.00, 15.00),
    ("claude-3-5-sonnet", 3.00, 15.00), ("claude-sonnet", 3.00, 15.00),
    ("claude-opus-4-1", 15.00, 75.00), ("claude-opus-4", 15.00, 75.00),
    ("claude-3-opus", 15.00, 75.00), ("claude-opus", 15.00, 75.00),
    ("gemini-2.5-flash-lite", 0.10, 0.40), ("gemini-2.5-flash", 0.30, 2.50),
    ("gemini-2.5-pro", 1.25, 10.00), ("gemini-2.0-flash-lite", 0.075, 0.30),
    ("gemini-2.0-flash", 0.10, 0.40), ("gemini-1.5-flash", 0.075, 0.30),
    ("gemini-1.5-pro", 1.25, 5.00), ("gemini-flash-lite", 0.10, 0.40), ("gemini-flash", 0.30, 2.50),
    ("gemini-pro", 1.25, 10.00), ("llama-3.3-70b", 0.59, 0.79), ("llama-3.1-405b", 3.50, 3.50),
    ("llama-3.1-70b", 0.59, 0.79), ("llama-3.1-8b", 0.05, 0.08), ("mistral-large", 2.00, 6.00),
    ("mistral-small", 0.20, 0.60), ("mixtral-8x7b", 0.24, 0.24), ("deepseek-reasoner", 0.55, 2.19),
    ("deepseek-chat", 0.27, 1.10), ("grok-4", 3.00, 15.00), ("grok-3-mini", 0.30, 0.50),
    ("grok-3", 3.00, 15.00)]

structure Pricing where
  overrides : OrdMap String Price
  /-- Prices fetched from a public catalog at runtime, keyed by the model id the
  catalog uses. -/
  catalog : OrdMap String Price

/-- `max_by_key`: of several greatest the last. -/
def maxByKey {α : Type} (key : α → Nat) (l : List α) : Option α :=
  l.foldl (fun best x =>
    match best with
    | some y => if key x < key y then some y else some x
    | none => some x) none

/-- `str::contains` -/
def contains (text needle : String) : Bool := decide (needle.toList <:+: text.toList)

/-- A catalog id after its last slash. -/
def bare (id : String) : String := String.ofList (id.toList.reverse.takeWhile (· ≠ '/')).reverse

namespace Pricing

/-- `from_config`, of the configuration's `[pricing]` entries. -/
def fromConfig (entries : OrdMap String Price) : Pricing := ⟨entries, .empty⟩

/-- Same pricing, with a freshly fetched catalog swapped in. -/
def withCatalog (p : Pricing) (catalog : OrdMap String Price) : Pricing := { p with catalog := catalog }

/-- The longest catalog key the model name contains, prefix apart. -/
def longestId (p : Pricing) (model : String) : Option Price :=
  (maxByKey (fun e => (bare e.1).utf8ByteSize)
    (p.catalog.entries.filter fun e => bare e.1 ≠ "" && contains model (bare e.1))).map (·.2)

def builtin (model : String) : Option Price :=
  (maxByKey (fun e => e.1.utf8ByteSize) (builtinPrices.filter fun e => contains model e.1)).map fun e =>
    ⟨e.2.1, e.2.2⟩

def priceFor (p : Pricing) (provider model : String) : Option Price :=
  p.overrides.get? (provider ++ "/" ++ model) <|> p.overrides.get? model <|>
    p.catalog.get? model <|> p.catalog.get? (provider ++ "/" ++ model) <|>
    p.longestId model <|> builtin model

/-- Cost in micro-USD: `tokens × usd-per-mtok` is exactly µUSD. -/
def costMicroUsd (p : Pricing) (provider model : String) (usage : TokenUsage) : Nat :=
  match p.priceFor provider model with
  | none => 0
  | some price =>
    let micro := usage.input * price.inputPerMtok + usage.output * price.outputPerMtok
    min ⌊max micro 0 + 1 / 2⌋.toNat (2 ^ 64 - 1)

/-- No catalog moves a price that is written down. -/
theorem priceFor_override {p : Pricing} {provider model : String} (catalog : OrdMap String Price)
    (h : (p.overrides.get? (provider ++ "/" ++ model)).isSome = true ∨
      (p.overrides.get? model).isSome = true) :
    (p.withCatalog catalog).priceFor provider model = p.priceFor provider model := by
  unfold priceFor withCatalog
  dsimp only
  cases hfull : p.overrides.get? (provider ++ "/" ++ model) with
  | some price => rfl
  | none =>
    cases hbare : p.overrides.get? model with
    | some price => rfl
    | none =>
      rw [hfull, hbare] at h
      rcases h with h | h <;> cases h

end Pricing

/-! ## The two writers -/

/-- A configuration, with its `[pricing]` entries. -/
structure Config where
  pricing : OrdMap String Price
  /-- The text of the rest. -/
  rest : String

structure AppState where
  config : Config
  pricing : Pricing
  /-- Ghost: the catalog of the latest fetch that did not fail. -/
  fetched : OrdMap String Price

/-- A refresh is given by what its fetch comes back with. -/
inductive Call where
  | applyConfig (config : Config)
  | refresh (result : Except String (OrdMap String Price))

inductive Pc where
  | storePricing (config : Config)
  | storeConfig (config : Config)
  | fetch (result : Except String (OrdMap String Price))
  | load (catalog : OrdMap String Price)
  | store (updated : Pricing)

def start : Call → Pc
  | .applyConfig config => .storePricing config
  | .refresh result => .fetch result

def step (s : AppState) (p : Pc) (_ : Unit) : Option (AppState × Interleave.Outcome Pc Unit) :=
  match p with
  | .storePricing config =>
    some ({ s with pricing := .fromConfig config.pricing }, .goes (.storeConfig config))
  | .storeConfig config => some ({ s with config := config }, .returns ())
  | .fetch (.error _) => some (s, .returns ())
  | .fetch (.ok catalog) => some ({ s with fetched := catalog }, .goes (.load catalog))
  | .load catalog => some (s, .goes (.store (s.pricing.withCatalog catalog)))
  | .store updated => some ({ s with pricing := updated }, .returns ())

def machine : Machine AppState Pc Call Unit Unit := ⟨start, step⟩

/-- A node starts with the prices of its configuration, before any fetch. -/
def Starts (s : AppState) : Prop := s.pricing = .fromConfig s.config.pricing ∧ s.fetched = .empty

/-! ## What each call owes -/

inductive Half where
  | overrides
  | catalog
  deriving DecidableEq

def InForce (s : AppState) : Half → Prop
  | .overrides => s.pricing.overrides = s.config.pricing
  | .catalog => s.pricing.catalog = s.fetched

def Pc.owes : Pc → Half → Prop
  | .storePricing _, half | .storeConfig _, half => half = .overrides
  | .load _, half | .store _, half => half = .catalog
  | .fetch _, _ => False

def debts : Debts AppState Pc Half := ⟨InForce, Pc.owes⟩

variable {ι : Type}

/-- The condition on one step: what a call stores is what is in force after it,
or another call is still to store it. -/
def TimelyAt (s : State ι AppState Pc) (i : ι) : Pc → Prop
  | .storePricing _ => s.shared.fetched = .empty ∨ debts.Elsewhere s i .catalog
  | .storeConfig config =>
    s.shared.pricing.overrides = config.pricing ∨ debts.Elsewhere s i .overrides
  | .store updated =>
    (updated.overrides = s.shared.config.pricing ∨ debts.Elsewhere s i .overrides) ∧
      (updated.catalog = s.shared.fetched ∨ debts.Elsewhere s i .catalog)
  | .fetch _ | .load _ => True

def Timely (s : State ι AppState Pc) : Label ι Call Unit → Prop
  | .step i _ => ∀ p ∈ s.pc i, TimelyAt s i p
  | .invoke _ _ => True

/-- One step, position by position. -/
theorem step_fate {s : State ι AppState Pc} {i : ι} {p : Pc} {shared : AppState}
    {out : Interleave.Outcome Pc Unit} (hstep : step s.shared p () = some (shared, out))
    (h : TimelyAt s i p) (half : Half) : debts.Fate s i p shared out half := by
  cases p with
  | storePricing config =>
    cases hstep
    cases half with
    | overrides => exact .owed rfl rfl
    | catalog =>
      rcases h with hnone | helse
      · exact .inForce hnone.symm
      · exact .elsewhere helse
  | storeConfig config =>
    cases hstep
    cases half with
    | overrides =>
      rcases h with hown | helse
      · exact .inForce hown
      · exact .elsewhere helse
    | catalog => exact .same id (by rintro ⟨⟩)
  | fetch result =>
    cases result with
    | error message =>
      cases hstep
      exact .same id id
    | ok catalog =>
      cases hstep
      cases half with
      | overrides => exact .same id id
      | catalog => exact .owed rfl rfl
  | load catalog =>
    cases hstep
    cases half with
    | overrides => exact .same id (by rintro ⟨⟩)
    | catalog => exact .owed rfl rfl
  | store updated =>
    cases hstep
    cases half with
    | overrides =>
      rcases h.1 with hsame | helse
      · exact .inForce hsame
      · exact .elsewhere helse
    | catalog =>
      rcases h.2 with hlatest | helse
      · exact .inForce hlatest
      · exact .elsewhere helse

variable [DecidableEq ι]

/-- Once all calls have returned, prices are those of the configuration in force
and of the latest catalog that was fetched. -/
theorem prices_in_force {s : State ι AppState Pc} (h : Reach (machine.system Starts) Timely s)
    (hidle : ∀ i, s.pc i = none) :
    s.shared.pricing = ⟨s.shared.config.pricing, s.shared.fetched⟩ ∧
      ∀ provider model usage, s.shared.pricing.costMicroUsd provider model usage =
        (Pricing.mk s.shared.config.pricing s.shared.fetched).costMicroUsd provider model usage := by
  have hcovered : debts.Covered s := by
    refine Reach.invariant (I := debts.Covered) ?_ ?_ h
    · rintro t ⟨shared, ⟨hpricing, hfetched⟩, rfl⟩
      refine Debts.covered_initial fun half => ?_
      cases half with
      | overrides => exact congrArg Pricing.overrides hpricing
      | catalog => exact (congrArg Pricing.catalog hpricing).trans hfetched.symm
    · intro t a t' ht htimely hnext
      refine Debts.covered_next ht (fun i choice p shared out ha hp hstep half => ?_) hnext
      subst ha
      exact step_fate hstep (htimely p hp) half
  have hoverrides : s.shared.pricing.overrides = s.shared.config.pricing := hcovered.idle hidle .overrides
  have hcatalog : s.shared.pricing.catalog = s.shared.fetched := hcovered.idle hidle .catalog
  have hpricing : s.shared.pricing = ⟨s.shared.config.pricing, s.shared.fetched⟩ := by
    rw [← hoverrides, ← hcatalog]
  exact ⟨hpricing, fun provider model usage => by rw [hpricing]⟩

/-! ## A configuration and a fetch -/

def negotiated : Config := ⟨OrdMap.empty.insert "openai/gpt-4o" ⟨2, 8⟩, "a negotiated rate"⟩

/-- A catalog with a model no built-in price matches. -/
def releasedToday : OrdMap String Price := OrdMap.empty.insert "sora-3" ⟨4, 16⟩

def booted : AppState := ⟨⟨.empty, "boot"⟩, .fromConfig .empty, .empty⟩

theorem starts_booted : (machine.system Starts).init (Machine.initial booted : State Unit AppState Pc) :=
  ⟨booted, ⟨rfl, rfl⟩, rfl⟩

/-- The configuration is applied, and then a catalog comes in. -/
def applyThenFetch : List (Label Unit Call Unit) :=
  [.invoke () (.applyConfig negotiated), .step () (), .step () (),
    .invoke () (.refresh (.ok releasedToday)), .step () (), .step () (), .step () ()]

/-- A catalog comes in, and then the configuration is applied. -/
def fetchThenApply : List (Label Unit Call Unit) :=
  [.invoke () (.refresh (.ok releasedToday)), .step () (), .step () (), .step () (),
    .invoke () (.applyConfig negotiated), .step () (), .step () ()]

theorem prices_in_force_fetched :
    ∃ s : State Unit AppState Pc, s.shared.config = negotiated ∧ s.shared.fetched = releasedToday ∧
      s.shared.pricing = ⟨s.shared.config.pricing, s.shared.fetched⟩ := by
  have htimely : Admitted Timely machine.next (Machine.initial booted) applyThenFetch := by
    refine ⟨trivial, ?_, ?_, trivial, ?_, ?_, ?_, trivial⟩
    · rintro p ⟨⟩
      exact .inl rfl
    · rintro p ⟨⟩
      exact .inl rfl
    · rintro p ⟨⟩
      trivial
    · rintro p ⟨⟩
      trivial
    · rintro p ⟨⟩
      exact ⟨.inl rfl, .inl rfl⟩
  have hreach := Reach.of_trace Timely machine.next starts_booted applyThenFetch htimely rfl
  exact ⟨_, rfl, rfl, (prices_in_force hreach fun _ => rfl).1⟩

/-- **A configuration change drops the fetched prices.** Both calls have
returned, and the model of the catalog has no price. -/
theorem apply_drops_catalog :
    ¬∀ s : State Unit AppState Pc, Reach (machine.system Starts) free s → (∀ i, s.pc i = none) →
      s.shared.pricing = ⟨s.shared.config.pricing, s.shared.fetched⟩ := by
  intro hall
  have hreach := Reach.of_trace free machine.next starts_booted fetchThenApply (by decide) rfl
  have hpricing := hall _ hreach fun _ => rfl
  have hcatalog : (OrdMap.empty : OrdMap String Price) = releasedToday := congrArg Pricing.catalog hpricing
  have hprice := congrArg (fun catalog => (OrdMap.get? catalog "sora-3").isSome) hcatalog
  exact absurd hprice (by decide)

end RapidRouter.Server.Prices
