import RapidRouter.Core.Reload

/-!
# Where a session sits

`pinned_seat` of `router-core/src/router.rs` ranks the seats on offer by the
score of the session on each. As long as no two scores are equal the seat is
the one that outscores every other (`pinnedSeat_iff`), whatever the order of
the pool: what follows about reordering, removing and adding seats, and about
a reload that does any of these, is read off that.
-/

namespace RapidRouter.Core.Live

variable {κ : Type} (sel : Selection κ) {session : String}

/-! ## The seat that outscores every other -/

/-- The last seat of the pool is compared with the best of those before it. -/
theorem pinnedSeat_concat (keys : List KeyRuntime) (k : KeyRuntime) :
    pinnedSeat sel session (keys ++ [k]) =
      match pinnedSeat sel session keys with
      | none => some k
      | some b => if sel.score session b.name ≤ sel.score session k.name then some k else some b := by
  unfold pinnedSeat
  rw [List.foldl_append]
  rfl

/-- A session has a seat unless there is none to have. -/
theorem pinnedSeat_eq_none {keys : List KeyRuntime} :
    pinnedSeat sel session keys = none ↔ keys = [] := by
  constructor
  · intro hnone
    rcases List.eq_nil_or_concat keys with hnil | ⟨front, last, rfl⟩
    · exact hnil
    · rw [List.concat_eq_append, pinnedSeat_concat] at hnone
      split at hnone
      · cases hnone
      · split at hnone <;> cases hnone
  · rintro rfl
    rfl

/-- No seat on offer outscores it. -/
theorem pinnedSeat_max {keys : List KeyRuntime} : ∀ {k : KeyRuntime},
    pinnedSeat sel session keys = some k →
      ∀ c ∈ keys, sel.score session c.name ≤ sel.score session k.name := by
  induction keys using List.reverseRecOn with
  | nil =>
    intro k hpin
    cases hpin
  | append_singleton front last ih =>
    intro k hpin c hc
    rw [pinnedSeat_concat] at hpin
    rw [List.mem_append, List.mem_singleton] at hc
    cases hfront : pinnedSeat sel session front with
    | none =>
      rw [hfront] at hpin
      cases hpin
      rcases hc with hc | rfl
      · rw [(pinnedSeat_eq_none sel).mp hfront] at hc
        cases hc
      · exact le_rfl
    | some best =>
      rw [hfront] at hpin
      dsimp only at hpin
      have hbest := ih hfront
      by_cases hbeats : sel.score session best.name ≤ sel.score session last.name
      · rw [if_pos hbeats] at hpin
        cases hpin
        rcases hc with hc | rfl
        · exact (hbest c hc).trans hbeats
        · exact le_rfl
      · rw [if_neg hbeats] at hpin
        cases hpin
        rcases hc with hc | rfl
        · exact hbest c hc
        · omega

/-- No two seats score alike for the session, so no two have one name. -/
def Distinct (session : String) (keys : List KeyRuntime) : Prop :=
  (keys.map fun k => sel.score session k.name).Nodup

instance (session : String) (keys : List KeyRuntime) : Decidable (Distinct sel session keys) :=
  inferInstanceAs (Decidable (List.Nodup _))

variable {sel}

theorem Distinct.perm {xs ys : List KeyRuntime} (hdistinct : Distinct sel session xs)
    (hperm : xs.Perm ys) : Distinct sel session ys :=
  (hperm.map _).nodup_iff.mp hdistinct

theorem Distinct.sublist {xs ys : List KeyRuntime} (hdistinct : Distinct sel session ys)
    (hsub : xs.Sublist ys) : Distinct sel session xs :=
  List.Nodup.sublist (hsub.map _) hdistinct

/-- Its score tells a seat from the others. -/
theorem Distinct.eq {keys : List KeyRuntime} (hdistinct : Distinct sel session keys)
    {a b : KeyRuntime} (ha : a ∈ keys) (hb : b ∈ keys)
    (hscore : sel.score session a.name = sel.score session b.name) : a = b :=
  List.inj_on_of_nodup_map hdistinct ha hb hscore

/-- The pin says nothing about the order of the seats. -/
theorem pinnedSeat_iff {keys : List KeyRuntime} (hdistinct : Distinct sel session keys)
    {k : KeyRuntime} : pinnedSeat sel session keys = some k ↔
      k ∈ keys ∧ ∀ c ∈ keys, sel.score session c.name ≤ sel.score session k.name := by
  constructor
  · intro hpin
    exact ⟨pinnedSeat_mem sel hpin, pinnedSeat_max sel hpin⟩
  · rintro ⟨hmem, hmax⟩
    cases hpin : pinnedSeat sel session keys with
    | none =>
      rw [(pinnedSeat_eq_none sel).mp hpin] at hmem
      cases hmem
    | some best =>
      have hup := pinnedSeat_max sel hpin k hmem
      have hdown := hmax best (pinnedSeat_mem sel hpin)
      rw [hdistinct.eq (pinnedSeat_mem sel hpin) hmem (le_antisymm hdown hup)]

/-! ## Pools that differ -/

/-- The seats in another order. -/
theorem pinnedSeat_perm {xs ys : List KeyRuntime} (hdistinct : Distinct sel session xs)
    (hperm : xs.Perm ys) : pinnedSeat sel session ys = pinnedSeat sel session xs := by
  cases hpin : pinnedSeat sel session xs with
  | none =>
    rw [(pinnedSeat_eq_none sel).mp hpin] at hperm
    exact (pinnedSeat_eq_none sel).mpr hperm.nil_eq.symm
  | some k =>
    rw [pinnedSeat_iff (hdistinct.perm hperm)]
    obtain ⟨hmem, hmax⟩ := (pinnedSeat_iff hdistinct).mp hpin
    exact ⟨hperm.mem_iff.mp hmem, fun c hc => hmax c (hperm.mem_iff.mpr hc)⟩

/-- Between any two pools: a session stays where it is, unless its seat went
or a seat it moves to is new. -/
theorem pinnedSeat_stays {xs ys : List KeyRuntime} {k c : KeyRuntime}
    (hdistinct : Distinct sel session ys) (hx : pinnedSeat sel session xs = some k)
    (hy : pinnedSeat sel session ys = some c) (hkept : k ∈ ys) (hold : c ∈ xs) : c = k := by
  have hup := pinnedSeat_max sel hx c hold
  have hdown := pinnedSeat_max sel hy k hkept
  exact hdistinct.eq (pinnedSeat_mem sel hy) hkept (le_antisymm hup hdown)

/-- Some seats leave, and that of the session is not among them. -/
theorem pinnedSeat_filter {keys : List KeyRuntime} (stays : KeyRuntime → Bool)
    (hdistinct : Distinct sel session keys)
    (hstays : ∀ k, pinnedSeat sel session keys = some k → stays k = true) :
    pinnedSeat sel session (keys.filter stays) = pinnedSeat sel session keys := by
  cases hpin : pinnedSeat sel session keys with
  | none =>
    rw [(pinnedSeat_eq_none sel).mp hpin]
    rfl
  | some k =>
    rw [pinnedSeat_iff (hdistinct.sublist List.filter_sublist)]
    obtain ⟨hmem, hmax⟩ := (pinnedSeat_iff hdistinct).mp hpin
    exact ⟨List.mem_filter.mpr ⟨hmem, hstays k hpin⟩, fun c hc => hmax c (List.mem_filter.mp hc).1⟩

/-- A seat joins, wherever it is put. -/
theorem pinnedSeat_join {xs ys : List KeyRuntime} {new : KeyRuntime}
    (hdistinct : Distinct sel session ys) (hperm : ys.Perm (new :: xs)) :
    pinnedSeat sel session ys = some new ∨
      pinnedSeat sel session ys = pinnedSeat sel session xs := by
  have hxs : Distinct sel session xs := (hdistinct.perm hperm).sublist (List.sublist_cons_self _ _)
  cases hy : pinnedSeat sel session ys with
  | none =>
    rw [(pinnedSeat_eq_none sel).mp hy] at hperm
    exact absurd hperm.nil_eq (by simp)
  | some c =>
    by_cases hnew : c = new
    · exact Or.inl (hnew ▸ rfl)
    · right
      have hc : c ∈ xs := by
        have hmem := hperm.mem_iff.mp (pinnedSeat_mem sel hy)
        exact (List.mem_cons.mp hmem).resolve_left hnew
      refine ((pinnedSeat_iff hxs).mpr ⟨hc, fun d hd => ?_⟩).symm
      exact pinnedSeat_max sel hy d (hperm.mem_iff.mpr (List.mem_cons_of_mem _ hd))

/-! ## Across a reload -/

/-- The seats a caller is offered when none is out of rotation. -/
def seatsOf (gen : Nat) (breaker : Breaker.Config) (prev : Option RoutingTable) (name : String)
    (p : ProviderConfig) (model tenant : Option String) : List KeyRuntime :=
  (providerRuntime gen breaker prev name p).candidates model tenant

/-- Every seat of the pool is still there, for the same callers; its order,
weights and limits may be others. -/
def Grown (old new : ProviderConfig) : Prop :=
  ∀ k ∈ old.keys, ∃ k' ∈ new.keys, k'.name = k.name ∧ k'.models = k.models ∧ k'.tenant = k.tenant

instance (old new : ProviderConfig) : Decidable (Grown old new) :=
  inferInstanceAs (Decidable (∀ k ∈ old.keys, _))

/-- A pool with a labelled seat, which serves nobody but those it is
labelled for. -/
def Labelled (p : ProviderConfig) : Prop := ∃ k ∈ p.keys, k.tenant ≠ none

section

variable {gen : Nat} {breaker : Breaker.Config} {prev : Option RoutingTable} {name : String}
  {p : ProviderConfig}

/-- What stands of a seat in its configuration. -/
theorem mem_keys_built {k : KeyRuntime} (hk : k ∈ (providerRuntime gen breaker prev name p).keys) :
    ∃ key ∈ p.keys, k.name = key.name ∧ k.models = key.models ∧ k.tenant = key.tenant := by
  obtain ⟨i, hi⟩ := List.mem_iff_getElem?.mp hk
  rw [getElem?_built, Option.map_eq_some_iff] at hi
  obtain ⟨key, hkey, rfl⟩ := hi
  exact ⟨key, List.mem_of_getElem? hkey, rfl, rfl, rfl⟩

theorem built_of_mem (gen : Nat) (breaker : Breaker.Config) (prev : Option RoutingTable)
    (name : String) {key : ApiKey} (hkey : key ∈ p.keys) :
    ∃ k ∈ (providerRuntime gen breaker prev name p).keys,
      k.name = key.name ∧ k.models = key.models ∧ k.tenant = key.tenant := by
  obtain ⟨i, hi⟩ := List.mem_iff_getElem?.mp hkey
  refine ⟨keyRuntime gen breaker prev name i key, List.mem_iff_getElem?.mpr ⟨i, ?_⟩, rfl, rfl, rfl⟩
  rw [getElem?_built, hi]
  rfl

theorem unlabelled_built : (∀ c ∈ (providerRuntime gen breaker prev name p).keys, c.tenant = none) ↔
    ¬ Labelled p := by
  unfold Labelled
  push Not
  constructor
  · intro hall key hkey
    obtain ⟨k, hk, -, -, htenant⟩ := built_of_mem gen breaker prev name hkey
    rw [← htenant]
    exact hall k hk
  · intro hall k hk
    obtain ⟨key, hkey, -, -, htenant⟩ := mem_keys_built hk
    rw [htenant]
    exact hall key hkey

end

variable (gen gen' : Nat) (breaker breaker' : Breaker.Config) (prev prev' : Option RoutingTable)
  {name : String} {old new : ProviderConfig} {model tenant : Option String}

/-- A seat a caller was offered stays on offer, unless the pool is divided up
only now. -/
theorem offered_grown (hgrown : Grown old new) (hlabels : Labelled new → Labelled old)
    {k : KeyRuntime} (hk : k ∈ seatsOf gen breaker prev name old model tenant) :
    ∃ k' ∈ seatsOf gen' breaker' prev' name new model tenant, k'.name = k.name := by
  obtain ⟨hmem, hserves, howned⟩ := mem_candidates.mp hk
  obtain ⟨key, hkey, hname, hmodels, htenant⟩ := mem_keys_built hmem
  obtain ⟨key', hkey', hname', hmodels', htenant'⟩ := hgrown key hkey
  obtain ⟨k', hk', hnameNew, hmodelsNew, htenantNew⟩ :=
    built_of_mem gen' breaker' prev' name hkey'
  refine ⟨k', mem_candidates.mpr ⟨hk', fun m models hm hmodel => ?_, ?_⟩, ?_⟩
  · rw [hmodelsNew, hmodels', ← hmodels] at hmodel
    exact hserves m models hm hmodel
  · rcases howned with hshared | ⟨service, hlabel, hcaller⟩
    · exact Or.inl (unlabelled_built.mpr fun hnew => unlabelled_built.mp hshared (hlabels hnew))
    · refine Or.inr ⟨service, ?_, hcaller⟩
      rw [htenantNew, htenant', ← htenant, hlabel]
  · rw [hnameNew, hname', hname]

/-- A seat of the new pool under the name of an old one is the old one. -/
theorem kept_of_name (hgrown : Grown old new)
    (hdistinct : Distinct sel session (providerRuntime gen' breaker' prev' name new).keys)
    {c : KeyRuntime} (hc : c ∈ (providerRuntime gen' breaker' prev' name new).keys)
    (hold : c.name ∈ old.keys.map (·.name)) :
    ∃ key ∈ old.keys, key.name = c.name ∧ key.models = c.models ∧ key.tenant = c.tenant := by
  obtain ⟨key, hkey, hname⟩ := List.mem_map.mp hold
  obtain ⟨key', hkey', hname', hmodels', htenant'⟩ := hgrown key hkey
  obtain ⟨d, hd, hnameNew, hmodelsNew, htenantNew⟩ :=
    built_of_mem gen' breaker' prev' name hkey'
  -- The name tells the seats of the new pool apart, so this is the seat asked about.
  obtain rfl : d = c := hdistinct.eq hd hc (by rw [hnameNew, hname', hname])
  exact ⟨key, hkey, hname, by rw [hmodelsNew, hmodels'], by rw [htenantNew, htenant']⟩

/-- A seat that is on offer now and stood in the pool before was on offer
before, and the pool is not divided up only now. -/
theorem offered_before (hgrown : Grown old new)
    (hdistinct : Distinct sel session (providerRuntime gen' breaker' prev' name new).keys)
    {c : KeyRuntime} (hc : c ∈ seatsOf gen' breaker' prev' name new model tenant)
    (hold : c.name ∈ old.keys.map (·.name)) :
    (∃ c' ∈ seatsOf gen breaker prev name old model tenant, c'.name = c.name) ∧
      (Labelled new → Labelled old) := by
  obtain ⟨hmem, hserves, howned⟩ := mem_candidates.mp hc
  obtain ⟨key, hkey, hname, hmodels, htenant⟩ := kept_of_name gen' breaker' prev' hgrown hdistinct hmem hold
  obtain ⟨k, hk, hnameOld, hmodelsOld, htenantOld⟩ :=
    built_of_mem gen breaker prev name hkey
  refine ⟨⟨k, mem_candidates.mpr ⟨hk, fun m models hm hmodel => ?_, ?_⟩, ?_⟩, fun hnew => ?_⟩
  · rw [hmodelsOld, hmodels] at hmodel
    exact hserves m models hm hmodel
  · rcases howned with hshared | ⟨service, hlabel, hcaller⟩
    · refine Or.inl (unlabelled_built.mpr fun ⟨labelled, hl, hsome⟩ => ?_)
      obtain ⟨labelled', hl', -, -, hlabel⟩ := hgrown labelled hl
      exact unlabelled_built.mp hshared ⟨labelled', hl', hlabel ▸ hsome⟩
    · refine Or.inr ⟨service, ?_, hcaller⟩
      rw [htenantOld, htenant, hlabel]
  · rw [hnameOld, hname]
  · rcases howned with hshared | ⟨service, hlabel, -⟩
    · exact absurd hnew (unlabelled_built.mp hshared)
    · refine ⟨key, hkey, ?_⟩
      rw [htenant, hlabel]
      exact Option.some_ne_none service

/-- What a reload may do to a session of a seat that stays. -/
def Stays (old new : ProviderConfig) (k : KeyRuntime) : Option KeyRuntime → Prop
  | some c => c.name = k.name ∨ c.name ∉ old.keys.map (·.name)
  -- Nobody is offered a seat of a divided pool that is not labelled for them.
  | none => Labelled new ∧ ¬ Labelled old

theorem pinnedSeat_reload (hgrown : Grown old new)
    (hdistinct : Distinct sel session (providerRuntime gen' breaker' prev' name new).keys)
    {k : KeyRuntime}
    (hpin : pinnedSeat sel session (seatsOf gen breaker prev name old model tenant) = some k) :
    Stays old new k
      (pinnedSeat sel session (seatsOf gen' breaker' prev' name new model tenant)) := by
  have hmem := pinnedSeat_mem sel hpin
  cases hnew : pinnedSeat sel session (seatsOf gen' breaker' prev' name new model tenant) with
  | none =>
    by_contra hdivided
    have hlabels : Labelled new → Labelled old := by
      intro hl
      by_contra hno
      exact hdivided ⟨hl, hno⟩
    obtain ⟨k', hk', -⟩ := offered_grown gen gen' breaker breaker' prev prev' hgrown hlabels hmem
    rw [(pinnedSeat_eq_none sel).mp hnew] at hk'
    cases hk'
  | some c =>
    by_cases hold : c.name ∈ old.keys.map (·.name)
    · left
      have hc := pinnedSeat_mem sel hnew
      obtain ⟨⟨c', hc', hcname⟩, hlabels⟩ := offered_before gen gen' breaker breaker'
        prev prev' hgrown hdistinct hc hold
      obtain ⟨k', hk', hname⟩ :=
        offered_grown gen gen' breaker breaker' prev prev' hgrown hlabels hmem
      -- Each outscores the other, one before the reload and one after it.
      have hdown := pinnedSeat_max sel hpin c' hc'
      have hup := pinnedSeat_max sel hnew k' hk'
      rw [hcname] at hdown
      rw [hname] at hup
      have hsub : (seatsOf gen' breaker' prev' name new model tenant).Sublist
          (providerRuntime gen' breaker' prev' name new).keys :=
        List.filter_sublist.trans List.filter_sublist
      rw [← hname]
      rw [(hdistinct.sublist hsub).eq hc hk' (by rw [hname]; exact le_antisymm hdown hup)]
    · exact Or.inr hold

/-- For every set of seats and every session: the order of the seats does not
matter, seats that leave move only their own sessions, one that joins takes
sessions over and moves no other, and so a reload that keeps every seat leaves
a session where it is or hands it to a seat that was not there. -/
theorem pinned_seat_stable (sel : Selection κ) (session : String) :
    (∀ xs ys : List KeyRuntime, Distinct sel session xs → xs.Perm ys →
      pinnedSeat sel session ys = pinnedSeat sel session xs) ∧
    (∀ (keys : List KeyRuntime) (stays : KeyRuntime → Bool), Distinct sel session keys →
      (∀ k, pinnedSeat sel session keys = some k → stays k = true) →
      pinnedSeat sel session (keys.filter stays) = pinnedSeat sel session keys) ∧
    (∀ (xs ys : List KeyRuntime) (new : KeyRuntime), Distinct sel session ys →
      ys.Perm (new :: xs) → pinnedSeat sel session ys = some new ∨
        pinnedSeat sel session ys = pinnedSeat sel session xs) ∧
    ∀ (gen gen' : Nat) (breaker breaker' : Breaker.Config) (prev prev' : Option RoutingTable)
      (name : String) (old new : ProviderConfig) (model tenant : Option String) (k : KeyRuntime),
      Grown old new → Distinct sel session (providerRuntime gen' breaker' prev' name new).keys →
      pinnedSeat sel session (seatsOf gen breaker prev name old model tenant) = some k →
      Stays old new k
        (pinnedSeat sel session (seatsOf gen' breaker' prev' name new model tenant)) :=
  ⟨fun _ _ hdistinct hperm => pinnedSeat_perm hdistinct hperm,
    fun _ stays hdistinct hstays => pinnedSeat_filter stays hdistinct hstays,
    fun _ _ _ hdistinct hperm => pinnedSeat_join hdistinct hperm,
    fun gen gen' breaker breaker' prev prev' _ _ _ _ _ _ hgrown hdistinct hpin =>
      pinnedSeat_reload gen gen' breaker breaker' prev prev' hgrown hdistinct hpin⟩

/-- Of seats with names of different lengths the longest name wins. -/
def byLength : Selection Nat := ⟨fun leases _ => leases, fun _ seat => seat.length, fun _ _ => false⟩

def seatsNamed (names : List String) : ProviderConfig :=
  ⟨.openAi, names.map fun name => ⟨name, 1, none, none, none, none, none⟩, 8⟩

def builtOf (names : List String) : List KeyRuntime :=
  (providerRuntime 0 ⟨1, 100, 10⟩ none "openai" (seatsNamed names)).keys

/-- A pool of two that is turned round, loses the seat nobody is on, is joined
by a third one, and is reloaded with it. -/
theorem pinned_seat_stable_pair :
    pinnedSeat byLength "s" (builtOf ["a", "bb"]).reverse =
      pinnedSeat byLength "s" (builtOf ["a", "bb"]) ∧
    pinnedSeat byLength "s" ((builtOf ["a", "bb"]).filter (·.name ≠ "a")) =
      pinnedSeat byLength "s" (builtOf ["a", "bb"]) ∧
    (∀ new xs, builtOf ["ccc", "a", "bb"] = new :: xs →
      pinnedSeat byLength "s" (new :: xs) = some new ∨
        pinnedSeat byLength "s" (new :: xs) = pinnedSeat byLength "s" xs) ∧
    ∃ k, k.name = "bb" ∧ Stays (seatsNamed ["a", "bb"]) (seatsNamed ["ccc", "bb", "a"]) k
      (pinnedSeat byLength "s"
        (seatsOf 1 ⟨1, 100, 10⟩ none "openai" (seatsNamed ["ccc", "bb", "a"]) none none)) := by
  obtain ⟨hperm, hleave, hjoin, hreload⟩ := pinned_seat_stable byLength "s"
  refine ⟨hperm _ _ (by decide) (List.reverse_perm _).symm, hleave _ _ (by decide) (by decide),
    fun new xs hbuilt => ?_, ?_⟩
  · exact hjoin xs (new :: xs) new (hbuilt ▸ (by decide)) (List.Perm.refl _)
  · exact ⟨_, rfl, hreload 0 1 ⟨1, 100, 10⟩ _ none none "openai" (seatsNamed ["a", "bb"]) _ none none
      (keyRuntime 0 ⟨1, 100, 10⟩ none "openai" 1 ⟨"bb", 1, none, none, none, none, none⟩)
      (by decide) (by decide) (by decide)⟩

end RapidRouter.Core.Live
