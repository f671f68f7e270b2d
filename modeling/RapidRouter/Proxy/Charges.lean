import RapidRouter.Proxy.Rotate

/-!
# What a request that is not sent costs a pool

A pass of the dispatch loop (`run_chat` of `router-server/src/proxy.rs`) asks
`admit_key` for a key, then the provider for a permit, then builds the request,
and sends it. `admit_key` charges the key it names: a request of its minute, a
dispatch, and the probe of a breaker that is not closed. Nothing gives these
back when the provider is at its ceiling or the request cannot be built.

Nor does the pass over the keys that are out of rotation give a probe back: the
breaker is asked first, and its word says that the probe is out when the key
turns out to have no slot free. `charged_iff` says of every state a gateway
reaches which passes charge a key that nothing is sent with.
-/

namespace RapidRouter.Proxy.Charges

open RapidRouter.Core.Live Server.Gateway Lts
open Core.Breaker (admitAlone)

variable {κ : Type} [LinearOrder κ] (sel : Selection κ)

/-! ## One pass -/

inductive Pass where
  /-- No key is admitted to. -/
  | refused
  /-- The provider is at its ceiling. -/
  | crowded
  /-- `build_upstream_request` fails. -/
  | unbuilt
  | sent (made : Attempt)

/-- The loop body of `run_chat` up to `attempt`. -/
def pass (p : ProviderRuntime) (model tenant affinity : Option String) (now : Nat) (built : Bool)
    (h : Heap) : Heap × Pass :=
  match admitFor sel p model tenant affinity now h with
  | (h, none) => (h, .refused)
  | (h, some choice) =>
    if h.free p.addr = 0 then (release h choice.permit, .crowded)
    else
      let h := h.setFree p.addr (h.free p.addr - 1)
      let made : Attempt := ⟨p, choice.key, choice.permit⟩
      if !built then (returnPermits h (some made), .unbuilt) else (h, .sent made)

/-- The key a request is sent with. -/
def Pass.key : Pass → Option KeyRuntime
  | .sent made => made.key
  | _ => none

/-- An attempt of a request is a pass, and what comes of it when it is sent. -/
theorem runAttempts_pass (c : Rotate.Request κ) (t : Nat) (route : Rotate.Route)
    (budget left a : Nat) (p : Rotate.Progress) :
    Rotate.runAttempts c t route budget (left + 1) a p =
      match pass { c.sel with coin := (c.meets t a).coin } route.provider (some route.upstreamModel)
          c.tenant c.surface.affinity (c.meets t a).now (c.meets t a).built
          ((c.meets t a).others p.heap) with
      | (h, .refused) | (h, .crowded) => .onward { p with heap := h }
      | (h, .unbuilt) => .ended { p with heap := h }
      | (h, .sent made) =>
        let isLast := t + 1 = c.plan.targets.length && a + 1 = budget
        let sent := p.sent ++
          [⟨t, route, (c.meets t a).now, (c.meets t a).others p.heap, made.key⟩]
        match Rotate.attempt c route isLast (c.meets t a) made h with
        | (h, false) => .ended ⟨h, sent⟩
        | (h, true) =>
          Rotate.runAttempts c t route budget left (a + 1) ⟨returnPermits h (some made), sent⟩ := by
  rw [Rotate.runAttempts]
  unfold pass
  dsimp only
  cases admitFor { c.sel with coin := (c.meets t a).coin } route.provider (some route.upstreamModel)
    c.tenant c.surface.affinity (c.meets t a).now ((c.meets t a).others p.heap) with
  | mk h choice =>
    cases choice with
    | none => rfl
    | some choice =>
      dsimp only
      by_cases hfull : h.free route.provider.addr = 0
      · rw [if_pos hfull, if_pos hfull]
      · rw [if_neg hfull, if_neg hfull]
        cases (c.meets t a).built with
        | false => rfl
        | true => rfl

/-! ## What a pass charges -/

/-- A key keeps the word of its breaker, its dispatch count, and, once both are
refilled to the reading, the balances of its buckets. -/
structure Uncharged (now : Nat) (h h' : Heap) (k : KeyRuntime) : Prop where
  word : (h'.cells k.addr).breaker.words.word = (h.cells k.addr).breaker.words.word
  stock : (h'.cells k.addr).stock now = (h.cells k.addr).stock now

/-- No key is charged but the one the request is sent with. -/
def ChargesSent (p : ProviderRuntime) (now : Nat) (h : Heap) (r : Heap × Pass) : Prop :=
  ∀ k ∈ p.keys, r.2.key ≠ some k → Uncharged now h r.1 k

/-- A key out of rotation whose breaker hands out its probe. Where there is no
cooldown, the word may say already that the probe went out at this reading. -/
structure ClaimsProbe (now : Nat) (h : Heap) (k : KeyRuntime) : Prop where
  rested : Rested h k now
  out : Core.Breaker.isClosed (h.cells k.addr).breaker = false
  moves : (h.cells k.addr).breaker.words.word ≠ Core.Breaker.pack now Core.Breaker.halfOpen

/-- The keys asked for a probe before one that has a slot for it. -/
def passedOver (p : ProviderRuntime) (model tenant : Option String) (now : Nat) (h : Heap) :
    List KeyRuntime :=
  (p.asked sel model tenant h).takeWhile fun k => !offered now h k

/-- Some key is admitted to. -/
def Admitting (p : ProviderRuntime) (model tenant : Option String) (now : Nat) (h : Heap) : Prop :=
  p.ready model tenant now h ≠ [] ∨ p.probed sel model tenant now h ≠ none

/-- No key in rotation takes the request, and this one hands out its probe in
vain. -/
structure Wasted (p : ProviderRuntime) (model tenant : Option String) (now : Nat) (h : Heap)
    (k : KeyRuntime) : Prop where
  ready : p.ready model tenant now h = []
  passed : k ∈ passedOver sel p model tenant now h
  claims : ClaimsProbe now h k

/-- Whoever is admitted gets to send, and no probe is handed out in vain. -/
structure Frugal (p : ProviderRuntime) (model tenant : Option String) (now : Nat) (built : Bool)
    (h : Heap) : Prop where
  sends : Admitting sel p model tenant now h → h.free p.addr ≠ 0 ∧ built = true
  spares : ∀ k, ¬ Wasted sel p model tenant now h k

variable {now : Nat} {h h' : Heap}

theorem claimsProbe_iff {k : KeyRuntime} : ClaimsProbe now h k ↔
    (admitAlone k.breaker (h.cells k.addr).breaker now).1.words.word ≠
      (h.cells k.addr).breaker.words.word := by
  constructor
  · intro hclaims
    have hanswer := rested_iff.mp hclaims.rested
    have hopen := hclaims.out
    unfold admitAlone at hanswer ⊢
    split at hanswer
    · exact absurd rfl hanswer
    · next hbench =>
      rw [if_neg hbench]
      dsimp only at hanswer ⊢
      unfold Core.Breaker.admitWord at hanswer ⊢
      split at hanswer
      · next hclosed =>
        rw [Core.Breaker.isClosed_iff.mpr hclosed] at hopen
        cases hopen
      · next hclosed =>
        split at hanswer
        · exact absurd rfl hanswer
        · next hwait =>
          rw [if_neg hclosed, if_neg hwait]
          exact hclaims.moves.symm
  · intro hmoves
    have hanswer : (admitAlone k.breaker (h.cells k.addr).breaker now).2 ≠ .no := by
      intro hno
      refine hmoves ?_
      unfold admitAlone at hno ⊢
      split
      · rfl
      · next hbench =>
        rw [if_neg hbench] at hno
        dsimp only at hno ⊢
        unfold Core.Breaker.admitWord at hno ⊢
        split at hno
        · cases hno
        · next hclosed =>
          split at hno
          · next hwait => rw [if_neg hclosed, if_pos hwait]
          · cases hno
    have hword := @Core.Breaker.admitAlone_words k.breaker (h.cells k.addr).breaker now
    rcases hword with hsame | ⟨hopen, hprobe⟩
    · rw [hsame] at hmoves
      exact absurd rfl hmoves
    · refine ⟨rested_iff.mpr hanswer, ?_, ?_⟩
      · rw [← Bool.not_eq_true, Core.Breaker.isClosed_iff]
        exact hopen
      · rw [hprobe] at hmoves
        exact hmoves.symm

theorem uncharged_congr {h₁ h₂ : Heap} (hcells : h₁.cells = h₂.cells) {k : KeyRuntime} :
    Uncharged now h h₁ k ↔ Uncharged now h h₂ k := by
  constructor
  · intro hk
    exact ⟨hcells ▸ hk.word, hcells ▸ hk.stock⟩
  · intro hk
    exact ⟨hcells ▸ hk.word, hcells ▸ hk.stock⟩

/-- A key that is admitted to is charged at least its dispatch. -/
theorem charged_of_granted {visited : List Addr} {k : KeyRuntime}
    {admission : Core.Breaker.Admission} (hgranted : Granted now visited h h' k admission) :
    ¬ Uncharged now h h' k := by
  intro huncharged
  have hstock := huncharged.stock
  rw [hgranted.stock, if_pos rfl] at hstock
  have hleases := congrArg Stock.leases hstock
  have hcount : ∀ t : Stock, t.lease.leases = (t.leases + 1) % 2 ^ 64 := fun _ => rfl
  rw [hcount] at hleases
  have hsame : (if admission = .probe then (h.cells k.addr).stock now
      else ((h.cells k.addr).stock now).spend).leases = ((h.cells k.addr).stock now).leases := by
    split <;> rfl
  rw [hsame] at hleases
  omega

/-- One that is not, and that was not visited, is not charged. -/
theorem uncharged_of_granted {visited : List Addr} {k c : KeyRuntime}
    {admission : Core.Breaker.Admission} (hgranted : Granted now visited h h' k admission)
    (hother : c.addr ≠ k.addr) (hc : c.addr ∉ visited) : Uncharged now h h' c := by
  refine ⟨?_, ?_⟩
  · rw [hgranted.breaker _ hc]
  · rw [hgranted.stock, if_neg hother]

/-- The keys passed over have had their breakers asked, one after another. -/
theorem recovering_over (passed rest : List KeyRuntime) (h : Heap)
    (hnodup : (passed.map (·.addr)).Nodup)
    (hrefused : ∀ k ∈ passed, (admitAlone k.breaker (h.cells k.addr).breaker now).2 = .yes →
      takes h k now = false) (hnot : ∀ k ∈ passed, offered now h k = false) :
    ∃ h', recovering now (passed ++ rest) h = recovering now rest h' ∧
      Asked now (passed.map (·.addr)) h h' ∧ ∀ k ∈ passed,
        (h'.cells k.addr).breaker = (admitAlone k.breaker (h.cells k.addr).breaker now).1 := by
  induction passed generalizing h with
  | nil => exact ⟨h, rfl, Asked.refl now h, fun k hk => by cases hk⟩
  | cons key passed ih =>
    obtain ⟨hfresh, hdistinct⟩ := List.nodup_cons.mp hnodup
    obtain ⟨h₁, hskip, hasked, hkey⟩ := recovering_skip (passed ++ rest) h
      (hrefused key List.mem_cons_self) (hnot key List.mem_cons_self)
    have hother : ∀ k ∈ passed, k.addr ∉ [key.addr] := by
      intro k hk haddr
      have hmem := List.mem_map_of_mem (f := (·.addr)) hk
      rw [List.mem_singleton.mp haddr] at hmem
      exact hfresh hmem
    obtain ⟨h₂, hrest, hasked', hover⟩ := ih h₁ hdistinct
      (fun k hk hyes => by
        rw [hasked.takes]
        rw [hasked.breaker _ (hother k hk)] at hyes
        exact hrefused k (List.mem_cons_of_mem _ hk) hyes)
      (fun k hk => by
        rw [hasked.offered (hother k hk)]
        exact hnot k (List.mem_cons_of_mem _ hk))
    refine ⟨h₂, hskip.trans hrest, hasked.trans hasked', ?_⟩
    intro k hk
    rcases List.mem_cons.mp hk with rfl | hk
    · rw [hasked'.breaker _ hfresh, hkey]
    · rw [hover k hk, hasked.breaker _ (hother k hk)]

/-- What an answer of `admit_key` has charged. -/
inductive Billed (p : ProviderRuntime) (model tenant : Option String) (now : Nat) (h : Heap) :
    Heap × Option KeyChoice → Prop where
  | refused (h' : Heap) (hnobody : ¬ Admitting sel p model tenant now h)
      (hothers : ∀ c ∈ p.keys,
        Uncharged now h h' c ↔ ¬ Wasted sel p model tenant now h c) : Billed p model tenant now h
        (h', none)
  | admitted (h' : Heap) (k : KeyRuntime) (admission : Core.Breaker.Admission) (hmem : k ∈ p.keys)
      (hsomebody : Admitting sel p model tenant now h)
      (hfree : h'.free = reserved h.free k.inflight) (hcharged : ¬ Uncharged now h h' k)
      (hspared : ¬ Wasted sel p model tenant now h k)
      (hothers : ∀ c ∈ p.keys, c ≠ k →
        (Uncharged now h h' c ↔ ¬ Wasted sel p model tenant now h c)) : Billed p model tenant now h
        (h', some ⟨some k, admission, k.inflight⟩)

section
variable {p : ProviderRuntime} {model tenant : Option String}

/-- With nobody in rotation to take the request, a key is charged exactly when
its probe is handed out in vain. -/
theorem uncharged_iff_spared (hready : p.ready model tenant now h = []) {c : KeyRuntime}
    (hstock : (h'.cells c.addr).stock now = (h.cells c.addr).stock now)
    (hpassed : c ∈ passedOver sel p model tenant now h → (h'.cells c.addr).breaker =
      (admitAlone c.breaker (h.cells c.addr).breaker now).1)
    (hother : c ∉ passedOver sel p model tenant now h →
      (h'.cells c.addr).breaker = (h.cells c.addr).breaker) :
    Uncharged now h h' c ↔ ¬ Wasted sel p model tenant now h c := by
  by_cases hmem : c ∈ passedOver sel p model tenant now h
  · have hword := hpassed hmem
    constructor
    · intro huncharged hwasted
      refine claimsProbe_iff.mp hwasted.claims ?_
      rw [← hword]
      exact huncharged.word
    · intro hspared
      refine ⟨?_, hstock⟩
      by_contra hmoves
      rw [hword] at hmoves
      exact hspared ⟨hready, hmem, claimsProbe_iff.mpr hmoves⟩
  · refine iff_of_true ⟨by rw [hother hmem], hstock⟩ ?_
    intro hwasted
    exact hmem hwasted.passed

/-- When some key in rotation takes the request, no other one is charged. -/
theorem billed_ready (hkeys : p.keys ≠ []) (hnodup : (p.keys.map (·.addr)).Nodup)
    (affinity : Option String) (hready : p.ready model tenant now h ≠ []) :
    Billed sel p model tenant now h (admitFor sel p model tenant affinity now h) := by
  obtain ⟨h', k, hanswer, hmem, hgranted⟩ := admitFor_ready sel hkeys hnodup affinity hready
  rw [hanswer]
  have hspared : ∀ c, ¬ Wasted sel p model tenant now h c := by
    intro c hwasted
    exact hready hwasted.ready
  refine .admitted h' k .yes hmem (Or.inl hready) hgranted.free (charged_of_granted hgranted)
    (hspared k) ?_
  intro c hc hne
  have hother : c.addr ≠ k.addr := fun haddr => hne (List.inj_on_of_nodup_map hnodup hc hmem haddr)
  exact iff_of_true (uncharged_of_granted hgranted hother List.not_mem_nil) (hspared c)

theorem mem_asked {c : KeyRuntime} :
    c ∈ p.asked sel model tenant h ↔ c ∈ p.candidates model tenant := by
  unfold ProviderRuntime.asked
  exact (List.perm_insertionSort _ _).mem_iff

theorem billed_recovering (hkeys : p.keys ≠ []) (hnodup : (p.keys.map (·.addr)).Nodup)
    (affinity : Option String) (hready : p.ready model tenant now h = []) :
    Billed sel p model tenant now h (admitFor sel p model tenant affinity now h) := by
  obtain ⟨h₁, hanswer, hasked₁⟩ := admitFor_recovering sel hkeys hnodup affinity hready
  have hsplit : p.asked sel model tenant h = passedOver sel p model tenant now h ++
      (p.asked sel model tenant h).dropWhile (fun k => !offered now h k) :=
    List.takeWhile_append_dropWhile.symm
  have hmem : ∀ c ∈ p.asked sel model tenant h, c ∈ p.keys := by
    intro c hc
    exact (mem_candidates.mp ((mem_asked sel).mp hc)).mem
  have hpassed : ∀ c ∈ passedOver sel p model tenant now h,
      c ∈ p.asked sel model tenant h ∧ offered now h c = false := by
    intro c hc
    have hnot := List.mem_takeWhile_imp hc
    rw [Bool.not_eq_true'] at hnot
    exact ⟨List.takeWhile_subset _ hc, hnot⟩
  -- nobody in rotation takes the request, so no breaker that answers yes does any good
  have hrefused : ∀ c ∈ p.asked sel model tenant h,
      (admitAlone c.breaker (h.cells c.addr).breaker now).2 = .yes → takes h c now = false := by
    intro c hc hyes
    by_contra htakes
    rw [Bool.not_eq_false] at htakes
    have hhealthy : c ∈ p.healthy model tenant now h :=
      List.mem_filter.mpr ⟨(mem_asked sel).mp hc, looksHealthy_of_yes hyes⟩
    have hcready : c ∈ p.ready model tenant now h := List.mem_filter.mpr ⟨hhealthy, htakes⟩
    rw [hready] at hcready
    cases hcready
  have hdistinct : ((passedOver sel p model tenant now h).map (·.addr)).Nodup := by
    have hperm := List.perm_insertionSort (fun a b => share sel h a ≤ share sel h b)
      (p.candidates model tenant)
    have hcandidates : ((p.candidates model tenant).map (·.addr)).Nodup :=
      hnodup.sublist ((List.filter_sublist.trans List.filter_sublist).map _)
    exact ((hperm.map _).nodup_iff.mpr hcandidates).sublist ((List.takeWhile_sublist _).map _)
  have hsame : ∀ c : KeyRuntime, (h₁.cells c.addr).breaker = (h.cells c.addr).breaker :=
    fun c => hasked₁.breaker _ List.not_mem_nil
  obtain ⟨h₂, hover, hasked₂, hwords⟩ := recovering_over (passedOver sel p model tenant now h)
    ((p.asked sel model tenant h).dropWhile (fun k => !offered now h k)) h₁ hdistinct
    (fun c hc hyes => by
      rw [hasked₁.takes]
      rw [hsame] at hyes
      exact hrefused c (hpassed c hc).1 hyes)
    (fun c hc => by
      rw [hasked₁.offered List.not_mem_nil]
      exact (hpassed c hc).2)
  have hasked := hasked₁.trans hasked₂
  rw [List.nil_append] at hasked
  have hfresh : ∀ c ∈ p.keys, c ∉ passedOver sel p model tenant now h →
      c.addr ∉ (passedOver sel p model tenant now h).map (·.addr) := by
    intro c hc hnot haddr
    obtain ⟨d, hd, hsameaddr⟩ := List.mem_map.mp haddr
    have heq := List.inj_on_of_nodup_map hnodup (hmem d (hpassed d hd).1) hc hsameaddr
    exact hnot (heq ▸ hd)
  rw [hanswer, hsplit, hover]
  cases hrest : (p.asked sel model tenant h).dropWhile (fun k => !offered now h k) with
  | nil =>
    have hall : ∀ c ∈ p.asked sel model tenant h, offered now h c = false := by
      intro c hc
      rw [hsplit, hrest, List.append_nil] at hc
      exact (hpassed c hc).2
    refine .refused h₂ ?_ ?_
    · rintro (hsome | hsome)
      · exact hsome hready
      · refine hsome (List.find?_eq_none.mpr fun c hc => ?_)
        rw [hall c hc]
        decide
    · intro c hc
      refine uncharged_iff_spared sel hready (hasked.stock _) (fun hover => ?_) (fun hnot => ?_)
      · rw [hwords c hover, hsame]
      · exact hasked.breaker _ (hfresh c hc hnot)
  | cons k rest =>
    have hk : k ∈ p.asked sel model tenant h := by
      rw [hsplit, hrest]
      exact List.mem_append_right _ List.mem_cons_self
    have hoffered : offered now h k = true := by
      have hhead := List.head?_dropWhile_not (fun k => !offered now h k) (p.asked sel model tenant h)
      rw [hrest] at hhead
      simpa using hhead
    have hprobed : p.probed sel model tenant now h = some k := by
      show (p.asked sel model tenant h).find? (offered now h) = some k
      rw [hsplit, hrest, List.find?_append, List.find?_cons_of_pos hoffered,
        List.find?_eq_none.mpr fun c hc => by rw [(hpassed c hc).2]; decide]
      rfl
    have hoffered₂ : offered now h₂ k = true := by
      rw [hasked.offered, hoffered]
      refine hfresh k (hmem k hk) fun hover => ?_
      rw [(hpassed k hover).2] at hoffered
      cases hoffered
    obtain ⟨h₃, htake, hgranted₃⟩ := recovering_take rest h₂ hoffered₂
    have hgranted := hasked.granted hgranted₃
    rw [htake]
    refine .admitted h₃ k .probe (hmem k hk) (Or.inr ?_) hgranted.free (charged_of_granted hgranted)
      ?_ ?_
    · rw [hprobed]
      exact Option.some_ne_none k
    · intro hwasted
      rw [(hpassed k hwasted.passed).2] at hoffered
      cases hoffered
    · intro c hc hne
      have hother : c.addr ≠ k.addr := fun haddr =>
        hne (List.inj_on_of_nodup_map hnodup hc (hmem k hk) haddr)
      have hnotk : c.addr ∉ [k.addr] := fun hin => hother (List.mem_singleton.mp hin)
      have hbreaker := hgranted₃.breaker c.addr hnotk
      refine uncharged_iff_spared sel hready ?_ (fun hover => ?_) (fun hnot => ?_)
      · rw [hgranted.stock, if_neg hother]
      · rw [hbreaker, hwords c hover, hsame]
      · rw [hbreaker, hasked.breaker _ (hfresh c hc hnot)]

theorem billed (hkeys : p.keys ≠ []) (hnodup : (p.keys.map (·.addr)).Nodup)
    (affinity : Option String) :
    Billed sel p model tenant now h (admitFor sel p model tenant affinity now h) := by
  by_cases hready : p.ready model tenant now h = []
  · exact billed_recovering sel hkeys hnodup affinity hready
  · exact billed_ready sel hkeys hnodup affinity hready

/-! ## When a pass charges nobody else -/

/-- Of any provider whose keys have cells of their own and slots that are not
the provider's permits, and in any state. -/
theorem chargesSent_iff (hnodup : (p.keys.map (·.addr)).Nodup) (hslots : SlotsApart p)
    (affinity : Option String) (built : Bool) :
    ChargesSent p now h (pass sel p model tenant affinity now built h) ↔
      Frugal sel p model tenant now built h := by
  have hmember : ∀ c, Wasted sel p model tenant now h c → c ∈ p.keys := by
    intro c hwasted
    have hasked := List.takeWhile_subset _ hwasted.passed
    exact (mem_candidates.mp ((mem_asked sel).mp hasked)).mem
  by_cases hkeys : p.keys = []
  · have hnobody : p.candidates model tenant = [] := by
      refine List.eq_nil_iff_forall_not_mem.mpr fun c hc => ?_
      have hmem := (mem_candidates.mp hc).mem
      rw [hkeys] at hmem
      cases hmem
    refine iff_of_true (fun k hk => ?_) ⟨fun hsomebody => ?_, fun c hwasted => ?_⟩
    · rw [hkeys] at hk
      cases hk
    · unfold Admitting ProviderRuntime.ready ProviderRuntime.healthy ProviderRuntime.probed at hsomebody
      rw [hnobody] at hsomebody
      rcases hsomebody with hready | hprobed
      · exact absurd rfl hready
      · exact absurd rfl hprobed
    · have hmem := hmember c hwasted
      rw [hkeys] at hmem
      cases hmem
  · have hbilled : Billed sel p model tenant now h (admitFor sel p model tenant affinity now h) :=
      billed sel hkeys hnodup affinity
    unfold pass
    generalize admitFor sel p model tenant affinity now h = answer at hbilled
    cases hbilled with
    | refused h' hnobody hothers =>
      constructor
      · intro hcharges
        refine ⟨fun hsomebody => absurd hsomebody hnobody, fun c hwasted => ?_⟩
        have hc := hmember c hwasted
        exact (hothers c hc).mp (hcharges c hc fun hnone => by cases hnone) hwasted
      · intro hfrugal c hc _
        exact (hothers c hc).mpr (hfrugal.spares c)
    | admitted h' k admission hmem hsomebody hfree hcharged hspared hothers =>
      have hpermits : h'.free p.addr = h.free p.addr := by
        rw [hfree]
        cases hslot : k.inflight with
        | none => rfl
        | some a =>
          have hne : p.addr ≠ a := by
            intro heq
            exact hslots.slots k hmem a hslot (heq ▸ hslots.permits)
          exact Function.update_of_ne hne _ _
      -- with nothing sent, the key that was admitted to has been charged for nothing
      have hlost : ∀ r : Heap × Pass, r.1.cells = h'.cells → r.2.key = none →
          ¬ (h.free p.addr ≠ 0 ∧ built = true) →
          (ChargesSent p now h r ↔ Frugal sel p model tenant now built h) := by
        intro r hcells hkey hstuck
        refine iff_of_false ?_ fun hfrugal => hstuck (hfrugal.sends hsomebody)
        intro hcharges
        refine hcharged ((uncharged_congr hcells).mp (hcharges k hmem ?_))
        rw [hkey]
        exact fun hnone => by cases hnone
      dsimp only
      rw [hpermits]
      by_cases hfull : h.free p.addr = 0
      · rw [if_pos hfull]
        exact hlost _ (release_cells h' _) rfl fun hsend => hsend.1 hfull
      · rw [if_neg hfull]
        cases built with
        | false =>
          refine hlost _ ?_ rfl fun hsend => by cases hsend.2
          exact returnPermits_cells _ _
        | true =>
          have hcells : (h'.setFree p.addr (h.free p.addr - 1)).cells = h'.cells := rfl
          have hsent : ∀ c, Uncharged now h (h'.setFree p.addr (h.free p.addr - 1)) c ↔
              Uncharged now h h' c := fun c => uncharged_congr hcells
          show ChargesSent p now h (h'.setFree p.addr (h.free p.addr - 1),
            .sent ⟨p, some k, k.inflight⟩) ↔ _
          constructor
          · intro hcharges
            refine ⟨fun _ => ⟨hfull, rfl⟩, fun c hwasted => ?_⟩
            have hc := hmember c hwasted
            by_cases heq : c = k
            · exact hspared (heq ▸ hwasted)
            · have huncharged := hcharges c hc fun hsame => heq (Option.some.inj hsame).symm
              exact (hothers c hc heq).mp ((hsent c).mp huncharged) hwasted
          · intro hfrugal c hc hne
            have heq : c ≠ k := fun heq => hne (congrArg some heq.symm)
            exact (hsent c).mpr ((hothers c hc heq).mpr (hfrugal.spares c))

end

/-- Over every run of a gateway: every pass through a provider of the table in
force, or of one a request still holds. -/
theorem charged_iff {s : State} (h : Reach (gateway κ) free s) : ∀ t ∈ s.tables, ∀ name p,
    t.providers.get? name = some p → ∀ (sel : Selection κ) (model tenant affinity : Option String)
      (now : Nat) (built : Bool),
      ChargesSent p now s.heap (pass sel p model tenant affinity now built s.heap) ↔
        Frugal sel p model tenant now built s.heap := by
  intro t ht name p hp sel model tenant affinity now built
  have hsound := (sound_of_reach h).tables ht name p hp
  exact chargesSent_iff sel hsound.nodup (apart_of_reach h t ht name p hp) affinity built

/-- The one seat of a pool serves a request, which fails, and holds its slot. -/
def failing : List (Label Nat) := seated ++ [.report 0 (.failure 0)]

def failed : State := (run next (boot oneSeat [] 1) failing).get (by decide)

theorem failed_reach : Reach (gateway Nat) free failed :=
  Reach.of_run failing (.start ⟨oneSeat, [], 1, rfl⟩) (by decide) (Option.some_get _).symm

theorem charged_iff_failed : ∃ s : State, Reach (gateway Nat) free s ∧ ∀ t ∈ s.tables, ∀ name p,
    t.providers.get? name = some p → ∀ (sel : Selection Nat) (model tenant affinity : Option String)
      (now : Nat) (built : Bool),
      ChargesSent p now s.heap (pass sel p model tenant affinity now built s.heap) ↔
        Frugal sel p model tenant now built s.heap :=
  ⟨failed, failed_reach, charged_iff failed_reach⟩

/-- **A probe is handed out in vain.** The seat's cooldown is over and its slot
is taken still: the next request claims the probe and goes away. -/
theorem probe_lost : ¬ ∀ s : State, Reach (gateway Nat) free s → ∀ t ∈ s.tables, ∀ name p,
    t.providers.get? name = some p → ∀ (sel : Selection Nat) (model tenant affinity : Option String)
      (now : Nat) (built : Bool),
      ChargesSent p now s.heap (pass sel p model tenant affinity now built s.heap) := by
  intro hclaim
  have hseat : ∃ p, failed.table.providers.get? "openai" = some p ∧ ∃ k ∈ p.keys,
      (pass leastUsed p none none none 10 true failed.heap).2.key = none ∧
      ((pass leastUsed p none none none 10 true failed.heap).1.cells k.addr).breaker.words.word ≠
        (failed.heap.cells k.addr).breaker.words.word := by
    refine ⟨_, rfl, _, List.mem_cons_self, ?_, ?_⟩
    · decide
    · decide
  obtain ⟨p, hp, k, hk, hkey, hword⟩ := hseat
  have hcharges := hclaim failed failed_reach failed.table List.mem_cons_self "openai" p hp leastUsed
    none none none 10 true
  refine hword (hcharges k hk ?_).word
  rw [hkey]
  exact fun hnone => by cases hnone

end RapidRouter.Proxy.Charges
