import Mathlib.Data.List.Find
import RapidRouter.Core.Live

/-!
# Which key is admitted to

`admit_law` says what an answer of `admit_for` is good for; `seated_of_admitFor`
says which key it names. It is the seat a session is pinned to when that one
takes the request, else a key in rotation that takes it and that no other such
key is behind, else the first one, in the order of their shares, that is out
of rotation and offers its probe.
-/

namespace RapidRouter.Core.Live

variable {κ : Type} [LinearOrder κ] (sel : Selection κ)

/-- The keys of this caller that are in rotation. -/
def ProviderRuntime.healthy (p : ProviderRuntime) (model tenant : Option String) (now : Nat)
    (h : Heap) : List KeyRuntime :=
  (p.candidates model tenant).filter (looksHealthy h · now)

/-- Those that take a request. -/
def ProviderRuntime.ready (p : ProviderRuntime) (model tenant : Option String) (now : Nat)
    (h : Heap) : List KeyRuntime :=
  (p.healthy model tenant now h).filter (takes h · now)

/-- A key offers a probe, and has a slot for it. -/
def offered (now : Nat) (h : Heap) (k : KeyRuntime) : Bool :=
  (Breaker.admitAlone k.breaker (h.cells k.addr).breaker now).2 = .probe && slotFree h k

/-- The key that is probed when none in rotation takes the request. -/
def ProviderRuntime.probed (p : ProviderRuntime) (model tenant : Option String) (now : Nat)
    (h : Heap) : Option KeyRuntime :=
  ((p.candidates model tenant).insertionSort fun a b => share sel h a ≤ share sel h b).find?
    (offered now h)

/-- The caller's keys in the order they are asked for a probe. -/
def ProviderRuntime.asked (p : ProviderRuntime) (model tenant : Option String) (h : Heap) :
    List KeyRuntime :=
  (p.candidates model tenant).insertionSort fun a b => share sel h a ≤ share sel h b

/-- The seat of a request, as the state before the call determines it. -/
inductive Seated (p : ProviderRuntime) (model tenant affinity : Option String) (now : Nat)
    (h : Heap) (k : KeyRuntime) : Prop where
  | pinned (hpin : pinnedReady sel now affinity (p.healthy model tenant now h) h = some k)
  | level (hpin : pinnedReady sel now affinity (p.healthy model tenant now h) h = none)
      (hready : k ∈ p.ready model tenant now h)
      (hleast : ∀ c ∈ p.ready model tenant now h, share sel h k ≤ share sel h c)
  | probe (hpin : pinnedReady sel now affinity (p.healthy model tenant now h) h = none)
      (hready : p.ready model tenant now h = []) (hprobe : p.probed sel model tenant now h = some k)

variable {now : Nat} {h h' : Heap}

/-- Only a key in rotation is admitted to without a probe. -/
theorem looksHealthy_of_yes {k : KeyRuntime}
    (hyes : (Breaker.admitAlone k.breaker (h.cells k.addr).breaker now).2 = .yes) :
    looksHealthy h k now = true := by
  have hrested : Rested h k now := rested_of_admission (by rw [hyes]; decide)
  have hclosed : Breaker.isClosed (h.cells k.addr).breaker = true := by
    by_contra hopen
    unfold Breaker.admitAlone at hyes
    split at hyes
    · cases hyes
    · unfold Breaker.admitWord at hyes
      dsimp only at hyes
      rw [if_neg fun hclosed => hopen (Breaker.isClosed_iff.mpr hclosed)] at hyes
      split at hyes <;> cases hyes
  unfold looksHealthy
  rw [hclosed, hrested.bench]
  rfl

theorem Asked.offered {visited : List Addr} (hasked : Asked now visited h h') {k : KeyRuntime}
    (hk : k.addr ∉ visited) : offered now h' k = offered now h k := by
  unfold Live.offered
  rw [hasked.breaker _ hk, hasked.slotFree]

/-- A key that offers no probe is passed over. -/
theorem recovering_skip {key : KeyRuntime} (rest : List KeyRuntime) (h : Heap)
    (hrefused : (Breaker.admitAlone key.breaker (h.cells key.addr).breaker now).2 = .yes →
      takes h key now = false) (hnot : offered now h key = false) :
    ∃ h', recovering now (key :: rest) h = recovering now rest h' ∧ Asked now [key.addr] h h' ∧
      (h'.cells key.addr).breaker =
        (Breaker.admitAlone key.breaker (h.cells key.addr).breaker now).1 := by
  rw [recovering]
  unfold offered at hnot
  cases hadmission : Breaker.admitAlone key.breaker (h.cells key.addr).breaker now with
  | mk breaker admission =>
    rw [hadmission] at hrefused hnot
    have hasked := @asked_setBreaker now h key.addr breaker
    have hmoved : ((h.setCells key.addr { h.cells key.addr with breaker := breaker }).cells
        key.addr).breaker = breaker := by
      rw [setCells_cells, if_pos rfl]
    dsimp only
    generalize h.setCells key.addr { h.cells key.addr with breaker := breaker } = h' at hasked hmoved
    cases admission with
    | no => exact ⟨h', rfl, hasked, hmoved⟩
    | yes =>
      have htakes := hrefused rfl
      rw [← hasked.takes] at htakes
      obtain ⟨h'', hattempt, hasked'⟩ := admitNow_refuses htakes
      have hboth := hasked.trans hasked'
      rw [List.append_nil] at hboth
      dsimp only
      rw [hattempt]
      exact ⟨h'', rfl, hboth, (hasked'.breaker _ List.not_mem_nil).trans hmoved⟩
    | probe =>
      have hslot : slotFree h' key = false := by
        rw [hasked.slotFree]
        simpa using hnot
      dsimp only
      rw [tryReserveSlot_eq, hslot, if_neg Bool.false_ne_true]
      exact ⟨h', rfl, hasked, hmoved⟩

/-- One that does is admitted to. -/
theorem recovering_take {key : KeyRuntime} (rest : List KeyRuntime) (h : Heap)
    (hoffered : offered now h key = true) :
    ∃ h', recovering now (key :: rest) h = (h', some ⟨some key, .probe, key.inflight⟩) ∧
      Granted now [key.addr] h h' key .probe := by
  unfold recovering
  unfold offered at hoffered
  rw [Bool.and_eq_true, decide_eq_true_eq] at hoffered
  obtain ⟨hanswer, hslot⟩ := hoffered
  cases hadmission : Breaker.admitAlone key.breaker (h.cells key.addr).breaker now with
  | mk breaker admission =>
    rw [hadmission] at hanswer
    dsimp only at hanswer
    subst hanswer
    have hasked := @asked_setBreaker now h key.addr breaker
    dsimp only
    generalize h.setCells key.addr { h.cells key.addr with breaker := breaker } = h' at hasked
    rw [tryReserveSlot_eq, hasked.slotFree, if_pos hslot]
    exact ⟨_, rfl, hasked.granted (granted_probe h' key)⟩

/-- The pass over the keys settles on the first one that offers its probe. -/
theorem recovering_find (keys : List KeyRuntime) (h : Heap) (hnodup : (keys.map (·.addr)).Nodup)
    (hrefused : ∀ k ∈ keys, (Breaker.admitAlone k.breaker (h.cells k.addr).breaker now).2 = .yes →
      takes h k now = false) :
    ((recovering now keys h).2.bind (·.key)) = keys.find? (offered now h) := by
  induction keys generalizing h with
  | nil => rfl
  | cons key rest ih =>
    obtain ⟨hfresh, hrest⟩ := List.nodup_cons.mp hnodup
    by_cases hoffered : offered now h key = true
    · obtain ⟨h', htake, -⟩ := recovering_take rest h hoffered
      rw [htake, List.find?_cons_of_pos hoffered]
      rfl
    · rw [Bool.not_eq_true] at hoffered
      obtain ⟨h', hskip, hasked, -⟩ :=
        recovering_skip rest h (hrefused key List.mem_cons_self) hoffered
      -- the keys after this one find their breakers as they were
      have hother : ∀ k ∈ rest, k.addr ∉ [key.addr] := by
        intro k hk haddr
        have hmem := List.mem_map_of_mem (f := (·.addr)) hk
        rw [List.mem_singleton.mp haddr] at hmem
        exact hfresh hmem
      rw [hskip, List.find?_cons_of_neg (by rw [hoffered]; decide), ih h' hrest fun k hk hyes => ?_]
      · exact List.find?_congr fun k hk => hasked.offered (hother k hk)
      · rw [hasked.takes]
        rw [hasked.breaker _ (hother k hk)] at hyes
        exact hrefused k (List.mem_cons_of_mem _ hk) hyes

/-- Of any provider whose keys have cells of their own, and in any state. -/
theorem seated_of_admitFor {p : ProviderRuntime} (hnodup : (p.keys.map (·.addr)).Nodup)
    {model tenant affinity : Option String} {k : KeyRuntime}
    (hkey : (admitFor sel p model tenant affinity now h).2.bind (·.key) = some k) :
    Seated sel p model tenant affinity now h k := by
  have hcandidates : ((p.candidates model tenant).map (·.addr)).Nodup :=
    hnodup.sublist ((List.filter_sublist.trans List.filter_sublist).map _)
  have hhealthy : ((p.healthy model tenant now h).map (·.addr)).Nodup :=
    hcandidates.sublist (List.filter_sublist.map _)
  unfold admitFor at hkey
  split at hkey
  · dsimp only at hkey
    split at hkey <;> cases hkey
  · dsimp only at hkey
    split at hkey
    · cases hkey
    · have hfold : (p.candidates model tenant).filter (looksHealthy h · now) =
          p.healthy model tenant now h := rfl
      rw [hfold] at hkey
      rcases afterPin_cases sel affinity _ h hhealthy with
        ⟨h', pinned, hafter, hpin, -, -, -⟩ | ⟨h', candidates, hafter, hpin, hdistinct, hlift⟩
      · rw [hafter] at hkey
        cases hkey
        exact .pinned hpin
      · rw [hafter] at hkey
        dsimp only at hkey
        have hlevelled := hlift _ (levelled_cases sel candidates.length 0 candidates h' le_rfl hdistinct)
        generalize levelled sel now candidates.length 0 candidates h' = r at hlevelled hkey
        cases hlevelled with
        | served h'' c hmem htakes hleast hgranted =>
          cases hkey
          refine .level hpin (List.mem_filter.mpr ⟨hmem, htakes⟩) fun c hc => ?_
          obtain ⟨hmem', htakes'⟩ := List.mem_filter.mp hc
          exact hleast c hmem' htakes'
        | refused h'' hnone hasked =>
          have hready : p.ready model tenant now h = [] :=
            List.filter_eq_nil_iff.mpr fun c hc => by rw [hnone c hc]; decide
          have hperm := List.perm_insertionSort (fun a b => share sel h'' a ≤ share sel h'' b)
            (p.candidates model tenant)
          dsimp only at hkey
          rw [recovering_find _ h'' ((hperm.map _).nodup_iff.mpr hcandidates) fun c hc hyes => ?_]
            at hkey
          · refine .probe hpin hready ?_
            have hoffered : offered now h'' = offered now h :=
              funext fun c => hasked.offered List.not_mem_nil
            unfold ProviderRuntime.probed
            rw [← hkey, hoffered]
            simp only [hasked.share]
          · -- a key that needs no probe is in rotation, and was refused there
            rw [hasked.breaker _ List.not_mem_nil] at hyes
            rw [hasked.takes]
            exact hnone c (List.mem_filter.mpr ⟨hperm.mem_iff.mp hc, looksHealthy_of_yes hyes⟩)

/-- A key in rotation that takes the request is admitted to. -/
theorem admitFor_ready {p : ProviderRuntime} (hkeys : p.keys ≠ [])
    (hnodup : (p.keys.map (·.addr)).Nodup) {model tenant : Option String}
    (affinity : Option String) (hready : p.ready model tenant now h ≠ []) :
    ∃ h' k, admitFor sel p model tenant affinity now h = (h', some ⟨some k, .yes, k.inflight⟩) ∧
      k ∈ p.keys ∧ Granted now [] h h' k .yes := by
  have hchosen := @admitFor_chosen κ _ sel now p hkeys hnodup model tenant affinity h
  generalize admitFor sel p model tenant affinity now h = r at hchosen
  cases hchosen with
  | healthy h' k hentitled _ _ hgranted => exact ⟨h', k, rfl, hentitled.mem, hgranted⟩
  | recovered h₁ r keys _ hnone _ _ =>
    obtain ⟨k, hk⟩ := List.exists_mem_of_ne_nil _ hready
    obtain ⟨hhealthy, htakes⟩ := List.mem_filter.mp hk
    obtain ⟨hcandidate, hwell⟩ := List.mem_filter.mp hhealthy
    rw [hnone k (mem_candidates.mp hcandidate) hwell] at htakes
    cases htakes

/-- With none, the caller's keys are asked for a probe. -/
theorem admitFor_recovering {p : ProviderRuntime} (hkeys : p.keys ≠ [])
    (hnodup : (p.keys.map (·.addr)).Nodup) {model tenant : Option String}
    (affinity : Option String) (hready : p.ready model tenant now h = []) :
    ∃ h', admitFor sel p model tenant affinity now h =
        recovering now (p.asked sel model tenant h) h' ∧ Asked now [] h h' := by
  have hcandidates : ((p.candidates model tenant).map (·.addr)).Nodup :=
    hnodup.sublist ((List.filter_sublist.trans List.filter_sublist).map _)
  have hhealthy : ((p.healthy model tenant now h).map (·.addr)).Nodup :=
    hcandidates.sublist (List.filter_sublist.map _)
  have hnobody : ∀ k ∈ p.healthy model tenant now h, takes h k now ≠ true := by
    intro k hk htakes
    have hmem : k ∈ p.ready model tenant now h := List.mem_filter.mpr ⟨hk, htakes⟩
    rw [hready] at hmem
    cases hmem
  unfold admitFor ProviderRuntime.asked
  rw [if_neg hkeys]
  dsimp only
  by_cases hnil : p.candidates model tenant = []
  · rw [if_pos hnil, hnil]
    exact ⟨h, rfl, Asked.refl now h⟩
  · rw [if_neg hnil]
    rcases afterPin_cases sel affinity _ h hhealthy with
      ⟨_, pinned, -, -, hmem, htakes, -⟩ | ⟨h', candidates, hafter, -, hdistinct, hlift⟩
    · exact absurd htakes (hnobody pinned hmem)
    · unfold ProviderRuntime.healthy at hafter
      rw [hafter]
      dsimp only
      have hlevelled := hlift _ (levelled_cases sel candidates.length 0 candidates h' le_rfl hdistinct)
      generalize levelled sel now candidates.length 0 candidates h' = r at hlevelled
      cases hlevelled with
      | served h'' k hmem htakes _ _ => exact absurd htakes (hnobody k hmem)
      | refused h'' _ hasked =>
        refine ⟨h'', ?_, hasked⟩
        simp only [hasked.share]

end RapidRouter.Core.Live
