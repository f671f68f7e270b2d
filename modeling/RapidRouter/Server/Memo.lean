import RapidRouter.Lib.Joined
import RapidRouter.Lib.Lts
import RapidRouter.Usage.Rollup

/-!
# The memo of analytics answers

`AnalyticsMemo` and the three endpoints of `admin.rs` that are `memoised`. A
question is kept under a text that joins its filters with `-`, and a filter
may have one in it: `memo_iff` says that the answers shown for a question are
its own exactly when no filter of it has.

An entry keeps, in place of the answer, the request it was computed for.
Between the look into the memo and the entry that is put there other requests
come and go.
-/

namespace RapidRouter.Server.Memo

open Lts
open Usage.Rollup (HistoryFilter)

/-! ## The memo -/

/-- The instant is when the answer stops counting. -/
abbrev AnalyticsMemo (α : Type) := OrdMap String (Nat × α)

/-- Instants and durations are in nanoseconds. -/
def seconds (n : Nat) : Nat := n * 1000000000

def memoTtlLive : Nat := seconds 3
def memoTtlClosed : Nat := seconds 300
def memoCap : Nat := 512

namespace AnalyticsMemo

variable {α : Type}

def get (memo : AnalyticsMemo α) (key : String) (now : Nat) : Option α :=
  match memo.get? key with
  | some (expires, value) => if expires > now then some value else none
  | none => none

def put (memo : AnalyticsMemo α) (key : String) (ttl : Nat) (value : α) (now : Nat) :
    AnalyticsMemo α :=
  let live := memo.retain fun _ entry => entry.1 > now
  let entries := if live.entries.length ≥ memoCap then .empty else live
  entries.insert key (now + ttl, value)

theorem get_put_self (memo : AnalyticsMemo α) (key : String) {ttl : Nat} (value : α) (now : Nat)
    (httl : 0 < ttl) : (memo.put key ttl value now).get key now = some value := by
  unfold get put
  dsimp only
  rw [OrdMap.get?_insert_self]
  dsimp only
  rw [if_pos (by omega)]

/-- What is answered is in the memo. -/
theorem get_eq {memo : AnalyticsMemo α} {key : String} {now : Nat} {value : α}
    (h : memo.get key now = some value) : ∃ expires, memo.get? key = some (expires, value) := by
  unfold get at h
  split at h
  · next expires found hentry =>
    split at h
    · cases h
      exact ⟨expires, hentry⟩
    · cases h
  · cases h

/-- An entry was there before, or is the one that is put. -/
theorem mem_put {memo : AnalyticsMemo α} {key key' : String} {ttl now : Nat} {value : α}
    {entry : Nat × α} (h : (memo.put key ttl value now).get? key' = some entry) :
    (key' = key ∧ entry.2 = value) ∨ memo.get? key' = some entry := by
  unfold put at h
  dsimp only at h
  rw [OrdMap.get?_insert] at h
  by_cases hkey : key' = key
  · rw [if_pos hkey, Option.some.injEq] at h
    subst h
    exact .inl ⟨hkey, rfl⟩
  · rw [if_neg hkey] at h
    right
    split at h
    · cases h
    · rw [OrdMap.get?_retain, Option.filter_eq_some_iff] at h
      exact h.1

end AnalyticsMemo

/-- `memo_ttl`, of two points of the calendar clock in milliseconds. -/
def memoTtl (untilMs nowMs : Nat) : Nat :=
  if untilMs < nowMs - nowMs % 86400000 then memoTtlClosed else memoTtlLive

/-! ## The requests -/

/-- The fields of a `RequestsQuery` that a summary reads. -/
structure RequestsQuery where
  key : Option String
  provider : Option String
  model : Option String
  errors : Bool
  sinceMs : Option Nat
  untilMs : Option Nat
  deriving DecidableEq

structure HistoryQuery where
  days : Nat
  by_ : Option String
  provider : Option String
  model : Option String
  key : Option String
  deriving DecidableEq

/-- An empty filter is none. -/
def nonEmpty (filter : Option String) : Option String := filter.filter (· ≠ "")

/-- `v.as_deref().unwrap_or("")` -/
def text (v : Option String) : String := v.getD ""

/-- The fields are joined with `-`. -/
def joined (fields : List String) : String := "-".intercalate fields

namespace RequestsQuery

def since (query : RequestsQuery) (now : Nat) : Nat := query.sinceMs.getD (now - 3600000)

def till (query : RequestsQuery) (now : Nat) : Nat := query.untilMs.getD now

def filter (query : RequestsQuery) : HistoryFilter where
  provider := nonEmpty query.provider
  model := nonEmpty query.model
  vkey := nonEmpty query.key

def memoKey (query : RequestsQuery) (sinceMs untilMs : Nat) : String :=
  joined [toString (sinceMs / 1000), toString (untilMs / 1000), text query.provider,
    text query.model, text query.key, toString query.errors]

end RequestsQuery

namespace HistoryQuery

def maxHistoryDays : Nat := 400

/-- `all` returns every grouping from one read. -/
def every (query : HistoryQuery) : Bool := text query.by_ = "all"

def grouping (query : HistoryQuery) : String :=
  if text query.by_ ∈ ["provider", "model", "key"] then text query.by_ else ""

def filter (query : HistoryQuery) : HistoryFilter where
  provider := nonEmpty query.provider
  model := nonEmpty query.model
  vkey := nonEmpty query.key

/-- `clamp(1, MAX_HISTORY_DAYS)` -/
def dayCount (query : HistoryQuery) : Nat := max 1 (min query.days maxHistoryDays)

def memoKey (query : HistoryQuery) : String :=
  joined [toString query.dayCount, if query.every then "all" else query.grouping,
    text query.filter.provider, text query.filter.model, text query.filter.vkey, "live"]

end HistoryQuery

/-- A request to one of the endpoints that share the memo. -/
inductive Request where
  | requestsSummary (query : RequestsQuery)
  | usageSummary (query : RequestsQuery)
  | history (query : HistoryQuery)
  deriving DecidableEq

/-- A request, and what the calendar clock said when it came. -/
structure Asked where
  request : Request
  nowMs : Nat
  deriving DecidableEq

namespace Asked

def key (asked : Asked) : String :=
  match asked.request with
  | .requestsSummary q =>
    "requests/summary?" ++ q.memoKey (q.since asked.nowMs) (q.till asked.nowMs)
  | .usageSummary q => "usage/summary?" ++ q.memoKey (q.since asked.nowMs) (q.till asked.nowMs)
  | .history q => "history?" ++ q.memoKey

def ttl (asked : Asked) : Nat :=
  match asked.request with
  | .requestsSummary q | .usageSummary q => memoTtl (q.till asked.nowMs) asked.nowMs
  | .history _ => memoTtlLive

end Asked

/-! ## Questions -/

/-- What an answer depends on. -/
inductive Question where
  | requestsSummary (sinceS untilS : Nat) (filter : HistoryFilter) (errors : Bool)
  | usageSummary (sinceS untilS : Nat) (filter : HistoryFilter) (errors : Bool)
  | history (days : Nat) (every : Bool) (grouping : String) (filter : HistoryFilter)
  deriving DecidableEq

def Question.filter : Question → HistoryFilter
  | .requestsSummary _ _ f _ | .usageSummary _ _ f _ | .history _ _ _ f => f

namespace Asked

def question (asked : Asked) : Question :=
  match asked.request with
  | .requestsSummary q =>
    .requestsSummary (q.since asked.nowMs / 1000) (q.till asked.nowMs / 1000) q.filter q.errors
  | .usageSummary q =>
    .usageSummary (q.since asked.nowMs / 1000) (q.till asked.nowMs / 1000) q.filter q.errors
  | .history q => .history q.dayCount q.every q.grouping q.filter

def filter (asked : Asked) : HistoryFilter := asked.question.filter

/-- The filters as a key has them. -/
def filters (asked : Asked) : List String :=
  [text asked.filter.provider, text asked.filter.model, text asked.filter.vkey]

/-- No filter has the separator in it. -/
def Plain (asked : Asked) : Prop := ∀ f ∈ asked.filters, '-' ∉ f.toList

/-- The same request with other filters. -/
def refilter (asked : Asked) (provider model key : String) : Asked where
  request :=
    match asked.request with
    | .requestsSummary q =>
      .requestsSummary { q with provider := some provider, model := some model, key := some key }
    | .usageSummary q =>
      .usageSummary { q with provider := some provider, model := some model, key := some key }
    | .history q =>
      .history { q with provider := some provider, model := some model, key := some key }
  nowMs := asked.nowMs

/-- What stands before the fields, and the fields before and after the filters. -/
def frame (asked : Asked) : String × List String × List String :=
  match asked.request with
  | .requestsSummary q =>
    ("requests/summary?",
      [toString (q.since asked.nowMs / 1000), toString (q.till asked.nowMs / 1000)],
      [toString q.errors])
  | .usageSummary q =>
    ("usage/summary?",
      [toString (q.since asked.nowMs / 1000), toString (q.till asked.nowMs / 1000)],
      [toString q.errors])
  | .history q =>
    ("history?", [toString q.dayCount, if q.every then "all" else q.grouping], ["live"])

end Asked

theorem text_nonEmpty (v : Option String) : text (nonEmpty v) = text v := by
  cases v with
  | none => rfl
  | some s =>
    by_cases hs : s = ""
    · subst hs
      rfl
    · exact congrArg text (Option.filter_some_pos (decide_eq_true hs))

theorem nonEmpty_nonEmpty (v : Option String) : nonEmpty (nonEmpty v) = nonEmpty v := by
  unfold nonEmpty
  rw [Option.filter_filter]
  congr 1
  funext s
  exact Bool.and_self _

theorem nonEmpty_of_text {v w : Option String} (h : text v = text w) : nonEmpty v = nonEmpty w := by
  have hread : ∀ u : Option String, nonEmpty u = nonEmpty (some (text u)) := by
    intro u
    cases u with
    | none => rfl
    | some s => rfl
  rw [hread v, hread w, h]

theorem toList_joined (fields : List String) :
    (joined fields).toList = ['-'].intercalate (fields.map String.toList) :=
  String.toList_intercalate

/-- A key is its frame around the filters. -/
theorem key_eq (asked : Asked) :
    asked.key = asked.frame.1 ++ joined (asked.frame.2.1 ++ asked.filters ++ asked.frame.2.2) := by
  obtain ⟨request, nowMs⟩ := asked
  cases request with
  | requestsSummary q | usageSummary q =>
    dsimp only [Asked.key, Asked.frame, Asked.filters, Asked.filter, Asked.question,
      Question.filter, RequestsQuery.filter, RequestsQuery.memoKey]
    rw [text_nonEmpty, text_nonEmpty, text_nonEmpty]
    rfl
  | history q =>
    dsimp only [Asked.key, Asked.frame, Asked.filters, Asked.filter, Asked.question,
      Question.filter, HistoryQuery.memoKey, List.cons_append, List.nil_append]

theorem frame_refilter (asked : Asked) (provider model key : String) :
    (asked.refilter provider model key).frame = asked.frame := by
  obtain ⟨request, nowMs⟩ := asked
  cases request <;> rfl

theorem filters_refilter (asked : Asked) (provider model key : String) :
    (asked.refilter provider model key).filters = [provider, model, key] := by
  have htext : ∀ s, text (nonEmpty (some s)) = s := fun s => text_nonEmpty (some s)
  obtain ⟨request, nowMs⟩ := asked
  cases request with
  | requestsSummary q | usageSummary q | history q =>
    show [text (nonEmpty (some provider)), text (nonEmpty (some model)),
      text (nonEmpty (some key))] = [provider, model, key]
    rw [htext, htext, htext]

/-! ## A key that is shared -/

/-- What is cut off a filter at the separator may as well be of the next field. -/
theorem joined_shift (before : List String) (f g h : String) (after : List String) :
    joined (before ++ (f ++ "-" ++ g) :: h :: after) =
      joined (before ++ f :: (g ++ "-" ++ h) :: after) := by
  apply String.toList_injective
  rw [toList_joined, toList_joined]
  simp only [List.map_append, List.map_cons, String.toList_append, List.append_assoc]
  exact Joined.joined_split (before.map String.toList) f.toList g.toList h.toList
    (after.map String.toList)

/-- A text with a separator is cut at one. -/
theorem cut_of_mem {s : String} (h : '-' ∈ s.toList) : ∃ f g, s = f ++ "-" ++ g := by
  obtain ⟨f, g, hcut⟩ := List.append_of_mem h
  refine ⟨String.ofList f, String.ofList g, ?_⟩
  apply String.toList_injective
  rw [String.toList_append, String.toList_append, String.toList_ofList, String.toList_ofList, hcut,
    String.toList_ofList, List.append_assoc]
  rfl

theorem ne_cut (f g : String) : f ≠ f ++ "-" ++ g := by
  intro h
  have hlength := congrArg (fun s => s.toList.length) h
  simp only [String.toList_append, List.length_append] at hlength
  have hdash : "-".toList.length = 1 := rfl
  omega

/-- Another question under the same key. -/
theorem shared {asked : Asked} (h : ¬ asked.Plain) :
    ∃ other : Asked, other.key = asked.key ∧ other.question ≠ asked.question := by
  have hother : ∀ p m k : String, [p, m, k] ≠ asked.filters →
      (asked.refilter p m k).question ≠ asked.question := by
    intro p m k hne hquestion
    apply hne
    rw [← filters_refilter asked p m k]
    unfold Asked.filters Asked.filter
    rw [hquestion]
  have hkey : ∀ p m k : String, (asked.refilter p m k).key =
      asked.frame.1 ++ joined (asked.frame.2.1 ++ [p, m, k] ++ asked.frame.2.2) := by
    intro p m k
    rw [key_eq, frame_refilter, filters_refilter]
  obtain ⟨provider, model, key, hfilters⟩ : ∃ p m k, asked.filters = [p, m, k] := ⟨_, _, _, rfl⟩
  unfold Asked.Plain at h
  rw [hfilters] at h hother
  have hasked := key_eq asked
  rw [hfilters] at hasked
  push Not at h
  obtain ⟨f, hf, hdash⟩ := h
  obtain ⟨f, g, rfl⟩ := cut_of_mem hdash
  simp only [List.mem_cons, List.not_mem_nil, or_false] at hf
  -- A half of the filter goes to a neighbour: to the next one, or to the one before the last.
  rcases hf with rfl | rfl | rfl
  · refine ⟨asked.refilter f (g ++ "-" ++ model) key, ?_, hother _ _ _ ?_⟩
    · rw [hkey, hasked, List.append_assoc, List.append_assoc]
      exact congrArg _ (joined_shift _ f g model (key :: asked.frame.2.2)).symm
    · intro heq
      exact ne_cut f g (List.cons.inj heq).1
  · refine ⟨asked.refilter provider f (g ++ "-" ++ key), ?_, hother _ _ _ ?_⟩
    · have hshift := joined_shift (asked.frame.2.1 ++ [provider]) f g key asked.frame.2.2
      rw [List.append_assoc, List.append_assoc] at hshift
      rw [hkey, hasked, List.append_assoc, List.append_assoc]
      exact congrArg _ hshift.symm
    · intro heq
      exact ne_cut f g (List.cons.inj (List.cons.inj heq).2).1
  · refine ⟨asked.refilter provider (model ++ "-" ++ f) g, ?_, hother _ _ _ ?_⟩
    · have hshift := joined_shift (asked.frame.2.1 ++ [provider]) model f g asked.frame.2.2
      rw [List.append_assoc, List.append_assoc] at hshift
      rw [hkey, hasked, List.append_assoc, List.append_assoc]
      exact congrArg _ hshift
    · intro heq
      exact ne_cut model f (List.cons.inj (List.cons.inj heq).2).1.symm

/-! ## A key of one question -/

theorem toList_toString (n : Nat) : (toString n).toList = Nat.toDigits 10 n := String.toList_ofList

theorem toString_plain (n : Nat) : '-' ∉ (toString n).toList := by
  intro hdash
  rw [toList_toString] at hdash
  have hdigit := Nat.isDigit_of_mem_toDigits (by decide) (by decide) hdash
  revert hdigit
  decide

theorem toString_nat_inj {m n : Nat} (h : toString m = toString n) : m = n := by
  have hlist := congrArg String.toList h
  rw [toList_toString, toList_toString] at hlist
  rw [← Nat.ofDigitChars_ten_toDigits (n := m), hlist, Nat.ofDigitChars_ten_toDigits]

theorem toString_bool_inj {a b : Bool} (h : toString a = toString b) : a = b := by
  revert h
  cases a <;> cases b <;> decide

/-- The label of the groupings that are read. -/
theorem label_mem (q : HistoryQuery) :
    (if q.every then "all" else q.grouping) ∈ ["all", "provider", "model", "key", ""] := by
  unfold HistoryQuery.grouping
  cases q.every with
  | true => exact List.mem_cons_self
  | false =>
    show (if text q.by_ ∈ ["provider", "model", "key"] then text q.by_ else "") ∈ _
    split
    · next hmem => exact List.mem_cons_of_mem _ (List.mem_append_left [""] hmem)
    · decide

theorem label_inj {p q : HistoryQuery}
    (h : (if p.every then "all" else p.grouping) = (if q.every then "all" else q.grouping)) :
    p.every = q.every ∧ p.grouping = q.grouping := by
  have hall : ∀ r : HistoryQuery, r.every = true → r.grouping = "" := by
    intro r hevery
    unfold HistoryQuery.grouping
    rw [of_decide_eq_true hevery]
    decide
  have hnone : ∀ r : HistoryQuery, r.grouping ≠ "all" := by
    intro r
    unfold HistoryQuery.grouping
    split
    · next hmem =>
      intro hall
      rw [hall] at hmem
      revert hmem
      decide
    · decide
  cases hp : p.every with
  | true =>
    cases hq : q.every with
    | true => exact ⟨rfl, (hall p hp).trans (hall q hq).symm⟩
    | false =>
      rw [hp, hq] at h
      exact absurd h.symm (hnone q)
  | false =>
    cases hq : q.every with
    | true =>
      rw [hp, hq] at h
      exact absurd h (hnone p)
    | false =>
      rw [hp, hq] at h
      exact ⟨rfl, h⟩

theorem frame_plain (asked : Asked) :
    ∀ f ∈ asked.frame.2.1 ++ asked.frame.2.2, '-' ∉ f.toList := by
  obtain ⟨request, nowMs⟩ := asked
  cases request with
  | requestsSummary q | usageSummary q =>
    intro f hf
    simp only [Asked.frame, List.cons_append, List.nil_append, List.mem_cons, List.not_mem_nil,
      or_false] at hf
    rcases hf with rfl | rfl | rfl
    · exact toString_plain _
    · exact toString_plain _
    · cases q.errors <;> decide
  | history q =>
    intro f hf
    have hlabels : ∀ label ∈ ["all", "provider", "model", "key", "", "live"],
        '-' ∉ label.toList := by
      decide
    simp only [Asked.frame, List.cons_append, List.nil_append, List.mem_cons, List.not_mem_nil,
      or_false] at hf
    rcases hf with rfl | rfl | rfl
    · exact toString_plain _
    · exact hlabels _ (List.mem_append_left ["live"] (label_mem q))
    · decide

theorem joined_inj {fields fields' : List String} (hplain : ∀ f ∈ fields, '-' ∉ f.toList)
    (hlength : fields.length = fields'.length) (h : joined fields = joined fields') :
    fields = fields' := by
  have hlist := congrArg String.toList h
  rw [toList_joined, toList_joined] at hlist
  apply List.map_injective_iff.mpr (fun _ _ => String.toList_injective)
  apply Joined.joined_inj (c := '-') _ _ hlist
  · intro f hf
    obtain ⟨s, hs, rfl⟩ := List.mem_map.mp hf
    exact hplain s hs
  · rw [List.length_map, List.length_map, hlength]

theorem length_frame (asked : Asked) :
    asked.frame.2.1.length = 2 ∧ asked.frame.2.2.length = 1 := by
  obtain ⟨request, nowMs⟩ := asked
  cases request with
  | requestsSummary q | usageSummary q | history q => exact ⟨rfl, rfl⟩

theorem length_filters (asked : Asked) : asked.filters.length = 3 := rfl

/-- A key of plain filters is made in one way. -/
theorem parts_of_key {a b : Asked} (hplain : a.Plain) (hkey : a.key = b.key)
    (hhead : a.frame.1 = b.frame.1) :
    a.frame.2.1 = b.frame.2.1 ∧ a.filters = b.filters ∧ a.frame.2.2 = b.frame.2.2 := by
  have hbefore := (length_frame a).1.trans (length_frame b).1.symm
  have hafter := (length_frame a).2.trans (length_frame b).2.symm
  rw [key_eq, key_eq, hhead] at hkey
  have hjoined := String.append_right_inj b.frame.1 |>.mp hkey
  have hfields := joined_inj ?_ ?_ hjoined
  · obtain ⟨hfirst, hlast⟩ := List.append_inj' hfields hafter
    obtain ⟨hframe, hfilters⟩ := List.append_inj hfirst hbefore
    exact ⟨hframe, hfilters, hlast⟩
  · intro f hf
    have hframe := frame_plain a f
    simp only [List.mem_append] at hf hframe
    rcases hf with (hf | hf) | hf
    · exact hframe (.inl hf)
    · exact hplain f hf
    · exact hframe (.inr hf)
  · simp only [List.length_append]
    rw [length_filters, length_filters]
    omega

theorem filter_of_filters {a b : Asked} (h : a.filters = b.filters) : a.filter = b.filter := by
  have hread : ∀ x : Asked, x.filter =
      ⟨nonEmpty x.filter.provider, nonEmpty x.filter.model, nonEmpty x.filter.vkey⟩ := by
    intro x
    obtain ⟨request, nowMs⟩ := x
    cases request with
    | requestsSummary q | usageSummary q | history q =>
      show HistoryFilter.mk (nonEmpty q.provider) (nonEmpty q.model) (nonEmpty q.key) =
        ⟨nonEmpty (nonEmpty q.provider), nonEmpty (nonEmpty q.model), nonEmpty (nonEmpty q.key)⟩
      rw [nonEmpty_nonEmpty, nonEmpty_nonEmpty, nonEmpty_nonEmpty]
  unfold Asked.filters at h
  obtain ⟨hprovider, hrest⟩ := List.cons.inj h
  obtain ⟨hmodel, hrest⟩ := List.cons.inj hrest
  rw [hread a, hread b, nonEmpty_of_text hprovider, nonEmpty_of_text hmodel,
    nonEmpty_of_text (List.cons.inj hrest).1]

/-- The endpoint is the beginning of a key. -/
theorem head_of_key {a b : Asked} (h : a.key = b.key) : a.frame.1 = b.frame.1 := by
  have hfirst : ∀ x : Asked, x.key.toList.head? = x.frame.1.toList.head? := by
    intro x
    have hnonempty : x.frame.1.toList ≠ [] := by
      obtain ⟨request, nowMs⟩ := x
      cases request with
      | requestsSummary q =>
        show "requests/summary?".toList ≠ []
        decide
      | usageSummary q =>
        show "usage/summary?".toList ≠ []
        decide
      | history q =>
        show "history?".toList ≠ []
        decide
    rw [key_eq, String.toList_append, List.head?_append_of_ne_nil _ hnonempty]
  have hhead : a.frame.1.toList.head? = b.frame.1.toList.head? := by rw [← hfirst, ← hfirst, h]
  have hheads : ∀ x : Asked, x.frame.1 ∈ ["requests/summary?", "usage/summary?", "history?"] := by
    intro x
    obtain ⟨request, nowMs⟩ := x
    cases request with
    | requestsSummary q => exact List.mem_cons_self
    | usageSummary q => exact List.mem_cons_of_mem _ List.mem_cons_self
    | history q => exact List.mem_cons_of_mem _ (List.mem_cons_of_mem _ List.mem_cons_self)
  have hinj : ∀ s ∈ ["requests/summary?", "usage/summary?", "history?"],
      ∀ t ∈ ["requests/summary?", "usage/summary?", "history?"],
        s.toList.head? = t.toList.head? → s = t := by
    decide
  exact hinj _ (hheads a) _ (hheads b) hhead

theorem summary_congr {s s' u u' : Nat} {f f' : HistoryFilter} {e e' : Bool} (hs : s = s')
    (hu : u = u') (hf : f = f') (he : e = e') (mk : Nat → Nat → HistoryFilter → Bool → Question) :
    mk s u f e = mk s' u' f' e' := by
  rw [hs, hu, hf, he]

/-- Equal keys are of equal questions, when one of them is plain. -/
theorem question_of_key {a b : Asked} (hplain : a.Plain) (hkey : a.key = b.key) :
    a.question = b.question := by
  have hhead := head_of_key hkey
  obtain ⟨ra, na⟩ := a
  obtain ⟨rb, nb⟩ := b
  cases ra with
  | requestsSummary p =>
    cases rb with
    | requestsSummary q =>
      obtain ⟨hbefore, hfilters, hafter⟩ := parts_of_key hplain hkey hhead
      obtain ⟨hsince, hrest⟩ := List.cons.inj hbefore
      exact summary_congr (toString_nat_inj hsince) (toString_nat_inj (List.cons.inj hrest).1)
        (filter_of_filters hfilters) (toString_bool_inj (List.cons.inj hafter).1)
        Question.requestsSummary
    | usageSummary q => exact absurd hhead (by decide : "requests/summary?" ≠ "usage/summary?")
    | history q => exact absurd hhead (by decide : "requests/summary?" ≠ "history?")
  | usageSummary p =>
    cases rb with
    | requestsSummary q => exact absurd hhead (by decide : "usage/summary?" ≠ "requests/summary?")
    | usageSummary q =>
      obtain ⟨hbefore, hfilters, hafter⟩ := parts_of_key hplain hkey hhead
      obtain ⟨hsince, hrest⟩ := List.cons.inj hbefore
      exact summary_congr (toString_nat_inj hsince) (toString_nat_inj (List.cons.inj hrest).1)
        (filter_of_filters hfilters) (toString_bool_inj (List.cons.inj hafter).1)
        Question.usageSummary
    | history q => exact absurd hhead (by decide : "usage/summary?" ≠ "history?")
  | history p =>
    cases rb with
    | requestsSummary q => exact absurd hhead (by decide : "history?" ≠ "requests/summary?")
    | usageSummary q => exact absurd hhead (by decide : "history?" ≠ "usage/summary?")
    | history q =>
      obtain ⟨hbefore, hfilters, hafter⟩ := parts_of_key hplain hkey hhead
      obtain ⟨hdays, hrest⟩ := List.cons.inj hbefore
      obtain ⟨hevery, hgrouping⟩ := label_inj (List.cons.inj hrest).1
      have hfilter := filter_of_filters hfilters
      show Question.history p.dayCount p.every p.grouping p.filter =
        Question.history q.dayCount q.every q.grouping q.filter
      rw [toString_nat_inj hdays, hevery, hgrouping]
      exact congrArg _ hfilter

/-! ## The gateway -/

/-- The requests whose answers are being computed, and those that were
answered from the memo, each with the request its answer is of. -/
structure State where
  memo : AnalyticsMemo Asked
  now : Nat
  pending : List Asked
  served : List (Asked × Asked)

inductive Action where
  | elapse (d : Nat)
  | ask (asked : Asked)
  | computed (asked : Asked)
  | failed (asked : Asked)

/-- `memoised`: a look into the memo, and an entry once the answer is there. -/
def next (s : State) : Action → Option State
  | .elapse d => some { s with now := s.now + d }
  | .ask asked =>
    match s.memo.get asked.key s.now with
    | some hit => some { s with served := (asked, hit) :: s.served }
    | none => some { s with pending := asked :: s.pending }
  | .computed asked =>
    if asked ∈ s.pending then
      some { s with
        memo := s.memo.put asked.key asked.ttl asked s.now
        pending := s.pending.erase asked }
    else none
  | .failed asked =>
    if asked ∈ s.pending then some { s with pending := s.pending.erase asked } else none

/-- A gateway that starts has nothing in its memo. -/
def start (now : Nat) : State := ⟨.empty, now, [], []⟩

def gateway : System State Action := ofNext (fun s => ∃ now, s = start now) next

/-! ## What is shown -/

/-- An entry is under the key of the request it is of, and so is what was shown. -/
structure Inv (s : State) : Prop where
  entries : ∀ key entry, s.memo.get? key = some entry → entry.2.key = key
  served : ∀ asked origin, (asked, origin) ∈ s.served → origin.key = asked.key

theorem inv_start (now : Nat) : Inv (start now) where
  entries := by
    intro key entry h
    cases h
  served := by
    intro asked origin h
    cases h

theorem inv_next {s s' : State} {a : Action} (hinv : Inv s) (h : next s a = some s') : Inv s' := by
  cases a with
  | elapse d =>
    cases h
    exact ⟨hinv.entries, hinv.served⟩
  | ask asked =>
    dsimp only [next] at h
    cases hit : s.memo.get asked.key s.now with
    | none =>
      rw [hit] at h
      cases h
      exact ⟨hinv.entries, hinv.served⟩
    | some origin =>
      rw [hit] at h
      cases h
      refine ⟨hinv.entries, ?_⟩
      intro asked' origin' hmem
      rcases List.mem_cons.mp hmem with heq | hmem
      · cases heq
        obtain ⟨expires, hentry⟩ := AnalyticsMemo.get_eq hit
        exact hinv.entries _ _ hentry
      · exact hinv.served asked' origin' hmem
  | computed asked =>
    dsimp only [next] at h
    split at h
    · cases h
      refine ⟨?_, hinv.served⟩
      intro key entry hentry
      rcases AnalyticsMemo.mem_put hentry with ⟨hkey, hvalue⟩ | hold
      · rw [hkey, hvalue]
      · exact hinv.entries key entry hold
    · cases h
  | failed asked =>
    dsimp only [next] at h
    split at h
    · cases h
      exact ⟨hinv.entries, hinv.served⟩
    · cases h

theorem inv_of_reach {s : State} (h : Reach gateway free s) : Inv s := by
  induction h with
  | start hstart =>
    obtain ⟨now, rfl⟩ := hstart
    exact inv_start now
  | step _ _ hstep ih => exact inv_next ih hstep

theorem ttl_pos (asked : Asked) : 0 < asked.ttl := by
  have hpos : ∀ u n, 0 < memoTtl u n := by
    intro u n
    unfold memoTtl
    split
    · decide
    · decide
  unfold Asked.ttl
  split
  · exact hpos _ _
  · exact hpos _ _
  · decide

theorem next_hit {s : State} (asked : Asked) {origin : Asked}
    (hit : s.memo.get asked.key s.now = some origin) :
    next s (.ask asked) = some { s with served := (asked, origin) :: s.served } := by
  dsimp only [next]
  rw [hit]

/-- A request is shown what was computed for another one with its key. -/
theorem served_again {first second : Asked} (hkey : first.key = second.key) :
    ∃ s, Reach gateway free s ∧ (second, first) ∈ s.served := by
  have hasked : next (start 0) (.ask first) = some { start 0 with pending := [first] } := rfl
  have hcomputed : next { start 0 with pending := [first] } (.computed first) =
      some { start 0 with memo := AnalyticsMemo.put .empty first.key first.ttl first 0 } := by
    show (if first ∈ [first] then _ else none) = _
    rw [if_pos List.mem_cons_self, List.erase_cons_head]
    rfl
  have hhit : (AnalyticsMemo.put .empty first.key first.ttl first 0).get second.key 0 =
      some first := by
    rw [← hkey]
    exact AnalyticsMemo.get_put_self .empty first.key first 0 (ttl_pos first)
  have hserved := next_hit second (s := { start 0 with
    memo := AnalyticsMemo.put .empty first.key first.ttl first 0 }) hhit
  have hreach : Reach gateway free (start 0) := Reach.start ⟨0, rfl⟩
  exact ⟨_, ((hreach.step trivial hasked).step trivial hcomputed).step trivial hserved,
    List.mem_cons_self⟩

/-- The answers that are shown for a question from the memo are its own, in
every run, exactly when none of its filters has a `-`. -/
theorem memo_iff (asked : Asked) :
    (∀ s, Reach gateway free s → ∀ origin, (asked, origin) ∈ s.served →
      origin.question = asked.question) ↔ asked.Plain := by
  constructor
  · intro h
    by_contra hplain
    obtain ⟨other, hkey, hquestion⟩ := shared hplain
    obtain ⟨s, hreach, hserved⟩ := served_again hkey
    exact hquestion (h s hreach other hserved)
  · intro hplain s hreach origin hserved
    exact (question_of_key hplain ((inv_of_reach hreach).served asked origin hserved).symm).symm

/-- The usage of a key with a model, in the first second. -/
def usageOf (model key : String) : Asked where
  request := .usageSummary
    { key := some key, provider := none, model := some model, errors := false
      sinceMs := some 0, untilMs := some 1000 }
  nowMs := 1000

/-- The usage of `prod` with `gpt-4` is shown as that of `4-prod` with `gpt`. -/
theorem usage_of_another : ∃ s, Reach gateway free s ∧
    (usageOf "gpt" "4-prod", usageOf "gpt-4" "prod") ∈ s.served ∧
    (usageOf "gpt-4" "prod").question ≠ (usageOf "gpt" "4-prod").question := by
  obtain ⟨s, hreach, hserved⟩ := served_again
    (by decide +kernel : (usageOf "gpt-4" "prod").key = (usageOf "gpt" "4-prod").key)
  exact ⟨s, hreach, hserved, by decide⟩

end RapidRouter.Server.Memo
