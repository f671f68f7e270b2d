import RapidRouter.Lib.Json.Text

/-!
# Building JSON values

Objects given member by member, as `json!` builds them: what is found in
them, that they are in key order, how deep they are. A member of a value is
shallower than the value (`depth_lt_of_get?`) and is written inside it
(`infix_of_get?`).
-/

namespace Json

namespace Value

/-- `json!(n)` of a 64-bit count. -/
def ofU64 (n : Nat) : Value := .number (.posInt (n % 2 ^ 64) (Nat.mod_lt _ (by decide)))

theorem asU64_lt {v : Value} {n : Nat} (h : v.asU64 = some n) : n < 2 ^ 64 := by
  unfold asU64 at h
  split at h
  · next fits =>
    cases h
    exact fits
  · cases h

/-! ## Members -/

theorem foldl_insert_sorted : ∀ (members acc : List (String × Value)), Entries.Sorted acc →
    Entries.Sorted (members.foldl (fun acc m => Entries.insert m.1 m.2 acc) acc)
  | [], _, h => h
  | m :: rest, _, h => foldl_insert_sorted rest _ (Entries.sorted_insert m.1 m.2 h)

theorem mem_foldl_insert {e : String × Value} {members acc : List (String × Value)}
    (h : e ∈ members.foldl (fun acc m => Entries.insert m.1 m.2 acc) acc) :
    e ∈ members ∨ e ∈ acc := by
  induction members generalizing acc with
  | nil => exact Or.inr h
  | cons m rest ih =>
    rcases ih h with h | h
    · exact Or.inl (List.mem_cons_of_mem _ h)
    · rcases Entries.mem_insert h with rfl | h
      · exact Or.inl List.mem_cons_self
      · exact Or.inr h

theorem find?_foldl_insert (k : String) : ∀ (members acc : List (String × Value)),
    Entries.find? k (members.foldl (fun acc m => Entries.insert m.1 m.2 acc) acc) =
      members.foldl (fun found m => if k = m.1 then some m.2 else found) (Entries.find? k acc)
  | [], _ => rfl
  | m :: rest, acc => by
    rw [List.foldl_cons, find?_foldl_insert k rest, Entries.find?_insert]
    rfl

/-- The last of the members of this name. -/
theorem get?_ofMembers (members : List (String × Value)) (k : String) :
    (ofMembers members).get? k =
      members.foldl (fun found m => if k = m.1 then some m.2 else found) none :=
  find?_foldl_insert k members []

/-- A member looked up by name, the list of members being written out. -/
theorem index_ofMembers (members : List (String × Value)) (k : String) :
    (ofMembers members).index k =
      (members.foldl (fun found m => if k = m.1 then some m.2 else found) none).getD null :=
  congrArg (·.getD null) (get?_ofMembers members k)

/-- The last member of a name. -/
def lastMember (k : String) (members : List (String × Value)) : Option Value :=
  members.foldl (fun found m => if k = m.1 then some m.2 else found) none

/-- A member that is there or not. -/
def given (name : String) (v : Option Value) : List (String × Value) :=
  v.toList.map fun v => (name, v)

theorem foldl_lastMember (k : String) (members : List (String × Value)) (found : Option Value) :
    members.foldl (fun found m => if k = m.1 then some m.2 else found) found =
      (lastMember k members).or found := by
  induction members generalizing found with
  | nil => rfl
  | cons m rest ih =>
    unfold lastMember
    rw [List.foldl_cons, List.foldl_cons, ih, ih, Option.or_assoc]
    by_cases hk : k = m.1
    · rw [if_pos hk, if_pos hk]
      rfl
    · rw [if_neg hk, if_neg hk]
      rfl

@[simp] theorem lastMember_nil (k : String) : lastMember k [] = none := rfl

@[simp] theorem lastMember_append (k : String) (members later : List (String × Value)) :
    lastMember k (members ++ later) = (lastMember k later).or (lastMember k members) := by
  unfold lastMember
  rw [List.foldl_append, foldl_lastMember]
  rfl

@[simp] theorem lastMember_cons (k name : String) (v : Value) (members : List (String × Value)) :
    lastMember k ((name, v) :: members) =
      (lastMember k members).or (if k = name then some v else none) :=
  foldl_lastMember k members _

@[simp] theorem lastMember_given (k name : String) (v : Option Value) :
    lastMember k (given name v) = if k = name then v else none := by
  cases v with
  | none => exact (ite_self none).symm
  | some v => rfl

theorem get?_build (members : List (String × Value)) (k : String) :
    (ofMembers members).get? k = lastMember k members := get?_ofMembers members k

theorem index_build (members : List (String × Value)) (k : String) :
    (ofMembers members).index k = (lastMember k members).getD null := index_ofMembers members k

theorem eq_string_of_asStr {v : Value} {s : String} (h : v.asStr = some s) : v = string s := by
  cases v with
  | string t => rw [Option.some.inj h]
  | _ => cases h

/-- The member at the end of a path of names. -/
def at? : List String → Value → Option Value
  | [], v => some v
  | k :: path, v => (v.get? k).bind (at? path)

theorem at?_nil (v : Value) : v.at? [] = some v := rfl

theorem at?_cons (k : String) (path : List String) (v : Value) :
    v.at? (k :: path) = (v.get? k).bind (at? path) := rfl

theorem at?_single (k : String) (v : Value) : v.at? [k] = v.get? k := by
  cases h : v.get? k with
  | none => rw [at?_cons, h, Option.bind_none]
  | some x => rw [at?_cons, h, Option.bind_some, at?_nil]

/-- An object that is left out when it has no members. -/
theorem bind_at?_nonempty (k : String) (members : List (String × Value)) :
    (if members.isEmpty then none else some (ofMembers members)).bind (at? [k]) =
      lastMember k members := by
  cases members with
  | nil => rfl
  | cons m rest => exact (at?_single k _).trans (get?_build (m :: rest) k)

@[simp] theorem index_null (k : String) : null.index k = null := rfl

@[simp] theorem asU64_null : null.asU64 = none := rfl

@[simp] theorem isObject_ofMembers (members : List (String × Value)) :
    (ofMembers members).isObject = true := rfl

theorem wf_ofMembers {members : List (String × Value)} (h : ∀ m ∈ members, m.2.WF) :
    (ofMembers members).WF := by
  refine ⟨foldl_insert_sorted members [] List.Pairwise.nil, ?_⟩
  rw [membersWF_iff]
  intro m hm
  rcases mem_foldl_insert hm with hm | hm
  · exact h m hm
  · cases hm

theorem wf_ofU64 (n : Nat) : (ofU64 n).WF := trivial

theorem wf_array {items : List Value} (h : ∀ v ∈ items, v.WF) : (array items).WF :=
  itemsWF_iff.mpr h

theorem mem_of_get? {v x : Value} {k : String} (h : v.get? k = some x) :
    ∃ members, v = object members ∧ (k, x) ∈ members := by
  cases v with
  | object members =>
    refine ⟨members, rfl, ?_⟩
    change Entries.find? k members = some x at h
    induction members with
    | nil => cases h
    | cons m rest ih =>
      unfold Entries.find? at h
      split at h
      · next hk =>
        cases h
        rw [hk]
        exact List.mem_cons_self
      · exact List.mem_cons_of_mem _ (ih h)
  | _ => cases h

theorem get?_ofMembers_none {members : List (String × Value)} {k : String}
    (h : ∀ m ∈ members, m.1 ≠ k) : (ofMembers members).get? k = none := by
  by_contra hsome
  obtain ⟨x, hx⟩ := Option.ne_none_iff_exists'.mp hsome
  obtain ⟨sorted, heq, hmem⟩ := mem_of_get? hx
  cases heq
  rcases mem_foldl_insert hmem with hmem | hmem
  · exact h _ hmem rfl
  · cases hmem

theorem WF.get? {v x : Value} {k : String} (hv : v.WF) (h : v.get? k = some x) : x.WF := by
  obtain ⟨members, rfl, hmem⟩ := mem_of_get? h
  exact membersWF_iff.mp hv.2 _ hmem

theorem WF.index {v : Value} (hv : v.WF) (k : String) : (v.index k).WF := by
  unfold Value.index
  cases h : v.get? k with
  | none => trivial
  | some x => exact hv.get? h

theorem WF.at {v : Value} (hv : v.WF) (i : Nat) : (v.at_ i).WF := by
  cases v with
  | array items =>
    show (items.getD i null).WF
    rw [List.getD_eq_getElem?_getD]
    cases h : items[i]? with
    | none => trivial
    | some x => exact itemsWF_iff.mp hv x (List.mem_of_getElem? h)
  | _ => trivial

theorem WF.asArray {v : Value} (hv : v.WF) {items : List Value} (h : v.asArray = some items) :
    ∀ x ∈ items, x.WF := by
  cases v with
  | array => cases h; exact itemsWF_iff.mp hv
  | _ => cases h

/-! ## Depth -/

theorem itemsDepth_lt {n : Nat} (hn : 0 < n) {items : List Value} :
    Raw.itemsDepth (itemsToRaw items) < n ↔ ∀ v ∈ items, v.depth < n := by
  induction items with
  | nil => simp [itemsToRaw, Raw.itemsDepth, hn]
  | cons v rest ih =>
    unfold itemsToRaw Raw.itemsDepth
    rw [max_lt_iff, ih, List.forall_mem_cons]
    rfl

theorem membersDepth_lt {n : Nat} (hn : 0 < n) : ∀ {members : List (String × Value)},
    Raw.membersDepth (membersToRaw members) < n ↔ ∀ m ∈ members, m.2.depth < n
  | [] => by simp [membersToRaw, Raw.membersDepth, hn]
  | m :: rest => by
    unfold membersToRaw Raw.membersDepth
    rw [max_lt_iff, membersDepth_lt hn, List.forall_mem_cons]
    rfl

theorem depth_array_le {n : Nat} (hn : 0 < n) {items : List Value} :
    (array items).depth ≤ n ↔ ∀ v ∈ items, v.depth < n := itemsDepth_lt hn

theorem depth_object_le {n : Nat} (hn : 0 < n) {members : List (String × Value)} :
    (object members).depth ≤ n ↔ ∀ m ∈ members, m.2.depth < n := membersDepth_lt hn

theorem depth_ofMembers_le {n : Nat} (hn : 0 < n) {members : List (String × Value)}
    (h : ∀ m ∈ members, m.2.depth < n) : (ofMembers members).depth ≤ n := by
  refine (depth_object_le hn).mpr fun m hm => ?_
  rcases mem_foldl_insert hm with hm | hm
  · exact h m hm
  · cases hm

theorem depth_lt_of_mem {v : Value} {items : List Value} (h : v ∈ items) :
    v.depth < (array items).depth :=
  (depth_array_le (Nat.succ_pos _)).mp le_rfl v h

theorem depth_lt_of_get? {v x : Value} {k : String} (h : v.get? k = some x) : x.depth < v.depth := by
  obtain ⟨members, rfl, hmem⟩ := mem_of_get? h
  exact (depth_object_le (Nat.succ_pos _)).mp le_rfl _ hmem

theorem depth_of_asU64 {v : Value} {n : Nat} (h : v.asU64 = some n) : v.depth = 0 := by
  cases v with
  | number n => rfl
  | _ => cases h

/-! ## What was read can be read again -/

mutual

theorem depth_of_toValue {depth : Nat} : ∀ {r : Raw} {v : Value}, 0 < depth →
    r.toValue depth = some v → v.depth < depth
  | .null, v, hd, h => by
    cases h
    exact hd
  | .bool _, v, hd, h => by
    cases h
    exact hd
  | .number n, v, hd, h => by
    obtain ⟨_, _, rfl⟩ := Option.map_eq_some_iff.mp h
    exact hd
  | .string s, v, hd, h => by
    obtain ⟨_, _, rfl⟩ := Option.map_eq_some_iff.mp h
    exact hd
  | .array items, v, hd, h => by
    unfold Raw.toValue at h
    split at h
    · cases h
    · obtain ⟨vs, hvs, rfl⟩ := Option.map_eq_some_iff.mp h
      have := depth_of_toItems (by omega) hvs
      show Raw.itemsDepth (Value.itemsToRaw vs) + 1 < depth
      omega
  | .object members, v, hd, h => by
    unfold Raw.toValue at h
    split at h
    · cases h
    · obtain ⟨vs, hvs, rfl⟩ := Option.map_eq_some_iff.mp h
      have := depth_of_toMembers (by omega) (show 0 < depth - 1 by omega) hvs
      show Raw.membersDepth (Value.membersToRaw vs) + 1 < depth
      omega

theorem depth_of_toItems {depth : Nat} : ∀ {items : List Raw} {vs : List Value}, 0 < depth →
    Raw.toItems depth items = some vs → Raw.itemsDepth (Value.itemsToRaw vs) < depth
  | [], vs, hd, h => by
    cases h
    exact hd
  | r :: rest, vs, hd, h => by
    unfold Raw.toItems at h
    obtain ⟨v, hv, h⟩ := Option.bind_eq_some_iff.mp h
    obtain ⟨vs', hvs', h⟩ := Option.bind_eq_some_iff.mp h
    cases h
    exact max_lt (depth_of_toValue hd hv) (depth_of_toItems hd hvs')

theorem depth_of_toMembers {depth : Nat} : ∀ {members : List (Bytes × Raw)}
    {acc vs : List (String × Value)}, 0 < depth → Raw.membersDepth (Value.membersToRaw acc) < depth →
    Raw.toMembers depth acc members = some vs → Raw.membersDepth (Value.membersToRaw vs) < depth
  | [], acc, vs, hd, hacc, h => by
    cases h
    exact hacc
  | (k, r) :: rest, acc, vs, hd, hacc, h => by
    unfold Raw.toMembers at h
    obtain ⟨key, _, h⟩ := Option.bind_eq_some_iff.mp h
    obtain ⟨v, hv, h⟩ := Option.bind_eq_some_iff.mp h
    refine depth_of_toMembers hd ((membersDepth_lt hd).mpr fun m hm => ?_) h
    rcases Entries.mem_insert hm with rfl | hm
    · exact depth_of_toValue hd hv
    · exact (membersDepth_lt hd).mp hacc m hm

end
/-- A value that was read is printed as a text that reads as that value. -/
theorem fromSlice_print_of_read {b : Bytes} {v : Value} (h : fromSlice b = some v) :
    fromSlice v.print = some v := by
  obtain ⟨r, _, hr⟩ := Option.bind_eq_some_iff.mp h
  rw [fromSlice_print (Raw.toValue_wf hr), if_pos (depth_of_toValue (by decide) hr)]

/-! ## A member is written in its object -/

theorem infix_of_get? {v x : Value} {k : String} (h : v.get? k = some x) :
    printString k ++ ascii ':' :: x.print <:+: v.print := by
  obtain ⟨members, rfl, hmem⟩ := mem_of_get? h
  exact infix_print hmem

end Value

end Json
