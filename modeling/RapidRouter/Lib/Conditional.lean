/-!
# Conditional writes

One object that many clients read and replace. A client keeps a base, which is
what it read, and sends a write with a condition the store checks against the
object that is there. What the condition looks at is the store's own affair (a
tag of the bytes, a number beside them); what clients rely on is that it holds
over the object the base was read from and over no other.

`Known` is what a client knows of an old base: the object has moved on, or it
is still the one. Every write raises the version, so a base that was once
written over is never current again (`Known.stale`), and the objects form a
chain in which each replaced the one its base was read from (`Linked`).
-/

namespace Conditional

variable {ω β δ : Type}

structure Register (ω β δ : Type) where
  /-- What a client keeps of the object there, where it can be read. -/
  read : Option ω → Option β
  version : β → Nat
  /-- The object a write of `δ` over a base leaves. -/
  write : β → δ → Option ω
  /-- What the store checks. -/
  condition : β → Option ω → Bool

namespace Register

variable (r : Register ω β δ)

/-- A base read from the object there or from an older one. -/
def Known (stored : Option ω) (x : β) : Prop :=
  ∃ c, r.read stored = some c ∧ r.version x ≤ r.version c ∧ (r.version x = r.version c → x = c)

/-- The base of some object. -/
def Genuine (Good : Option ω → Prop) (x : β) : Prop := ∃ o, Good o ∧ r.read o = some x

structure Lawful (Good : Option ω → Prop) : Prop where
  written : ∀ {x d o}, r.write x d = some o →
    Good (some o) ∧ ∃ y, r.read (some o) = some y ∧ r.version y = r.version x + 1
  condition_iff : ∀ {stored x}, Good stored → r.Known stored x → r.Genuine Good x →
    (r.condition x stored = true ↔ r.read stored = some x)

/-- The object has been replaced since the base was read. -/
def Past (stored : Option ω) (x : β) : Prop :=
  ∃ c, r.read stored = some c ∧ r.version x < r.version c

variable {r} {Good : Option ω → Prop} {stored : Option ω} {x y : β} {d : δ} {o : ω}

theorem known_self (h : r.read stored = some x) : r.Known stored x :=
  ⟨x, h, Nat.le_refl _, fun _ => rfl⟩

/-- A base is the one there, or the store has moved past it. -/
theorem Known.current_or_past (h : r.Known stored x) :
    r.read stored = some x ∨ r.Past stored x := by
  obtain ⟨c, hc, hle, heq⟩ := h
  by_cases hv : r.version x = r.version c
  · exact Or.inl (heq hv ▸ hc)
  · exact Or.inr ⟨c, hc, by omega⟩

theorem Past.not_current (h : r.Past stored x) : r.read stored ≠ some x := by
  obtain ⟨c, hc, hlt⟩ := h
  intro hx
  rw [hc, Option.some.injEq] at hx
  rw [hx] at hlt
  exact Nat.lt_irrefl _ hlt

/-- Over a base that was written over, no condition holds again. -/
theorem Known.stale (hr : r.Lawful Good) (hgood : Good stored) (hx : r.Known stored x)
    (hx' : r.Genuine Good x) : r.condition x stored = false ↔ r.Past stored x := by
  have hiff := hr.condition_iff hgood hx hx'
  constructor
  · intro h
    rcases hx.current_or_past with hcur | hpast
    · rw [hiff.mpr hcur] at h
      cases h
    · exact hpast
  · intro hpast
    cases hcond : r.condition x stored with
    | false => rfl
    | true => exact absurd (hiff.mp hcond) hpast.not_current

/-- The condition compares versions. -/
theorem Known.condition_iff_version (hr : r.Lawful Good) (hgood : Good stored)
    (hx : r.Known stored x) (hx' : r.Genuine Good x) {c : β} (hc : r.read stored = some c) :
    r.condition x stored = true ↔ r.version x = r.version c := by
  rw [hr.condition_iff hgood hx hx', hc, Option.some.injEq]
  obtain ⟨c', hc', _, heq⟩ := hx
  rw [hc, Option.some.injEq] at hc'
  subst hc'
  exact ⟨fun h => by rw [h], fun h => (heq h).symm⟩

/-- A write keeps what every client knows. -/
theorem Known.write (hr : r.Lawful Good) (hx : r.read stored = some x)
    (hwrite : r.write x d = some o) (hy : r.Known stored y) : r.Known (some o) y := by
  obtain ⟨c, hc, hle, _⟩ := hy
  rw [hx, Option.some.injEq] at hc
  subst hc
  obtain ⟨_, z, hz, hv⟩ := hr.written hwrite
  exact ⟨z, hz, by omega, fun h => absurd h (by omega)⟩

theorem Past.write (hr : r.Lawful Good) (hx : r.read stored = some x)
    (hwrite : r.write x d = some o) (hy : r.Past stored y) : r.Past (some o) y := by
  obtain ⟨c, hc, hlt⟩ := hy
  rw [hx, Option.some.injEq] at hc
  subst hc
  obtain ⟨_, z, hz, hv⟩ := hr.written hwrite
  exact ⟨z, hz, by omega⟩

theorem past_written (hr : r.Lawful Good) (hwrite : r.write x d = some o) :
    r.Past (some o) x := by
  obtain ⟨_, z, hz, hv⟩ := hr.written hwrite
  exact ⟨z, hz, by omega⟩

/-! ## The chain of writes -/

/-- Each write replaced the object its base was read from, and left the next
version. The latest write comes first. -/
def Linked (r : Register ω β δ) (first : β) : List (β × β) → β → Prop
  | [], newest => newest = first
  | (base, left) :: rest, newest =>
    left = newest ∧ r.version left = r.version base + 1 ∧ Linked r first rest base

/-- No version is ahead of the newest. -/
theorem Linked.newest {first : β} : ∀ {log : List (β × β)} {z : β}, Linked r first log z →
    ∀ e ∈ log, r.version e.2 ≤ r.version z := by
  intro log
  induction log with
  | nil => exact fun _ e he => absurd he List.not_mem_nil
  | cons e rest ih =>
    intro z h e' he'
    obtain ⟨hleft, hversion, hrest⟩ := h
    rcases List.mem_cons.mp he' with rfl | hmem
    · exact Nat.le_of_eq (congrArg r.version hleft)
    · have hle := ih hrest e' hmem
      rw [← hleft, hversion]
      omega

/-- Each version is written once. -/
theorem Linked.increasing {first : β} : ∀ {log : List (β × β)} {z : β}, Linked r first log z →
    (log.map fun e => r.version e.2).Pairwise (· > ·) := by
  intro log
  induction log with
  | nil => exact fun _ => List.Pairwise.nil
  | cons e rest ih =>
    intro z h
    obtain ⟨_, hversion, hrest⟩ := h
    rw [List.map_cons, List.pairwise_cons]
    refine ⟨fun v hv => ?_, ih hrest⟩
    obtain ⟨e', he', rfl⟩ := List.mem_map.mp hv
    have hle := hrest.newest e' he'
    rw [hversion]
    show r.version e'.2 < r.version e.1 + 1
    omega

/-- There is one write for each version since the first. -/
theorem Linked.version {first : β} : ∀ {log : List (β × β)} {z : β}, Linked r first log z →
    r.version z = r.version first + log.length := by
  intro log
  induction log with
  | nil =>
    intro z h
    have hz : z = first := h
    rw [hz]
    rfl
  | cons e rest ih =>
    intro z h
    obtain ⟨hleft, hversion, hrest⟩ := h
    have hbase := ih hrest
    rw [← hleft, hversion, hbase, List.length_cons]
    omega

end Register

end Conditional
