import RapidRouter.Lib.Json.Lexical

/-!
# A value in its context

As long as something of its own is open, the machine does not see what a value
stands in: it makes the same steps with more frames underneath (`step_under`).
-/

namespace Json

/-- The same state with more open around it. -/
def State.under (s : State) (base : List Frame) : State := ⟨s.mode, s.stack ++ base⟩

theorem startValue_under (stack base : List Frame) (c : UInt8) :
    startValue (stack ++ base) c = (startValue stack c).map (·.under base) := by
  unfold startValue
  split_ifs
  · rfl
  · rfl
  · rfl
  · rfl
  · rfl
  · rfl
  · rfl
  · rw [Option.map_map]
    rfl

theorem afterValue_under {stack : List Frame} (hstack : stack ≠ []) (base : List Frame) (v : Raw)
    (c : UInt8) : afterValue v c (stack ++ base) = (afterValue v c stack).map (·.under base) := by
  cases stack with
  | nil => exact absurd rfl hstack
  | cons frame stack =>
    cases frame with
    | items done =>
      simp only [List.cons_append, afterValue]
      split_ifs <;> rfl
    | members done key =>
      simp only [List.cons_append, afterValue]
      split_ifs <;> rfl

theorem endString_under (content : Bytes) (stack base : List Frame)
    (dest : Option (List (Bytes × Raw))) :
    endString content (stack ++ base) dest = (endString content stack dest).under base := by
  cases dest <;> rfl

/-- One step, while something of the value's own is open. -/
theorem step_under {s : State} (hopen : 0 < s.scanned.depth) (base : List Frame) (c : UInt8) :
    step (s.under base) c = (step s c).map (·.under base) := by
  obtain ⟨mode, stack⟩ := s
  cases mode with
  | value =>
    simp only [State.under, step]
    split_ifs
    · rfl
    · exact startValue_under stack base c
  | firstItem =>
    have hstack : stack ≠ [] := fun hnil => by rw [hnil] at hopen; cases hopen
    simp only [State.under, step]
    split_ifs
    · rfl
    · cases stack with
      | nil => exact absurd rfl hstack
      | cons frame stack => rfl
    · exact startValue_under stack base c
  | key done =>
    simp only [State.under, step]
    split_ifs <;> rfl
  | colon done key =>
    simp only [State.under, step]
    split_ifs <;> rfl
  | string dest content =>
    simp only [State.under, step, endString_under]
    split_ifs <;> rfl
  | escape dest content =>
    simp only [State.under, step]
    split_ifs <;> rfl
  | hex dest content left =>
    simp only [State.under, step]
    split_ifs <;> rfl
  | literal rest v =>
    cases rest with
    | nil => rfl
    | cons d rest =>
      cases rest with
      | nil =>
        simp only [State.under, step]
        split_ifs <;> rfl
      | cons e rest =>
        simp only [State.under, step]
        split_ifs <;> rfl
  | number phase n =>
    have hstack : stack ≠ [] := fun hnil => by rw [hnil] at hopen; cases hopen
    simp only [State.under, step]
    cases numStep n c phase with
    | some next => rfl
    | none =>
      dsimp only
      split_ifs
      · rfl
      · rfl
      · exact afterValue_under hstack base _ c
  | after v =>
    have hstack : stack ≠ [] := fun hnil => by rw [hnil] at hopen; cases hopen
    simp only [State.under, step]
    split_ifs
    · rfl
    · exact afterValue_under hstack base v c

/-- A state with nothing open that a bracket was just closed in holds its
value. -/
theorem Scanned.complete {s s' : State} {c : UInt8} (h : Scanned s s' c)
    (hopen : 0 < s.scanned.depth) (hclosed : s'.scanned.depth = 0) : ∃ v, s' = ⟨.after v, []⟩ := by
  obtain ⟨v, hmode⟩ := h.closed (by omega)
  obtain ⟨mode, stack⟩ := s'
  cases hmode
  have hstack : stack = [] := List.length_eq_zero_iff.mp hclosed
  exact ⟨v, by rw [hstack]⟩

end Json
