import Mathlib.Data.List.Basic

/-!
# Frames cut from a stream

A decoder that buffers what arrives and takes frames off its front. `cut`
takes one frame, or finds that none is complete; a `Framing` is such a
function whose frames are not empty and are not decided by what has not
arrived yet. For these it makes no difference how the stream was cut into
chunks: `feed_eq_drain` says that what comes out of the chunks, and what is
left over, is what comes out of all of them at once.
-/

universe u v

structure Framing (α : Type u) (β : Type v) where
  /-- The first frame of a buffer, and what follows it. -/
  cut : List α → Option (β × List α)
  shorter : ∀ {b r : List α} {x : β}, cut b = some (x, r) → r.length < b.length
  stable : ∀ {b r : List α} {x : β} (c : List α), cut b = some (x, r) → cut (b ++ c) = some (x, r ++ c)

namespace Framing

variable {α : Type u} {β : Type v} (F : Framing α β)

/-- Every complete frame, and the rest. -/
def drain (b : List α) : List β × List α :=
  match _h : F.cut b with
  | none => ([], b)
  | some (x, r) => (x :: (drain r).1, (drain r).2)
termination_by b.length
decreasing_by all_goals exact F.shorter _h

/-- The chunks that arrive one after another at a buffer. -/
def feed (b : List α) : List (List α) → List β × List α
  | [] => ([], b)
  | c :: cs => ((F.drain (b ++ c)).1 ++ (feed (F.drain (b ++ c)).2 cs).1, (feed (F.drain (b ++ c)).2 cs).2)

variable {F} {b r : List α} {x : β}

theorem drain_none (h : F.cut b = none) : F.drain b = ([], b) := by
  rw [drain]
  split
  · rfl
  · next hsome =>
    rw [h] at hsome
    cases hsome

theorem drain_some (h : F.cut b = some (x, r)) :
    F.drain b = (x :: (F.drain r).1, (F.drain r).2) := by
  conv_lhs => rw [drain]
  split
  · next hnone =>
    rw [h] at hnone
    cases hnone
  · next y t hsome =>
    rw [h] at hsome
    cases hsome
    rfl

/-- No frame is left in a buffer that was drained. -/
theorem cut_drain (b : List α) : F.cut (F.drain b).2 = none := by
  cases h : F.cut b with
  | none =>
    rw [drain_none h]
    exact h
  | some p =>
    obtain ⟨x, r⟩ := p
    rw [drain_some h]
    exact cut_drain r
termination_by b.length
decreasing_by exact F.shorter h

/-- What is left over waits for what follows. -/
theorem drain_append (b c : List α) :
    F.drain (b ++ c) =
      ((F.drain b).1 ++ (F.drain ((F.drain b).2 ++ c)).1, (F.drain ((F.drain b).2 ++ c)).2) := by
  cases h : F.cut b with
  | none =>
    rw [drain_none h]
    rfl
  | some p =>
    obtain ⟨x, r⟩ := p
    have hrest := drain_append r c
    rw [drain_some h, drain_some (F.stable c h), hrest]
    rfl
termination_by b.length
decreasing_by exact F.shorter h

/-- How a stream is cut into chunks makes no difference. -/
theorem feed_eq_drain (cs : List (List α)) {b : List α} (hb : F.cut b = none) :
    F.feed b cs = F.drain (b ++ cs.flatten) := by
  induction cs generalizing b with
  | nil =>
    rw [List.flatten_nil, List.append_nil, drain_none hb]
    rfl
  | cons c cs ih =>
    rw [List.flatten_cons, ← List.append_assoc, drain_append, ← ih (cut_drain _)]
    rfl

/-- A framing whose frames are the very elements they were cut from. -/
structure Verbatim (F : Framing α (List α)) : Prop where
  whole : ∀ {b r x : List α}, F.cut b = some (x, r) → b = x ++ r ∧ F.cut x = some (x, [])

namespace Verbatim

variable {F : Framing α (List α)}

theorem eq_flatten (hF : F.Verbatim) (b : List α) : b = (F.drain b).1.flatten ++ (F.drain b).2 := by
  cases h : F.cut b with
  | none =>
    rw [drain_none h]
    rfl
  | some p =>
    obtain ⟨x, r⟩ := p
    have hrest := eq_flatten hF r
    rw [drain_some h, List.flatten_cons, List.append_assoc, ← hrest]
    exact (hF.whole h).1
termination_by b.length
decreasing_by exact F.shorter h

/-- Frames come off again, whatever follows them. -/
theorem drain_flatten (hF : F.Verbatim) (b t : List α) :
    F.drain ((F.drain b).1.flatten ++ t) = ((F.drain b).1 ++ (F.drain t).1, (F.drain t).2) := by
  cases h : F.cut b with
  | none =>
    rw [drain_none h]
    rfl
  | some p =>
    obtain ⟨x, r⟩ := p
    have hx := F.stable ((F.drain r).1.flatten ++ t) (hF.whole h).2
    rw [List.nil_append, ← List.append_assoc] at hx
    rw [drain_some h, List.flatten_cons, drain_some hx, drain_flatten hF r t]
    rfl
termination_by b.length
decreasing_by exact F.shorter h

/-- What is left over is the end of the buffer. -/
theorem suffix_drain (hF : F.Verbatim) (b : List α) : (F.drain b).2 <:+ b :=
  ⟨_, (hF.eq_flatten b).symm⟩

end Verbatim

end Framing
