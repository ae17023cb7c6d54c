/-
Parts of a list between two positions.

A negative position counts from the end; positions outside the list are taken as the nearest ones
inside.
-/

namespace TraceDebugger.Text

/-- The place of a position in a list of some length. -/
def placeOf (length : Nat) (position : Int) : Nat :=
  if position < 0 then (position + length).toNat else min position.toNat length

/-- The items from one position up to another. -/
def segment {α : Type} (start stop : Int) (xs : List α) : List α :=
  let first := placeOf xs.length start
  (xs.take (placeOf xs.length stop)).drop first

theorem placeOf_le (length : Nat) (position : Int) : placeOf length position ≤ length := by
  unfold placeOf
  split <;> omega

theorem placeOf_natCast {length position : Nat} (h : position ≤ length) :
    placeOf length position = position := by
  unfold placeOf
  split <;> omega

theorem segment_all {α : Type} (xs : List α) : segment 0 xs.length xs = xs := by
  rw [segment, placeOf_natCast (Nat.le_refl _), List.take_length]
  exact List.drop_zero

end TraceDebugger.Text
