/-!
Indices that may be negative. An index names an entry of an array either by its distance from the
start or, below zero, by its distance from the end: `-1` is the last entry.
-/

set_option autoImplicit false
set_option relaxedAutoImplicit false

namespace TapeMachine

/-- The position, among `size` entries, that an index names. -/
def slot? (size : Nat) (index : Int) : Option Nat :=
  if 0 ≤ index then if index < size then some index.toNat else none
  else if 0 ≤ index + size then some (index + size).toNat
  else none

/-- The entry of an array that an index names. -/
def entry? {α : Type} (entries : Array α) (index : Int) : Option α :=
  match slot? entries.size index with
  | some place => entries[place]?
  | none => none

theorem slot?_natCast (size index : Nat) :
    slot? size (index : Int) = if index < size then some index else none := by
  simp only [slot?, Int.natCast_nonneg, if_true, Int.ofNat_lt, Int.toNat_natCast]

/-- What an index names lies among the entries. -/
theorem lt_of_slot?_eq_some {size place : Nat} {index : Int} (h : slot? size index = some place) :
    place < size := by
  unfold slot? at h
  split at h
  · split at h
    · cases h; omega
    · cases h
  · split at h
    · cases h; omega
    · cases h

/-- An index names nothing exactly if it is too large, or too far below zero. -/
theorem slot?_eq_none_iff {size : Nat} {index : Int} :
    slot? size index = none ↔ index < -size ∨ (size : Int) ≤ index := by
  unfold slot?
  split
  · split
    · simp only [reduceCtorEq, false_iff]; omega
    · simp only [true_iff]; omega
  · split
    · simp only [reduceCtorEq, false_iff]; omega
    · simp only [true_iff]; omega

theorem entry?_natCast {α : Type} (entries : Array α) (index : Nat) :
    entry? entries (index : Int) = entries[index]? := by
  unfold entry?
  rw [slot?_natCast]
  split
  · next place hplace =>
    split at hplace
    · cases hplace; rfl
    · cases hplace
  · next hnone =>
    split at hnone
    · cases hnone
    · next hsize => rw [Array.getElem?_eq_none (by omega)]

end TapeMachine
