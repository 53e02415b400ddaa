import TapeMachine.Fault
import TapeMachine.Slot

/-!
The tape: a row of cells, each holding a byte. A cell is named by an index, which may count from
the end of the tape.
-/

set_option autoImplicit false
set_option relaxedAutoImplicit false

namespace TapeMachine

abbrev Tape := Array UInt8

namespace Tape

/-- A tape of zeros. -/
def clear (size : Nat) : Tape := Array.replicate size 0

/-- The value of the cell that an index names. -/
def cell (tape : Tape) (index : Int) : Except Fault UInt8 :=
  match entry? tape index with
  | some value => .ok value
  | none => .error (.ofIndex index tape.size)

/-- Where and what to store, on a tape of `size` cells, for a value under an index. The index is
looked at before the value. -/
def target (size : Nat) (index value : Int) : Except Fault (Nat × UInt8) :=
  match slot? size index with
  | some place =>
    if 0 ≤ value ∧ value < 256 then .ok (place, UInt8.ofNat value.toNat)
    else .error (.ofByte value)
  | none => .error (.ofIndex index size)

/-- The tape with the given values. The first one that is no byte is a fault. -/
def ofValues (values : List Int) : Except Fault Tape :=
  match values.find? fun value ↦ value < 0 ∨ 256 ≤ value with
  | some value => .error (.ofByte value)
  | none => .ok (values.map fun value ↦ UInt8.ofNat value.toNat).toArray

theorem cell_natCast {tape : Tape} {index : Nat} (h : index < tape.size) :
    tape.cell (index : Int) = .ok tape[index] := by
  simp [cell, entry?_natCast, h]

theorem target_natCast {size index : Nat} (h : index < size) {value : Nat} (hvalue : value < 256) :
    target size (index : Int) (value : Int) = .ok (index, UInt8.ofNat value) := by
  have hrange : (0 : Int) ≤ (value : Int) ∧ (value : Int) < 256 := by omega
  simp only [target, slot?_natCast, h, if_true, hrange, and_self, Int.toNat_natCast]

end Tape

end TapeMachine
