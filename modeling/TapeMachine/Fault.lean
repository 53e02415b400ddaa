/-!
Faults: what cuts a run short from outside the language, such as an index beside the tape or an
input value that is no byte. A fault is no failure of the program and is never reported as one.
-/

set_option autoImplicit false
set_option relaxedAutoImplicit false

namespace TapeMachine

/-- The causes of faults. Numbers beyond 64 bits have causes of their own. -/
inductive Fault where
  /-- A value that does not fit into a cell. -/
  | notByte (value : Int)
  /-- A value that does not fit into an entry of a bracket index. -/
  | notOffset (value : Int)
  /-- A value that does not fit into any machine word. -/
  | notWord
  /-- A bracket without a partner. -/
  | noPartner (position : Int)
  /-- An index beside an array. -/
  | noEntry (index : Int) (size : Nat)
  /-- A number that is too large to be tried as an index of an array. -/
  | notIndex
  /-- A position beside the text. -/
  | noChar
  /-- A number that is too large to be tried as a position of a text. -/
  | notPosition
  /-- A truth value where a position is asked for. -/
  | notScalar
  deriving DecidableEq, Repr

namespace Fault

/-- The number is a signed word of 64 bits. -/
def isWord (value : Int) : Bool :=
  -9223372036854775808 ≤ value ∧ value < 9223372036854775808

/-- The fault of a value that is no byte. -/
def ofByte (value : Int) : Fault :=
  if isWord value then .notByte value else .notWord

/-- The fault of a value that is no signed number of 32 bits. -/
def ofOffset (value : Int) : Fault :=
  if isWord value then .notOffset value else .notWord

/-- The fault of an index that names no entry of an array. -/
def ofIndex (index : Int) (size : Nat) : Fault :=
  if isWord index then .noEntry index size
  else if 0 ≤ index ∧ index < 18446744073709551616 then .notWord
  else .notIndex

/-- The fault of a position that names no character of a text. -/
def ofPosition (position : Int) : Fault :=
  if isWord position then .noChar else .notPosition

def message : Fault → String
  | .notByte value => "Python integer " ++ toString value ++ " out of bounds for uint8"
  | .notOffset value => "Python integer " ++ toString value ++ " out of bounds for int32"
  | .notWord => "Python int too large to convert to C long"
  | .noPartner position => toString position
  | .noEntry index size =>
    "index " ++ toString index ++ " is out of bounds for axis 0 with size " ++ toString size
  | .notIndex =>
    "only integers, slices (`:`), ellipsis (`...`), numpy.newaxis (`None`) and integer or " ++
      "boolean arrays are valid indices"
  | .noChar => "string index out of range"
  | .notPosition => "cannot fit 'int' into an index-sized integer"
  | .notScalar => "only 0-dimensional arrays can be converted to Python scalars"

end Fault

end TapeMachine
