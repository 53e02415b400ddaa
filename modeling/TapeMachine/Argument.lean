import TapeMachine.Text.Quoted

/-!
Values as a caller hands them over, before anything has been checked. Each has a written form and
the name of its kind, which messages about unsuitable values show.
-/

set_option autoImplicit false
set_option relaxedAutoImplicit false

namespace TapeMachine

/-- An unchecked value. A fractional number is kept as its written form. -/
inductive Argument where
  | none
  | bool (value : Bool)
  | int (value : Int)
  | float (written : String)
  | text (value : String)
  | list (items : List Argument)
  | mapping (entries : List (String × Argument))
  deriving Inhabited

namespace Argument

/-- The name of the kind of a value. -/
def kindName : Argument → String
  | .none => "NoneType"
  | .bool _ => "bool"
  | .int _ => "int"
  | .float _ => "float"
  | .text _ => "str"
  | .list _ => "list"
  | .mapping _ => "dict"

/-- The written form of a truth value. -/
def writeBool (value : Bool) : String :=
  if value then "True" else "False"

mutual

/-- The written form of a value. -/
def write : Argument → String
  | .none => "None"
  | .bool value => writeBool value
  | .int value => toString value
  | .float written => written
  | .text value => Text.quote value
  | .list items => "[" ++ String.intercalate ", " (writeItems items) ++ "]"
  | .mapping entries => "\x7b" ++ String.intercalate ", " (writeEntries entries) ++ "\x7d"

/-- The written forms of the items of a list. -/
def writeItems : List Argument → List String
  | [] => []
  | item :: rest => write item :: writeItems rest

/-- The written forms of the entries of a mapping. -/
def writeEntries : List (String × Argument) → List String
  | [] => []
  | (key, value) :: rest => (Text.quote key ++ ": " ++ write value) :: writeEntries rest

end

end Argument

end TapeMachine
