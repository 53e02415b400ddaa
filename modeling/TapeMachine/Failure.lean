import TapeMachine.Text.Quoted

/-!
The ways in which a program can fail, and how each is put into words. A failure is a value: it is
reported with the result of a run and never cuts the caller short.
-/

set_option autoImplicit false
set_option relaxedAutoImplicit false

namespace TapeMachine

/-- A direction on the tape. Reports may carry a word that is neither left nor right. -/
inductive Direction where
  | left
  | right
  | named (word : String)
  deriving DecidableEq, Repr

namespace Direction

def ofWord (word : String) : Direction :=
  if word = "left" then .left else if word = "right" then .right else .named word

def word : Direction → String
  | .left => "left"
  | .right => "right"
  | .named word => word

theorem word_ofWord (w : String) : (ofWord w).word = w := by
  unfold ofWord
  split
  · next h => rw [h]; rfl
  · split
    · next h => rw [h]; rfl
    · rfl

end Direction

/-- Why a program is rejected or a run ends early. -/
inductive Failure where
  | unmatchedClose (position : Int)
  | unclosedOpens (positions : List Int)
  | outOfBounds (pointer : Int) (direction : Direction)
  | inputExhausted (pointer : Int)
  | unspecified
  deriving DecidableEq, Repr

namespace Failure

/-- The tag under which a failure is filed. -/
def tag : Failure → String
  | .unmatchedClose _ => "unmatched_closing_bracket"
  | .unclosedOpens _ => "unclosed_opening_brackets"
  | .outOfBounds _ _ => "pointer_out_of_bounds"
  | .inputExhausted _ => "input_underrun"
  | .unspecified => "error"

/-- Advice on the failures filed under a tag. -/
def hintFor? (tag : String) : Option String :=
  if tag = "unmatched_closing_bracket" then
    some "Remove the extra \"]\" or add the \"[\" it was meant to close."
  else if tag = "unclosed_opening_brackets" then
    some "Every \"[\" needs a matching \"]\" later in the program."
  else if tag = "pointer_out_of_bounds" then
    some "The tape does not wrap. Use a larger tape or keep \"<\"/\">\" within it."
  else if tag = "input_underrun" then
    some "The program read more bytes than the input provides."
  else none

/-- What happened, in a few words. -/
def describe : Failure → String
  | .unmatchedClose position => "Unexpected right bracket at " ++ toString position
  | .unclosedOpens positions =>
    "Unclosed brackets at " ++ String.intercalate " " (positions.map toString)
  | .outOfBounds pointer direction =>
    "Pointer out of bounds: cannot move " ++ direction.word ++ " from cell " ++ toString pointer
  | .inputExhausted pointer => "Input exhausted while reading into cell " ++ toString pointer
  | f@(.unspecified) => f.tag

/-- What happened, and what to do about it. -/
def message (f : Failure) : String :=
  match hintFor? f.tag with
  | some hint => f.describe ++ ". Hint: " ++ hint
  | none => f.describe ++ "."

/-- The numbers of a list between parentheses; a single one keeps its comma. -/
def writeTuple : List Int → String
  | [] => "()"
  | [n] => "(" ++ toString n ++ ",)"
  | numbers => "(" ++ String.intercalate ", " (numbers.map toString) ++ ")"

/-- The failure with its fields spelled out. -/
def write : Failure → String
  | .unmatchedClose position => "UnmatchedClosingBracket(position=" ++ toString position ++ ")"
  | .unclosedOpens positions => "UnclosedOpeningBrackets(positions=" ++ writeTuple positions ++ ")"
  | .outOfBounds pointer direction =>
    "PointerOutOfBounds(pointer=" ++ toString pointer ++ ", direction=" ++
      Text.quote direction.word ++ ")"
  | .inputExhausted pointer => "InputUnderrun(pointer=" ++ toString pointer ++ ")"
  | .unspecified => "BFError()"

end Failure

end TapeMachine
