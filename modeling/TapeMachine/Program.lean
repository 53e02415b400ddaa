import TapeMachine.Argument
import TapeMachine.Command
import TapeMachine.Slot

/-!
Programs. A program is its text, comments included, so positions in it are positions in the text
as it was given.
-/

set_option autoImplicit false
set_option relaxedAutoImplicit false

namespace TapeMachine

/-- A program text, with access to each character by its position. -/
structure Program where
  chars : Array Char
  deriving DecidableEq, Repr

/-- Why an argument is no program text. -/
inductive ProgramError where
  | notText (index : Nat) (kindName : String)
  | notIterable
  deriving DecidableEq, Repr

def ProgramError.message : ProgramError → String
  | .notText index kindName =>
    "sequence item " ++ toString index ++ ": expected str instance, " ++ kindName ++ " found"
  | .notIterable => "can only join an iterable"

namespace Program

def ofText (text : String) : Program := ⟨text.toList.toArray⟩

def text (p : Program) : String := String.ofList p.chars.toList

def size (p : Program) : Nat := p.chars.size

/-- The code points of the characters. -/
def codes (p : Program) : Array Nat := p.chars.map Char.toNat

/-- The program without its comments. -/
def commands (p : Program) : Program := ⟨p.chars.filter Command.isCommandChar⟩

/-- The character at a position. Negative positions count from the end. -/
def get? (p : Program) (position : Int) : Option Char := entry? p.chars position

/-- The pieces of a program text one after another, as long as each of them is text. -/
def joinPieces (index : Nat) : List Argument → Except ProgramError (List String)
  | [] => .ok []
  | .text piece :: rest => do
    let pieces ← joinPieces (index + 1) rest
    return piece :: pieces
  | other :: _ => .error (.notText index other.kindName)

end Program

/-- What a caller may pass for a program: one that is ready, or a value that holds its text. -/
inductive Listing where
  | ready (program : Program)
  | given (value : Argument)

/-- The program a listing stands for. Lists of texts are joined, and of a mapping its keys. -/
def Listing.toProgram : Listing → Except ProgramError Program
  | .ready program => .ok program
  | .given (.text text) => .ok (Program.ofText text)
  | .given (.list pieces) => do
    let texts ← Program.joinPieces 0 pieces
    return Program.ofText (String.join texts)
  | .given (.mapping entries) => .ok (Program.ofText (String.join (entries.map Prod.fst)))
  | .given _ => .error .notIterable

namespace Program

theorem text_ofText (text : String) : (ofText text).text = text := by
  simp [ofText, Program.text]

theorem ofText_text (p : Program) : ofText p.text = p := by
  simp [ofText, Program.text]

end Program

end TapeMachine
