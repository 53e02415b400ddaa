/-!
The eight commands and the characters that stand for them. Any other character is a comment.
-/

set_option autoImplicit false
set_option relaxedAutoImplicit false

namespace TapeMachine

/-- What a character of a program asks the machine to do. -/
inductive Command where
  | moveRight
  | moveLeft
  | increment
  | decrement
  | write
  | read
  | loopStart
  | loopEnd
  | comment
  deriving DecidableEq, Repr

namespace Command

def ofChar (c : Char) : Command :=
  if c = '+' then .increment
  else if c = '-' then .decrement
  else if c = '<' then .moveLeft
  else if c = '>' then .moveRight
  else if c = ',' then .read
  else if c = '.' then .write
  else if c = '[' then .loopStart
  else if c = ']' then .loopEnd
  else .comment

/-- The command of a character given by its code point. -/
def ofCode (code : Nat) : Command :=
  match code with
  | 62 => .moveRight
  | 60 => .moveLeft
  | 43 => .increment
  | 45 => .decrement
  | 46 => .write
  | 44 => .read
  | 91 => .loopStart
  | 93 => .loopEnd
  | _ => .comment

/-- A character and its code point stand for the same command. -/
theorem ofCode_toNat (c : Char) : ofCode c.toNat = ofChar c := by
  have hcode (d : Char) : c = d ↔ c.toNat = d.toNat := Char.toNat_inj.symm
  simp only [ofChar, hcode]
  unfold ofCode
  split <;> simp_all

/-- All command characters, in the order in which they are listed to users. -/
def alphabet : String := "+-<>,.[]"

/-- `pattern` occurs in `text` as a run of neighbouring characters. -/
def occursIn (pattern : List Char) : List Char → Bool
  | [] => pattern.isEmpty
  | c :: rest => pattern.isPrefixOf (c :: rest) || occursIn pattern rest

/-- A text counts as commands if it is a run of neighbouring characters of the alphabet. -/
def isCommandText (text : String) : Bool :=
  occursIn text.toList alphabet.toList

/-- The character stands for a command. -/
def isCommandChar (c : Char) : Bool :=
  alphabet.toList.contains c

end Command

end TapeMachine
