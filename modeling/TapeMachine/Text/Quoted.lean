import TapeMachine.Text.Hex
import TapeMachine.Text.Printable

/-!
Quoted text as it appears inside messages. A text stands between single quotes, unless it holds a
single quote and no double quote; invisible characters are written as numbers.
-/

set_option autoImplicit false
set_option relaxedAutoImplicit false

namespace TapeMachine.Text

/-- The quotation mark chosen for a text: the single one, unless only the double one would spare
an escape. -/
def quoteMark (text : List Char) : Char :=
  if text.contains '\'' && !text.contains '"' then '"' else '\''

/-- A character without a visible form, written as its number. -/
def escapeCode (c : Char) : String :=
  if c.toNat < 0x100 then "\\x" ++ hex 2 c.toNat
  else if c.toNat < 0x10000 then "\\u" ++ hex 4 c.toNat
  else "\\U" ++ hex 8 c.toNat

/-- One character between two quotation marks `mark`. -/
def escapeChar (mark c : Char) : String :=
  if c = mark || c = '\\' then "\\" ++ c.toString
  else if c = '\n' then "\\n"
  else if c = '\r' then "\\r"
  else if c = '\t' then "\\t"
  else if isPrintable c then c.toString
  else escapeCode c

/-- The text between quotation marks. -/
def quote (text : String) : String :=
  let mark := quoteMark text.toList
  mark.toString ++ String.join (text.toList.map (escapeChar mark)) ++ mark.toString

end TapeMachine.Text
