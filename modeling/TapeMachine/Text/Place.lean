/-!
Lines and columns. A position counts characters from the start of a text; a place is the line it
falls on and the column within it, both counted from one.
-/

set_option autoImplicit false
set_option relaxedAutoImplicit false

namespace TapeMachine.Text

/-- A line and a column. The column of a position outside the text may be any integer. -/
structure Place where
  line : Nat
  column : Int
  deriving DecidableEq, Repr

/-- The lines of a text: one more than it has newlines. -/
def lines (text : List Char) : List (List Char) :=
  text.foldr
    (fun c rest ↦
      if c = '\n' then [] :: rest
      else
        match rest with
        | [] => [[c]]
        | line :: others => (c :: line) :: others)
    [[]]

/-- How many characters of a text of `length` characters stand before a position. A negative
position counts from the end, and a position past either end is moved to it. -/
def clampPosition (length : Nat) (position : Int) : Nat :=
  if position < 0 then (length + position).toNat else min length position.toNat

/-- The length of the unfinished last line. -/
def lastLineLength (text : List Char) : Nat :=
  (text.reverse.takeWhile (· ≠ '\n')).length

/-- The place of a position: the line is counted in the text before it, the column is the distance
from the last newline there. -/
def locate (text : List Char) (position : Int) : Place :=
  let before := text.take (clampPosition text.length position)
  { line := before.count '\n' + 1
    column := position - before.length + lastLineLength before + 1 }

theorem lines_newline (text : List Char) : lines ('\n' :: text) = [] :: lines text := by
  simp [lines]

theorem lines_ne_nil (text : List Char) : lines text ≠ [] := by
  cases text with
  | nil => simp [lines]
  | cons c rest =>
    simp only [lines, List.foldr_cons]
    split
    · simp
    · split <;> simp

theorem clampPosition_ofNat {length n : Nat} (h : n ≤ length) :
    clampPosition length n = n := by
  unfold clampPosition
  split <;> omega

end TapeMachine.Text
