import TapeMachine.Text.Digit

/-!
Reading a decimal integer: blanks around it, a sign, digits of any script, and single underscores
between digits.
-/

set_option autoImplicit false
set_option relaxedAutoImplicit false

namespace TapeMachine.Text

/-- The blanks that may surround an integer. -/
def isBlank (c : Char) : Bool :=
  let n := c.toNat
  (9 ≤ n && n ≤ 13) || n == 0x20 || n == 0x85 || n == 0xa0 || n == 0x1680 ||
    (0x2000 ≤ n && n ≤ 0x200a) || n == 0x2028 || n == 0x2029 || n == 0x202f || n == 0x205f ||
    n == 0x3000

/-- The text without the blanks at its two ends. -/
def trimBlanks (text : List Char) : List Char :=
  ((text.dropWhile isBlank).reverse.dropWhile isBlank).reverse

/-- Digits in which an underscore may stand before any of them. -/
def groupedDigits? : List Char → Option (List Nat)
  | [] => some []
  | '_' :: c :: rest => do
    let value ← digitValue? c
    let values ← groupedDigits? rest
    return value :: values
  | c :: rest => do
    let value ← digitValue? c
    let values ← groupedDigits? rest
    return value :: values

/-- The most digits that an integer may be written with. -/
def digitLimit : Nat := 4300

/-- A number without a sign: digits, the first of them without an underscore before it. -/
def natural? (text : List Char) : Option Nat := do
  let first ← text.head?
  guard (first ≠ '_')
  let values ← groupedDigits? text
  guard (values.length ≤ digitLimit)
  return values.foldl (fun number value ↦ 10 * number + value) 0

/-- Reads an integer, or nothing if the text is not one. -/
def integer? (text : String) : Option Int :=
  match trimBlanks text.toList with
  | '-' :: rest => (natural? rest).map fun n ↦ -(n : Int)
  | '+' :: rest => (natural? rest).map fun n ↦ (n : Int)
  | rest => (natural? rest).map fun n ↦ (n : Int)

end TapeMachine.Text
