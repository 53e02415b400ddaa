/-!
Hexadecimal digits in lower case, filled up with zeros on the left to a fixed width.
-/

set_option autoImplicit false
set_option relaxedAutoImplicit false

namespace TapeMachine.Text

/-- Fills `digits` up to `width` characters with copies of `filler` on the left. Longer texts are
left alone. -/
def padLeft (filler : Char) (width : Nat) (digits : List Char) : List Char :=
  List.replicate (width - digits.length) filler ++ digits

/-- The number in base sixteen, at least `width` digits wide. -/
def hex (width n : Nat) : String :=
  String.ofList (padLeft '0' width (Nat.toDigits 16 n))

end TapeMachine.Text
