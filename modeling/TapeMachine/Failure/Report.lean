import TapeMachine.Failure
import TapeMachine.Text.Hex
import TapeMachine.Text.Place

/-!
Failure reports for people. A bracket failure shows, for each position it names, the line and
column and the lines around it; any other failure is a single sentence.
-/

set_option autoImplicit false
set_option relaxedAutoImplicit false

namespace TapeMachine.Failure

/-- One numbered line of an excerpt. The marked line has an arrow in front. -/
def excerptLine (marked number : Int) (line : List Char) : String :=
  (if number = marked then ">" else " ") ++ " " ++
    String.ofList (Text.padLeft ' ' 4 (toString number).toList) ++ " | " ++ String.ofList line

/-- The lines from `marked - around` to `marked + around`, as far as there are such lines. A marked
line before the first counts as the first. -/
def excerpt (lines : List (List Char)) (marked around : Int) : String :=
  let marked := max 1 marked
  let first := max 1 (marked - around)
  let last := min (lines.length : Int) (marked + around)
  let count := (last - first + 1).toNat
  let shown := (lines.drop (first.toNat - 1)).take count
  String.intercalate "\n" (shown.mapIdx fun i line ↦ excerptLine marked (first + i) line)

/-- How many lines an excerpt shows on each side of the marked one. -/
def excerptMargin : Int := 2

/-- The place of a position and the lines around it. -/
def reportBlock (source : List Char) (position : Int) : String :=
  let place := Text.locate source position
  "at line " ++ toString place.line ++ ", column " ++ toString place.column ++ "\n" ++
    excerpt (Text.lines source) place.line excerptMargin

/-- The positions in the program text that a failure names, if it is one about the text. -/
def positions? : Failure → Option (List Int)
  | .unmatchedClose position => some [position]
  | .unclosedOpens positions => some positions
  | _ => none

/-- The report on a failure of the program with the given text. -/
def report (f : Failure) (source : List Char) : String :=
  match f.positions? with
  | some positions =>
    "BracketError: " ++ f.message ++ "\n" ++
      String.intercalate "\n" (positions.map (reportBlock source))
  | none => "RuntimeError: " ++ f.message

end TapeMachine.Failure
