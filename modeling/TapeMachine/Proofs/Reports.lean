import TapeMachine.Failure.Report
import TapeMachine.Proofs.Diagnosis
import TapeMachine.Proofs.Places
import Mathlib.Data.List.Forall2
import Mathlib.Data.List.Intervals
import Mathlib.Data.List.Nodup

/-!
Reports point at the right place. A report on brackets is made of passages, one for each position
that the failure names, and a passage shows the lines around its place, of which it marks one
(`Passage.Surrounds`). The line of a place is one of the text's lines whatever the position is
(`Text.line_locate_le`), so a passage never runs out of lines. Where the scan of the text itself has
reported the failure, the bracket that it complains of stands at the place
(`Blames.charAt?_locate`).
-/

set_option autoImplicit false
set_option relaxedAutoImplicit false

namespace TapeMachine

namespace Failure

/-- The failure complains of this bracket at these positions. -/
inductive Blames : Failure → Char → List ℤ → Prop
  | close (position : ℤ) : Blames (.unmatchedClose position) ']' [position]
  | opens (positions : List ℤ) : Blames (.unclosedOpens positions) '[' positions

/-! ### Passages -/

/-- A line as a passage shows it. -/
structure ShownLine where
  number : ℕ
  marked : Bool
  chars : List Char

/-- The line in writing: an arrow in front of it if it is marked, its number in a field of four
characters, and what it says. -/
def ShownLine.write (shown : ShownLine) : String :=
  (if shown.marked then ">" else " ") ++ " " ++
    String.ofList (Text.padLeft ' ' 4 (toString shown.number).toList) ++ " | " ++
    String.ofList shown.chars

/-- A place and the lines shown for it. -/
structure Passage where
  place : Text.Place
  shown : List ShownLine

def Passage.write (passage : Passage) : String :=
  "at line " ++ toString passage.place.line ++ ", column " ++ toString passage.place.column ++
    "\n" ++ String.intercalate "\n" (passage.shown.map ShownLine.write)

/-- The numbers of the lines from `margin` lines before a line to `margin` lines behind it, as far
as there are such lines. -/
def window (size margin line : ℕ) : List ℕ :=
  List.Ico (max 1 (line - margin)) (min size (line + margin) + 1)

/-- The passage shows what stands around its place: the place is on one of the lines, up to two
lines before it and up to two behind it are shown with it, in their order and each as it is, and the
line of the place is the one that is marked. -/
structure Passage.Surrounds (lines : List (List Char)) (passage : Passage) : Prop where
  line_pos : 1 ≤ passage.place.line
  line_le : passage.place.line ≤ lines.length
  numbers_eq : passage.shown.map ShownLine.number = window lines.length 2 passage.place.line
  chars_eq : ∀ shown ∈ passage.shown, lines[shown.number - 1]? = some shown.chars
  marked_eq : (passage.shown.filter ShownLine.marked).map ShownLine.number = [passage.place.line]

/-- The bracket that the scan complains of stands at each of the positions. -/
theorem Blames.exists_bracket {failure : Failure} {bracket : Char} {positions : List ℤ}
    (h : failure.Blames bracket positions) {program : Program}
    (hbuild : BracketIndex.build program = .error failure) {position : ℤ}
    (hmem : position ∈ positions) :
    ∃ place : ℕ, position = place ∧ program.chars.toList[place]? = some bracket := by
  cases h with
  | close other =>
    obtain ⟨finish, rfl, hclose, -⟩ := Matching.exists_of_unmatchedClose hbuild
    exact ⟨finish, List.mem_singleton.mp hmem, hclose⟩
  | opens =>
    obtain ⟨left, partners, rfl, -, hscanned⟩ := Matching.exists_of_unclosedOpens hbuild
    obtain ⟨start, hstart, rfl⟩ := List.mem_map.mp hmem
    exact ⟨start, rfl, hscanned.opens.opens (List.mem_reverse.mp hstart)⟩

theorem Blames.charAt?_locate {failure : Failure} {bracket : Char} {positions : List ℤ}
    (h : failure.Blames bracket positions) {source : List Char}
    (hbuild : BracketIndex.build ⟨source.toArray⟩ = .error failure) {position : ℤ}
    (hmem : position ∈ positions) :
    1 ≤ (Text.locate source position).column ∧
      Text.charAt? (Text.lines source) (Text.locate source position) = some bracket := by
  have hbracket : bracket ≠ '\n' := by cases h <;> decide
  obtain ⟨place, rfl, hplace⟩ := h.exists_bracket hbuild hmem
  have hle : place ≤ source.length := (List.getElem?_eq_some_iff.mp hplace).1.le
  exact ⟨(Text.isPlace_locate hle).column_pos, Text.charAt?_locate hplace hbracket⟩

end Failure

end TapeMachine
