import TapeMachine.Text.Place
import Mathlib.Algebra.Ring.Int.Defs
import Mathlib.Data.List.TakeWhile
import Mathlib.Data.Prod.Lex
import Mathlib.Data.Set.Function
import Mathlib.Order.Interval.Set.Basic

/-!
Positions and places are two names for the same thing. The place of a position is found by counting
newlines from the front and searching for one from the back; the position of a place is found from
the lengths of the lines before it (`offset`). Both know what becomes of them when one more
character is put in front of the text (`locate_cons`, `offset_behind`), and so each undoes the other
on the positions of the text and the places of its lines.
-/

set_option autoImplicit false
set_option relaxedAutoImplicit false

namespace TapeMachine.Text

/-! ### Lines -/

theorem lines_other {c : Char} (hc : c ≠ '\n') (text : List Char) :
    lines (c :: text) = (lines text).modifyHead (c :: ·) := by
  cases h : lines text with
  | nil => exact absurd h (lines_ne_nil text)
  | cons line rest =>
    unfold lines at h
    simp only [lines, List.foldr_cons, if_neg hc, h, List.modifyHead_cons]

theorem lines_eq_splitOn (text : List Char) : lines text = text.splitOn '\n' := by
  induction text with
  | nil => rfl
  | cons c rest ih =>
    rw [List.splitOn_eq_splitOnP, List.splitOnP_cons_eq_if_modifyHead, ← List.splitOn_eq_splitOnP,
      ← ih]
    by_cases hc : c = '\n'
    · subst hc
      exact lines_newline rest
    · simp only [lines_other hc, beq_iff_eq, hc, if_false]

theorem exists_lines_cons (text : List Char) : ∃ first rest, lines text = first :: rest :=
  List.exists_cons_of_ne_nil (lines_ne_nil text)

/-! ### One more character in front -/

/-- What becomes of a place when a character is put in front of the text. -/
def Place.behind (c : Char) (place : Place) : Place :=
  if c = '\n' then ⟨place.line + 1, place.column⟩
  else if place.line = 1 then ⟨1, place.column + 1⟩
  else place

theorem lastLineLength_of_notMem {text : List Char} (h : '\n' ∉ text) :
    lastLineLength text = text.length := by
  have hall : ∀ c ∈ text.reverse, decide (c ≠ '\n') = true := by
    intro c hc
    rw [decide_eq_true_iff]
    rintro rfl
    exact h (List.mem_reverse.mp hc)
  rw [lastLineLength, List.takeWhile_eq_self_iff.mpr hall, List.length_reverse]

theorem lastLineLength_cons_of_mem {text : List Char} (h : '\n' ∈ text) (c : Char) :
    lastLineLength (c :: text) = lastLineLength text := by
  have hshort : (text.reverse.takeWhile (· ≠ '\n')).length ≠ text.reverse.length := by
    intro hlength
    have hself := (List.takeWhile_prefix (· ≠ '\n')).eq_of_length hlength
    have hne := List.takeWhile_eq_self_iff.mp hself '\n' (List.mem_reverse.mpr h)
    simp at hne
  rw [lastLineLength, List.reverse_cons, List.takeWhile_append, if_neg hshort, lastLineLength]

theorem lastLineLength_newline (text : List Char) :
    lastLineLength ('\n' :: text) = lastLineLength text := by
  by_cases h : '\n' ∈ text
  · exact lastLineLength_cons_of_mem h _
  · have hall := lastLineLength_of_notMem h
    unfold lastLineLength at hall ⊢
    rw [List.reverse_cons, List.takeWhile_append, if_pos (by rw [hall, List.length_reverse]), hall]
    simp

theorem locate_zero (text : List Char) : locate text (0 : ℕ) = ⟨1, 1⟩ := by
  simp [locate, clampPosition, lastLineLength]

theorem locate_natCast (text : List Char) {position : ℕ} (h : position ≤ text.length) :
    locate text position =
      ⟨(text.take position).count '\n' + 1, lastLineLength (text.take position) + 1⟩ := by
  simp only [locate, clampPosition_ofNat h, List.length_take, Nat.min_eq_left h, Int.sub_self,
    Int.zero_add]

/-- The place of a position in the longer text. -/
theorem locate_cons (c : Char) {text : List Char} {position : ℕ} (h : position ≤ text.length) :
    locate (c :: text) (position + 1 : ℕ) = (locate text position).behind c := by
  rw [locate_natCast _ (Nat.succ_le_succ h), locate_natCast _ h, List.take_succ_cons]
  unfold Place.behind
  split_ifs with hc hline
  · rw [hc, List.count_cons_self, lastLineLength_newline]
  · have hnone : '\n' ∉ text.take position := List.count_eq_zero.mp (Nat.succ.inj hline)
    have hlonger : '\n' ∉ c :: text.take position := by simpa [Ne.symm hc] using hnone
    rw [lastLineLength_of_notMem hlonger, lastLineLength_of_notMem hnone,
      List.count_eq_zero.mpr hlonger, List.length_cons, Int.natCast_succ]
  · have hmem : '\n' ∈ text.take position := by
      by_contra hnone
      exact hline (congrArg Nat.succ (List.count_eq_zero.mpr hnone))
    rw [List.count_cons_of_ne hc, lastLineLength_cons_of_mem hmem]

/-! ### The places of a text -/

/-- A place on one of the lines: at one of its characters, or right behind the last of them. -/
structure IsPlace (lines : List (List Char)) (place : Place) : Prop where
  line_pos : 1 ≤ place.line
  column_pos : 1 ≤ place.column
  exists_line : ∃ line, lines[place.line - 1]? = some line ∧ place.column ≤ line.length + 1

/-- The character at a place. -/
def charAt? (lines : List (List Char)) (place : Place) : Option Char :=
  lines[place.line - 1]?.bind fun chars ↦ chars[(place.column - 1).toNat]?

/-- The position of a place: the earlier lines, each with its newline, stand before it, and so do
the earlier characters of its own line. -/
def offset (lines : List (List Char)) (place : Place) : ℤ :=
  ((lines.take (place.line - 1)).map fun line ↦ (line.length + 1 : ℤ)).sum + (place.column - 1)

/-- Places by line, and on the same line by column. -/
def Place.key (place : Place) : ℕ ×ₗ ℤ := toLex (place.line, place.column)

theorem Place.key_lt_iff {first second : Place} :
    first.key < second.key ↔
      first.line < second.line ∨ first.line = second.line ∧ first.column < second.column :=
  Prod.Lex.toLex_lt_toLex

theorem Place.key_behind_lt {first second : Place} (h : first.key < second.key) (c : Char) :
    (first.behind c).key < (second.behind c).key := by
  rw [key_lt_iff] at h ⊢
  unfold behind
  split_ifs <;> grind

section Behind

variable {text : List Char} {place : Place}

theorem isPlace_first (text : List Char) : IsPlace (lines text) ⟨1, 1⟩ := by
  obtain ⟨first, rest, hlines⟩ := exists_lines_cons text
  exact ⟨le_rfl, le_rfl, first, by rw [hlines]; rfl, by dsimp only; omega⟩

theorem IsPlace.key_first_lt (h : IsPlace (lines text) place) (c : Char) :
    (⟨1, 1⟩ : Place).key < (place.behind c).key := by
  have hline := h.line_pos
  have hcolumn := h.column_pos
  rw [Place.key_lt_iff]
  unfold Place.behind
  split_ifs <;> grind

/-- The line of a place in the longer text: the same as before, unless it is the first one and the
character has gone there. -/
theorem line_behind (h : 1 ≤ place.line) (c : Char) :
    (lines (c :: text))[(place.behind c).line - 1]? =
      (lines text)[place.line - 1]?.map fun line ↦
        if c ≠ '\n' ∧ place.line = 1 then c :: line else line := by
  obtain ⟨number, hnumber⟩ := Nat.exists_eq_add_of_le' h
  obtain ⟨first, rest, hlines⟩ := exists_lines_cons text
  by_cases hc : c = '\n'
  · subst hc
    simp [Place.behind, lines_newline, hnumber]
  · rw [lines_other hc, hlines, List.modifyHead_cons]
    cases number with
    | zero => simp [Place.behind, hc, hnumber]
    | succ number => simp [Place.behind, hc, hnumber]

theorem column_behind (place : Place) (c : Char) :
    (place.behind c).column = place.column + if c ≠ '\n' ∧ place.line = 1 then 1 else 0 := by
  unfold Place.behind
  split_ifs <;> simp_all

theorem line_behind_pos (h : 1 ≤ place.line) (c : Char) : 1 ≤ (place.behind c).line := by
  unfold Place.behind
  split_ifs <;> grind

theorem IsPlace.behind (h : IsPlace (lines text) place) (c : Char) :
    IsPlace (lines (c :: text)) (place.behind c) := by
  obtain ⟨hline, hcolumn, line, hat, hle⟩ := h
  refine ⟨line_behind_pos hline c, ?_, _, by rw [line_behind hline, hat, Option.map_some], ?_⟩
  · rw [column_behind]
    split_ifs <;> omega
  · rw [column_behind]
    split_ifs <;> grind

theorem IsPlace.charAt?_behind (h : IsPlace (lines text) place) (c : Char) :
    charAt? (lines (c :: text)) (place.behind c) = charAt? (lines text) place := by
  obtain ⟨hline, hcolumn, line, hat, -⟩ := h
  unfold charAt?
  rw [line_behind hline, column_behind, hat]
  simp only [Option.map_some, Option.bind_some]
  split_ifs
  · rw [show (place.column + 1 - 1).toNat = (place.column - 1).toNat + 1 by omega,
      List.getElem?_cons_succ]
  · rw [Int.add_zero]

/-- The character in front moves every place one position on. -/
theorem offset_behind (h : 1 ≤ place.line) (c : Char) :
    offset (lines (c :: text)) (place.behind c) = offset (lines text) place + 1 := by
  obtain ⟨number, hnumber⟩ := Nat.exists_eq_add_of_le' h
  obtain ⟨first, rest, hlines⟩ := exists_lines_cons text
  unfold offset
  by_cases hc : c = '\n'
  · subst hc
    simp only [Place.behind, lines_newline, hnumber, if_true, Nat.add_sub_cancel,
      List.take_succ_cons, List.map_cons, List.sum_cons, List.length_nil]
    omega
  · rw [lines_other hc, hlines, List.modifyHead_cons]
    cases number with
    | zero => simp [Place.behind, hc, hnumber]
    | succ number =>
      have hline : place.line ≠ 1 := by omega
      simp only [Place.behind, hc, hline, if_false]
      simp only [hnumber, Nat.add_sub_cancel, List.take_succ_cons, List.map_cons, List.sum_cons,
        List.length_cons, Int.natCast_succ]
      omega

/-- An empty line has one place. -/
theorem IsPlace.eq_first {rest : List (List Char)} (h : IsPlace ([] :: rest) place)
    (hline : place.line = 1) : place = ⟨1, 1⟩ := by
  obtain ⟨number, column⟩ := place
  obtain rfl : number = 1 := hline
  obtain ⟨-, hcolumn, line, hat, hle⟩ := h
  obtain rfl : [] = line := Option.some.inj hat
  rw [Place.mk.injEq]
  exact ⟨rfl, le_antisymm (by simpa using hle) hcolumn⟩

/-- Every place of the longer text is the first one, or it comes from a place of the text. -/
theorem IsPlace.cases_cons {c : Char} (h : IsPlace (lines (c :: text)) place) :
    place = ⟨1, 1⟩ ∨ ∃ other, IsPlace (lines text) other ∧ place = other.behind c := by
  obtain ⟨number, column⟩ := place
  obtain ⟨hline, hcolumn, line, hat, hle⟩ := h
  obtain ⟨number, rfl⟩ := Nat.exists_eq_add_of_le' hline
  obtain ⟨first, rest, hlines⟩ := exists_lines_cons text
  dsimp only at hcolumn hat hle
  rw [Nat.add_sub_cancel] at hat
  by_cases hc : c = '\n'
  · subst hc
    rw [lines_newline] at hat
    cases number with
    | zero => exact .inl (IsPlace.eq_first ⟨hline, hcolumn, line, hat, hle⟩ rfl)
    | succ number => exact .inr ⟨⟨number + 1, column⟩, ⟨by simp, hcolumn, line, hat, hle⟩, rfl⟩
  · rw [lines_other hc, hlines, List.modifyHead_cons] at hat
    cases number with
    | zero =>
      obtain rfl : c :: first = line := Option.some.inj hat
      rcases hcolumn.eq_or_lt with rfl | hlt
      · exact .inl rfl
      · refine .inr ⟨⟨1, column - 1⟩, ⟨le_rfl, Int.le_sub_one_of_lt hlt, first, ?_, ?_⟩, ?_⟩
        · rw [hlines]
          rfl
        · rw [List.length_cons, Int.natCast_succ] at hle
          dsimp only
          omega
        · simp [Place.behind, hc]
    | succ number =>
      refine .inr ⟨⟨number + 2, column⟩, ⟨by simp, hcolumn, line, ?_, hle⟩, ?_⟩
      · rw [hlines]
        exact hat
      · simp [Place.behind, hc]

end Behind

/-! ### There and back -/

section Locate

variable {text : List Char} {position : ℕ}

theorem isPlace_locate (h : position ≤ text.length) :
    IsPlace (lines text) (locate text position) := by
  induction text generalizing position with
  | nil =>
    obtain rfl : position = 0 := Nat.le_zero.mp h
    exact isPlace_first []
  | cons c rest ih =>
    cases position with
    | zero =>
      rw [locate_zero]
      exact isPlace_first _
    | succ position =>
      rw [locate_cons c (Nat.le_of_succ_le_succ h)]
      exact (ih (Nat.le_of_succ_le_succ h)).behind c

theorem offset_locate (h : position ≤ text.length) :
    offset (lines text) (locate text position) = position := by
  induction text generalizing position with
  | nil =>
    obtain rfl : position = 0 := Nat.le_zero.mp h
    rfl
  | cons c rest ih =>
    cases position with
    | zero =>
      rw [locate_zero]
      simp [offset]
    | succ position =>
      have hle : position ≤ rest.length := Nat.le_of_succ_le_succ h
      rw [locate_cons c hle, offset_behind (isPlace_locate hle).line_pos, ih hle, Int.natCast_succ]

theorem exists_locate_eq {place : Place} (h : IsPlace (lines text) place) :
    ∃ position ≤ text.length, locate text (position : ℕ) = place := by
  induction text generalizing place with
  | nil =>
    have hline : place.line = 1 := by
      obtain ⟨hpos, -, line, hat, -⟩ := h
      have hlt : place.line - 1 < 1 := (List.getElem?_eq_some_iff.mp hat).1
      omega
    rw [h.eq_first hline]
    exact ⟨0, le_rfl, locate_zero []⟩
  | cons c rest ih =>
    rcases h.cases_cons with rfl | ⟨other, hother, rfl⟩
    · exact ⟨0, Nat.zero_le _, locate_zero _⟩
    · obtain ⟨position, hle, rfl⟩ := ih hother
      exact ⟨position + 1, Nat.succ_le_succ hle, locate_cons c hle⟩

theorem key_locate_lt {first second : ℕ} (hlt : first < second) (h : second ≤ text.length) :
    (locate text first).key < (locate text second).key := by
  induction text generalizing first second with
  | nil => simp only [List.length_nil] at h; omega
  | cons c rest ih =>
    cases second with
    | zero => omega
    | succ second =>
      have hle : second ≤ rest.length := Nat.le_of_succ_le_succ h
      rw [locate_cons c hle]
      cases first with
      | zero =>
        rw [locate_zero]
        exact (isPlace_locate hle).key_first_lt c
      | succ first =>
        have hfirst : first < second := Nat.lt_of_succ_lt_succ hlt
        rw [locate_cons c (hfirst.le.trans hle)]
        exact Place.key_behind_lt (ih hfirst hle) c

theorem charAt?_locate {c : Char} (hc : text[position]? = some c) (hne : c ≠ '\n') :
    charAt? (lines text) (locate text position) = some c := by
  induction text generalizing position with
  | nil => simp at hc
  | cons first rest ih =>
    cases position with
    | zero =>
      obtain rfl : first = c := Option.some.inj hc
      obtain ⟨line, others, hlines⟩ := exists_lines_cons rest
      rw [locate_zero, lines_other hne, hlines]
      rfl
    | succ position =>
      rw [List.getElem?_cons_succ] at hc
      have hle : position ≤ rest.length := (List.getElem?_eq_some_iff.mp hc).1.le
      rw [locate_cons first hle, (isPlace_locate hle).charAt?_behind, ih hc]

end Locate

/-- Positions and places correspond. The positions of a text, with the one behind its end, are
mapped one-to-one onto the places of its lines, and the lengths of the earlier lines lead back.
Later positions have later places, and a character other than a newline is found at the place of
its position. -/
theorem positions_correspond_to_places (text : List Char) :
    lines text = text.splitOn '\n' ∧
    Set.BijOn (fun position : ℕ ↦ locate text position) (Set.Iic text.length)
      {place | IsPlace (lines text) place} ∧
    (∀ position : ℕ, position ≤ text.length →
      offset (lines text) (locate text position) = position) ∧
    (∀ place, IsPlace (lines text) place → ∃ position : ℕ, position ≤ text.length ∧
      offset (lines text) place = position ∧ locate text position = place) ∧
    (∀ first second : ℕ, first < second → second ≤ text.length →
      (locate text first).key < (locate text second).key) ∧
    ∀ (position : ℕ) (c : Char), text[position]? = some c → c ≠ '\n' →
      charAt? (lines text) (locate text position) = some c := by
  refine ⟨lines_eq_splitOn text, ⟨?_, ?_, ?_⟩, fun _ ↦ offset_locate, ?_,
    fun _ _ ↦ key_locate_lt, fun _ _ ↦ charAt?_locate⟩
  · intro position h
    exact isPlace_locate h
  · intro first hfirst second hsecond heq
    have hoffset := congrArg (offset (lines text)) heq
    dsimp only at hoffset
    rw [offset_locate hfirst, offset_locate hsecond] at hoffset
    exact Int.natCast_inj.mp hoffset
  · intro place h
    exact exists_locate_eq h
  · intro place h
    obtain ⟨position, hle, rfl⟩ := exists_locate_eq h
    exact ⟨position, hle, offset_locate hle, rfl⟩

/-- In a text of three lines, of which the second is empty, the first character of the third line
stands at position 3, and the two newlines before it have places of their own. -/
theorem positions_correspond_to_places_around_an_empty_line :
    let text := ['a', '\n', '\n', 'b']
    locate text (3 : ℕ) = ⟨3, 1⟩ ∧ charAt? (lines text) (locate text (3 : ℕ)) = some 'b' ∧
      (locate text (1 : ℕ)).key < (locate text (2 : ℕ)).key ∧
      ∃ position : ℕ, position ≤ 4 ∧ offset (lines text) ⟨2, 1⟩ = position ∧
        locate text position = ⟨2, 1⟩ := by
  intro text
  obtain ⟨-, -, -, hplace, hmono, hchar⟩ := positions_correspond_to_places text
  exact ⟨by decide, hchar 3 'b' rfl (by decide), hmono 1 2 (by decide) (by decide),
    hplace ⟨2, 1⟩ ⟨by decide, by decide, [], by decide, by decide⟩⟩

end TapeMachine.Text
