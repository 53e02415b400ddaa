import TapeMachine.Proofs.Matching
import Mathlib.Order.Bounds.Basic

/-!
The bracket scan diagnoses every text that it turns away. A closing bracket without a partner is
reported where the closing brackets first outnumber the opening ones (`isLeast_overcloses`), and
nothing behind it matters (`build_append_of_unmatchedClose`). A text without such a position is
turned away for the brackets that are still open at its end, and these are exactly the ones that no
later bracket closes (`Scanned.mem_iff`).

The stack of open brackets is determined by the heights alone. Behind an open bracket the text stays
above the height where the bracket stands (`Opens.above`), so the stack is sorted
(`Opens.pairwise`), and two stacks for the same position are equal (`Opens.unique`).
-/

set_option autoImplicit false
set_option relaxedAutoImplicit false

namespace TapeMachine.Matching

/-! ### Stretches of a longer text -/

/-- A stretch is level in a part of the text exactly if it is level in the text. -/
theorem level_between_iff {text : List Char} {first last i j : ℕ} (h : first + j ≤ last) :
    Level ((text.take last).drop first) i j ↔ Level text (first + i) (first + j) := by
  have hheight {position : ℕ} (hle : position ≤ j) :
      height ((text.take last).drop first) position =
        height text (first + position) - height text first := height_between (by omega)
  constructor
  · intro hlevel
    have hle := hlevel.le
    have hback := hlevel.back
    rw [hheight le_rfl, hheight hle] at hback
    refine ⟨by omega, by omega, ?_⟩
    intro position hfirst hlast
    have habove := hlevel.above (position - first) (by omega) (by omega)
    rw [hheight hle, hheight (by omega), show first + (position - first) = position by omega]
      at habove
    omega
  · intro hlevel
    have hle : i ≤ j := Nat.le_of_add_le_add_left hlevel.le
    have hback := hlevel.back
    refine ⟨hle, by rw [hheight le_rfl, hheight hle, hback], ?_⟩
    intro position hfirst hlast
    have habove := hlevel.above (first + position) (by omega) (by omega)
    rw [hheight hle, hheight hlast]
    omega

theorem level_append_iff {front rest : List Char} {i j : ℕ} (h : j ≤ front.length) :
    Level (front ++ rest) i j ↔ Level front i j := by
  have hiff : Level (((front ++ rest).take front.length).drop 0) i j ↔
      Level (front ++ rest) (0 + i) (0 + j) := level_between_iff (by omega)
  rw [List.take_left, List.drop_zero, Nat.zero_add, Nat.zero_add] at hiff
  exact hiff.symm

/-! ### The stack of open brackets -/

namespace Opens

variable {text : List Char} {position start : ℕ} {stack other : List ℕ}

theorem lt (h : Opens text position stack) (hmem : start ∈ stack) : start < position := by
  induction stack generalizing position with
  | nil => simp at hmem
  | cons top stack ih =>
    obtain ⟨-, hlevel, hstack⟩ := h
    have htop : top < position := hlevel.le
    rcases List.mem_cons.mp hmem with rfl | hmem
    · exact htop
    · exact (ih hstack hmem).trans htop

theorem opens (h : Opens text position stack) (hmem : start ∈ stack) :
    text[start]? = some '[' := by
  induction stack generalizing position with
  | nil => simp at hmem
  | cons top stack ih =>
    rcases List.mem_cons.mp hmem with rfl | hmem
    · exact h.1
    · exact ih h.2.2 hmem

/-- Behind an open bracket the text stays above the height where the bracket stands. -/
theorem above (h : Opens text position stack) (hmem : start ∈ stack) {next : ℕ}
    (hafter : start < next) (hle : next ≤ position) : height text start < height text next := by
  induction stack generalizing position next with
  | nil => simp at hmem
  | cons top stack ih =>
    obtain ⟨hopen, hlevel, hstack⟩ := h
    have htop {next : ℕ} (hafter : top < next) (hle : next ≤ position) :
        height text top < height text next := by
      have hup := height_succ_open hopen
      have habove := hlevel.above next hafter hle
      omega
    rcases List.mem_cons.mp hmem with rfl | hmem
    · exact htop hafter hle
    · rcases Nat.lt_or_ge top next with hbehind | hbefore
      · exact (ih hstack hmem (hstack.lt hmem) le_rfl).trans (htop hbehind hle)
      · exact ih hstack hmem hafter hbefore

/-- The stack holds later brackets before earlier ones. -/
theorem pairwise (h : Opens text position stack) : stack.Pairwise (· > ·) := by
  induction stack generalizing position with
  | nil => exact .nil
  | cons top stack ih => exact .cons (fun _ ↦ h.2.2.lt) (ih h.2.2)

/-- No bracket before the position closes more than has been opened. -/
theorem height_nonneg (h : Opens text position stack) {next : ℕ} (hle : next ≤ position) :
    0 ≤ height text next := by
  induction stack generalizing position next with
  | nil =>
    have habove := Level.above h next (Nat.zero_le next) hle
    rwa [height_zero] at habove
  | cons top stack ih =>
    rcases Nat.lt_or_ge top next with hbehind | hbefore
    · have htop := ih h.2.2 le_rfl
      have habove := h.above List.mem_cons_self hbehind hle
      omega
    · exact ih h.2.2 hbefore

/-- The brackets that are open at a position are determined by the text. -/
theorem unique (h : Opens text position stack) (hother : Opens text position other) :
    stack = other := by
  induction stack generalizing position other with
  | nil =>
    have hheight := h.height_eq.symm.trans hother.height_eq
    cases other with
    | nil => rfl
    | cons top other => simp at hheight; omega
  | cons top stack ih =>
    have hheight := h.height_eq.symm.trans hother.height_eq
    cases other with
    | nil => simp at hheight; omega
    | cons first other =>
      -- Both topmost brackets stand one below the height of the position, so neither stands
      -- behind the other.
      have htop := h.2.2.height_eq
      have hfirst := hother.2.2.height_eq
      simp only [List.length_cons, Int.natCast_inj] at hheight
      obtain rfl : top = first := by
        rcases Nat.lt_trichotomy top first with hlt | heq | hlt
        · have habove := h.above List.mem_cons_self hlt (hother.lt List.mem_cons_self).le
          omega
        · exact heq
        · have habove := hother.above List.mem_cons_self hlt (h.lt List.mem_cons_self).le
          omega
      rw [ih h.2.2 hother.2.2]

end Opens

/-! ### Where the scan gives up -/

/-- Up to and including the position, more brackets are closed than opened. -/
def Overcloses (text : List Char) (position : ℕ) : Prop :=
  (text.take (position + 1)).count '[' < (text.take (position + 1)).count ']'

/-- The character at the position is an opening bracket, and no stretch of text that begins with it
is balanced. -/
def StaysOpen (text : List Char) (position : ℕ) : Prop :=
  text[position]? = some '[' ∧ ∀ last, position < last → last < text.length →
    ¬Balanced ((text.take (last + 1)).drop position)

theorem overcloses_iff_height {text : List Char} {position : ℕ} :
    Overcloses text position ↔ height text (position + 1) < 0 := by
  unfold Overcloses height
  omega

theorem exists_overclosed_iff {text : List Char} :
    (∃ front ∈ text.inits, front.count '[' < front.count ']') ↔
      ∃ position, Overcloses text position := by
  constructor
  · rintro ⟨front, hmem, hlt⟩
    have hfront := List.prefix_iff_eq_take.mp ((List.mem_inits _ _).mp hmem)
    have hclose : ']' ∈ front := List.count_pos_iff.mp (by omega)
    have hpos := List.length_pos_of_mem hclose
    refine ⟨front.length - 1, ?_⟩
    unfold Overcloses
    rwa [Nat.sub_add_cancel hpos, ← hfront]
  · rintro ⟨position, hover⟩
    exact ⟨_, (List.mem_inits _ _).mpr (List.take_prefix _ text), hover⟩

/-- A closing bracket behind a level stretch is where closing brackets first prevail. -/
theorem isLeast_overcloses {text : List Char} {finish : ℕ} (hclose : text[finish]? = some ']')
    (hlevel : Level text 0 finish) : IsLeast {position | Overcloses text position} finish := by
  constructor
  · have hdown := height_succ_close hclose
    have hback := hlevel.back
    rw [height_zero] at hback
    exact overcloses_iff_height.mpr (by omega)
  · intro position hposition
    by_contra hlt
    have habove := hlevel.above (position + 1) (Nat.zero_le _) (by omega)
    have hbelow := overcloses_iff_height.mp hposition
    rw [height_zero] at habove
    omega

theorem Opens.not_overcloses {text : List Char} {stack : List ℕ}
    (h : Opens text text.length stack) (position : ℕ) : ¬Overcloses text position := by
  intro hover
  have hheight := h.height_nonneg (Nat.min_le_right (position + 1) text.length)
  rw [overcloses_iff_height] at hover
  unfold height at hheight hover
  rw [← List.take_eq_take_min] at hheight
  omega

/-- The brackets left open at the end of a text are those that no later bracket closes. -/
theorem Scanned.mem_iff {text : List Char} {stack : List ℕ} {partners : Array (Option ℤ)}
    (h : Scanned text text.length stack partners) (start : ℕ) :
    start ∈ stack ↔ StaysOpen text start := by
  constructor
  · intro hmem
    refine ⟨h.opens.opens hmem, ?_⟩
    intro last hafter hlast hbalanced
    have hlevel := (balanced_between_iff (by omega) hlast).mp hbalanced
    have habove := h.opens.above hmem (Nat.lt_succ_of_lt hafter) hlast
    have hback := hlevel.back
    omega
  · rintro ⟨hopen, hstays⟩
    have hlt := (List.getElem?_eq_some_iff.mp hopen).1
    rcases h.opening start hlt hopen with hmem | ⟨finish, hfinish, hpair⟩
    · exact hmem
    · have hlevel := Level.enclose hopen hpair.level hpair.closes
      exact absurd ((balanced_between_iff hlevel.le hfinish).mpr hlevel)
        (hstays finish hpair.lt hfinish)

/-! ### The two failures -/

section Failures

variable {program : Program}

theorem exists_of_unmatchedClose {position : ℤ}
    (h : BracketIndex.build program = .error (.unmatchedClose position)) :
    ∃ finish : ℕ, position = finish ∧ program.chars.toList[finish]? = some ']' ∧
      Level program.chars.toList 0 finish := by
  rcases build_cases program with ⟨_, heq, -⟩ | ⟨finish, heq, hfinish⟩ | ⟨_, _, heq, -⟩
  · rw [heq] at h
    cases h
  · rw [heq] at h
    cases h
    exact ⟨finish, rfl, hfinish⟩
  · rw [heq] at h
    cases h

theorem exists_of_unclosedOpens {positions : List ℤ}
    (h : BracketIndex.build program = .error (.unclosedOpens positions)) :
    ∃ (left : List ℕ) (partners : Array (Option ℤ)), positions = left.reverse.map Int.ofNat ∧
      left ≠ [] ∧ Scanned program.chars.toList program.chars.toList.length left partners := by
  rcases build_cases program with ⟨_, heq, -⟩ | ⟨_, heq, -⟩ | ⟨left, partners, heq, hleft⟩
  · rw [heq] at h
    cases h
  · rw [heq] at h
    cases h
  · rw [heq] at h
    cases h
    exact ⟨left, partners, rfl, hleft⟩

/-- The scan fails at a closing bracket exactly if the text before that bracket is level. -/
theorem build_eq_unmatchedClose_iff {finish : ℕ} :
    BracketIndex.build program = .error (.unmatchedClose finish) ↔
      program.chars.toList[finish]? = some ']' ∧ Level program.chars.toList 0 finish := by
  constructor
  · intro h
    obtain ⟨other, hcast, hother⟩ := exists_of_unmatchedClose h
    rwa [Int.natCast_inj.mp hcast]
  · rintro ⟨hclose, hlevel⟩
    have hleast := isLeast_overcloses hclose hlevel
    rcases build_cases program with ⟨_, -, hscanned⟩ | ⟨other, heq, hother⟩ |
      ⟨_, _, -, -, hscanned⟩
    · exact absurd hleast.1 (hscanned.opens.not_overcloses finish)
    · rw [heq, (isLeast_overcloses hother.1 hother.2).unique hleast]
    · exact absurd hleast.1 (hscanned.opens.not_overcloses finish)

/-- The scan fails at the end of the text if brackets are open there. -/
theorem build_eq_unclosedOpens {left : List ℕ} (hne : left ≠ [])
    (hopens : Opens program.chars.toList program.chars.toList.length left) :
    BracketIndex.build program = .error (.unclosedOpens (left.reverse.map Int.ofNat)) := by
  rcases build_cases program with ⟨_, -, hscanned⟩ | ⟨finish, -, hclose, hlevel⟩ |
    ⟨other, _, heq, -, hscanned⟩
  · exact absurd (hopens.unique hscanned.opens) hne
  · exact absurd (isLeast_overcloses hclose hlevel).1 (hopens.not_overcloses finish)
  · rw [heq, hopens.unique hscanned.opens]

/-- What stands behind a closing bracket without a partner makes no difference. -/
theorem build_append_of_unmatchedClose {finish : ℕ}
    (h : BracketIndex.build program = .error (.unmatchedClose finish)) (rest : List Char) :
    BracketIndex.build ⟨(program.chars.toList.take (finish + 1) ++ rest).toArray⟩ =
      .error (.unmatchedClose finish) := by
  obtain ⟨hclose, hlevel⟩ := build_eq_unmatchedClose_iff.mp h
  have hlength : (program.chars.toList.take (finish + 1)).length = finish + 1 := by
    have hlt := (List.getElem?_eq_some_iff.mp hclose).1
    rw [List.length_take, Nat.min_eq_left hlt]
  refine build_eq_unmatchedClose_iff.mpr ⟨?_, ?_⟩
  · rw [List.getElem?_append_left (by omega), List.getElem?_take_of_lt (Nat.lt_succ_self finish)]
    exact hclose
  · rw [← List.take_append_drop (finish + 1) program.chars.toList,
      level_append_iff (by omega)] at hlevel
    exact (level_append_iff (by omega)).mpr hlevel

theorem exists_unmatchedClose_iff :
    (∃ position, BracketIndex.build program = .error (.unmatchedClose position)) ↔
      ∃ front ∈ program.chars.toList.inits, front.count '[' < front.count ']' := by
  rw [exists_overclosed_iff]
  constructor
  · rintro ⟨position, h⟩
    obtain ⟨finish, -, hclose, hlevel⟩ := exists_of_unmatchedClose h
    exact ⟨finish, (isLeast_overcloses hclose hlevel).1⟩
  · rintro ⟨position, hover⟩
    rcases build_cases program with ⟨_, -, hscanned⟩ | ⟨finish, heq, -⟩ | ⟨_, _, -, -, hscanned⟩
    · exact absurd hover (hscanned.opens.not_overcloses position)
    · exact ⟨finish, heq⟩
    · exact absurd hover (hscanned.opens.not_overcloses position)

theorem exists_unclosedOpens_iff (h : ¬Balanced program.chars.toList) :
    (∃ positions, BracketIndex.build program = .error (.unclosedOpens positions)) ↔
      ¬∃ front ∈ program.chars.toList.inits, front.count '[' < front.count ']' := by
  rw [← exists_unmatchedClose_iff]
  constructor
  · rintro ⟨positions, heq⟩ ⟨position, hother⟩
    rw [heq] at hother
    cases hother
  · intro hnone
    rcases build_cases program with ⟨index, heq, -⟩ | ⟨finish, heq, -⟩ | ⟨left, _, heq, -⟩
    · exact absurd ((build_isOk_iff_balanced program).mp ⟨index, heq⟩) h
    · exact absurd ⟨_, heq⟩ hnone
    · exact ⟨_, heq⟩

end Failures

/-- A text that is not balanced is turned away in exactly one of two ways. If some prefix has more
closing than opening brackets, the first position up to which this is so is reported, and a text
that goes on differently behind it is turned away in the same way. Otherwise the brackets that stay
open are reported, in the order of the text. -/
theorem build_diagnoses_failures (program : Program) (h : ¬Balanced program.chars.toList) :
    let text := program.chars.toList
    (∀ index, BracketIndex.build program ≠ .ok index) ∧
    ((∃ position, BracketIndex.build program = .error (.unmatchedClose position)) ↔
      ∃ front ∈ text.inits, front.count '[' < front.count ']') ∧
    (∀ position, BracketIndex.build program = .error (.unmatchedClose position) →
      ∃ least : ℕ, position = least ∧ IsLeast {position | Overcloses text position} least ∧
        ∀ rest, BracketIndex.build ⟨(text.take (least + 1) ++ rest).toArray⟩ =
          .error (.unmatchedClose position)) ∧
    ((∃ positions, BracketIndex.build program = .error (.unclosedOpens positions)) ↔
      ¬∃ front ∈ text.inits, front.count '[' < front.count ']') ∧
    ∀ positions, BracketIndex.build program = .error (.unclosedOpens positions) →
      ∃ opens : List ℕ, positions = opens.map Int.ofNat ∧ opens ≠ [] ∧ opens.Pairwise (· < ·) ∧
        ∀ position, position ∈ opens ↔ StaysOpen text position := by
  intro text
  refine ⟨?_, exists_unmatchedClose_iff, ?_, exists_unclosedOpens_iff h, ?_⟩
  · intro index heq
    exact h ((build_isOk_iff_balanced program).mp ⟨index, heq⟩)
  · intro position heq
    obtain ⟨finish, rfl, hclose, hlevel⟩ := exists_of_unmatchedClose heq
    exact ⟨finish, rfl, isLeast_overcloses hclose hlevel, build_append_of_unmatchedClose heq⟩
  · intro positions heq
    obtain ⟨left, partners, rfl, hne, hscanned⟩ := exists_of_unclosedOpens heq
    refine ⟨left.reverse, rfl, by simpa using hne, ?_, ?_⟩
    · exact List.pairwise_reverse.mpr hscanned.opens.pairwise
    · intro position
      rw [List.mem_reverse]
      exact hscanned.mem_iff position

/-- In `[]]x[` the closing brackets first prevail at position 2, whatever is open later, and in
`[[]a[` the first and the last bracket stay open. -/
theorem build_diagnoses_failures_of_both_kinds :
    (¬Balanced "[]]x[".toList ∧ IsLeast {position | Overcloses "[]]x[".toList position} 2) ∧
    ¬Balanced "[[]a[".toList ∧
      ∀ position, position ∈ [0, 4] ↔ StaysOpen "[[]a[".toList position := by
  have hclosed : ¬Balanced "[]]x[".toList := by decide
  have hopened : ¬Balanced "[[]a[".toList := by decide
  refine ⟨⟨hclosed, ?_⟩, hopened, ?_⟩
  · obtain ⟨-, -, hclose, -⟩ := build_diagnoses_failures (Program.ofText "[]]x[") hclosed
    obtain ⟨least, hcast, hleast, -⟩ := hclose 2 (by decide)
    rwa [← Int.natCast_inj.mp hcast] at hleast
  · obtain ⟨-, -, -, -, hopen⟩ := build_diagnoses_failures (Program.ofText "[[]a[") hopened
    obtain ⟨opens, hopens, -, -, hmem⟩ := hopen [0, 4] (by decide)
    have hcast : Function.Injective Int.ofNat := fun _ _ ↦ Int.ofNat.inj
    have hlist : [0, 4] = opens := hcast.list_map hopens
    rwa [← hlist] at hmem

end TapeMachine.Matching
