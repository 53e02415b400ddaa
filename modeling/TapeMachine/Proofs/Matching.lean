import TapeMachine.Brackets
import Mathlib.Data.List.Infix

/-!
The bracket scan finds the one correct matching, and finds it exactly on balanced texts.

The height of a position counts the brackets opened and not closed before it. A stretch of text is
level when it ends at the height where it began and never goes below it; a level stretch is a
balanced text (`balanced_between_iff`). An opening and a closing bracket belong together when the
stretch between them is level (`Pairs`), and heights alone decide which bracket that is, on either
side (`Pairs.closing_unique`, `Pairs.opening_unique`).

The invariant of the scan is `Scanned`. Its stack holds the brackets that are open at the current
position, with level stretches between them (`Opens`), and its array holds exactly the pairs that
close before the current position. Each of the three moves of the scan keeps it
(`Scanned.push`, `Scanned.pop`, `Scanned.skip`), and `scan_cases` says how a scan can end.
-/

set_option autoImplicit false
set_option relaxedAutoImplicit false

namespace TapeMachine.Matching

/-! ### Balanced texts and heights -/

/-- No prefix has more closing than opening brackets, and the whole text has equally many. -/
def Balanced (text : List Char) : Prop :=
  (∀ front ∈ text.inits, front.count ']' ≤ front.count '[') ∧ text.count '[' = text.count ']'

instance (text : List Char) : Decidable (Balanced text) :=
  inferInstanceAs (Decidable (_ ∧ _))

/-- The number of brackets opened before a position, less the number closed before it. -/
def height (text : List Char) (position : ℕ) : ℤ :=
  ((text.take position).count '[' : ℤ) - ((text.take position).count ']' : ℤ)

@[simp] theorem height_zero (text : List Char) : height text 0 = 0 := by
  simp [height]

theorem height_succ {text : List Char} {position : ℕ} {c : Char}
    (h : text[position]? = some c) :
    height text (position + 1) =
      height text position + ((if c = '[' then 1 else 0) - (if c = ']' then 1 else 0)) := by
  unfold height
  rw [List.take_add_one, h]
  simp only [Option.toList_some, List.count_append, List.count_singleton, beq_iff_eq]
  split_ifs <;> push_cast <;> omega

theorem height_succ_open {text : List Char} {position : ℕ} (h : text[position]? = some '[') :
    height text (position + 1) = height text position + 1 := by
  rw [height_succ h]
  simp

theorem height_succ_close {text : List Char} {position : ℕ} (h : text[position]? = some ']') :
    height text (position + 1) = height text position - 1 := by
  rw [height_succ h]
  simp [Int.sub_eq_add_neg]

theorem height_succ_other {text : List Char} {position : ℕ} {c : Char}
    (h : text[position]? = some c) (hopen : c ≠ '[') (hclose : c ≠ ']') :
    height text (position + 1) = height text position := by
  rw [height_succ h, if_neg hopen, if_neg hclose]
  omega

/-- Heights within a stretch of text are heights in the text, counted from where it begins. -/
theorem height_between {text : List Char} {first last offset : ℕ} (h : first + offset ≤ last) :
    height ((text.take last).drop first) offset =
      height text (first + offset) - height text first := by
  have hcut : ((text.take last).drop first).take offset = (text.drop first).take offset := by
    rw [List.drop_take, List.take_take, Nat.min_eq_left (by omega)]
  unfold height
  rw [hcut, List.take_add]
  simp only [List.count_append]
  push_cast
  omega

theorem balanced_iff_height {text : List Char} :
    Balanced text ↔
      (∀ position ≤ text.length, 0 ≤ height text position) ∧ height text text.length = 0 := by
  unfold Balanced
  constructor
  · rintro ⟨hfront, htotal⟩
    constructor
    · intro position _
      have hcount := hfront _ ((List.mem_inits _ _).mpr (List.take_prefix position text))
      unfold height
      omega
    · unfold height
      rw [List.take_length]
      omega
  · rintro ⟨hheight, htotal⟩
    constructor
    · intro front hmem
      have hfront := (List.mem_inits _ _).mp hmem
      have hpos := hheight front.length hfront.length_le
      unfold height at hpos
      rw [← List.prefix_iff_eq_take.mp hfront] at hpos
      omega
    · unfold height at htotal
      rw [List.take_length] at htotal
      omega

/-! ### Level stretches -/

/-- The stretch of text from `first` up to `last` ends at the height where it began and never goes
below it. -/
structure Level (text : List Char) (first last : ℕ) : Prop where
  le : first ≤ last
  back : height text last = height text first
  above : ∀ position, first ≤ position → position ≤ last →
    height text first ≤ height text position

namespace Level

variable {text : List Char} {first middle last : ℕ}

theorem refl (text : List Char) (position : ℕ) : Level text position position where
  le := Nat.le_refl position
  back := rfl
  above := by
    intro other hfirst hlast
    obtain rfl : other = position := Nat.le_antisymm hlast hfirst
    exact Int.le_refl _

theorem trans (hfirst : Level text first middle) (hlast : Level text middle last) :
    Level text first last where
  le := hfirst.le.trans hlast.le
  back := hlast.back.trans hfirst.back
  above := by
    intro position hle hge
    rcases Nat.le_total position middle with hmiddle | hmiddle
    · exact hfirst.above position hle hmiddle
    · have habove := hlast.above position hmiddle hge
      rwa [hfirst.back] at habove

/-- What is left of a level stretch behind another one is level. -/
theorem rest (h : Level text first last) (hfront : Level text first middle)
    (hle : middle ≤ last) : Level text middle last where
  le := hle
  back := h.back.trans hfront.back.symm
  above := by
    intro position hmiddle hlast
    rw [hfront.back]
    exact h.above position (hfront.le.trans hmiddle) hlast

/-- A level stretch does not begin with a closing bracket. -/
theorem ne_close {c : Char} (h : Level text first last) (hc : text[first]? = some c)
    (hlt : first < last) : c ≠ ']' := by
  rintro rfl
  have hdown := height_succ_close hc
  have habove := h.above (first + 1) (Nat.le_succ first) hlt
  omega

/-- A character that is no bracket is a level stretch. -/
theorem other {c : Char} (h : text[first]? = some c) (hopen : c ≠ '[') (hclose : c ≠ ']') :
    Level text first (first + 1) where
  le := Nat.le_succ first
  back := height_succ_other h hopen hclose
  above := by
    intro position hle hge
    rcases Nat.eq_or_lt_of_le hle with rfl | hlt
    · exact Int.le_refl _
    · obtain rfl : position = first + 1 := by omega
      exact Int.le_of_eq (height_succ_other h hopen hclose).symm

/-- A level stretch between an opening and a closing bracket is level together with them. -/
theorem enclose (hopen : text[first]? = some '[') (hlevel : Level text (first + 1) last)
    (hclose : text[last]? = some ']') : Level text first (last + 1) := by
  have hup := height_succ_open hopen
  have hdown := height_succ_close hclose
  have hback := hlevel.back
  have hle := hlevel.le
  refine ⟨by omega, by omega, ?_⟩
  intro position hfirst hlast
  rcases Nat.eq_or_lt_of_le hfirst with rfl | hinside
  · exact Int.le_refl _
  · rcases Nat.eq_or_lt_of_le hlast with rfl | hbefore
    · omega
    · have habove := hlevel.above position (by omega) (by omega)
      omega

end Level

theorem balanced_iff_level {text : List Char} : Balanced text ↔ Level text 0 text.length := by
  rw [balanced_iff_height]
  constructor
  · rintro ⟨hpos, htotal⟩
    refine ⟨Nat.zero_le _, by rw [htotal, height_zero], ?_⟩
    intro position _ hlast
    rw [height_zero]
    exact hpos position hlast
  · intro hlevel
    refine ⟨?_, by rw [hlevel.back, height_zero]⟩
    intro position hlast
    have habove := hlevel.above position (Nat.zero_le _) hlast
    rwa [height_zero] at habove

/-- The text from `first` up to `last` is balanced exactly if that stretch is level. -/
theorem balanced_between_iff {text : List Char} {first last : ℕ} (hle : first ≤ last)
    (hlast : last ≤ text.length) :
    Balanced ((text.take last).drop first) ↔ Level text first last := by
  have hlength : ((text.take last).drop first).length = last - first := by
    rw [List.length_drop, List.length_take, Nat.min_eq_left hlast]
  rw [balanced_iff_height, hlength]
  constructor
  · rintro ⟨hpos, htotal⟩
    refine ⟨hle, ?_, ?_⟩
    · rw [height_between (by omega)] at htotal
      rw [show first + (last - first) = last by omega] at htotal
      omega
    · intro position hfirst hposition
      have hheight := hpos (position - first) (by omega)
      rw [height_between (by omega), show first + (position - first) = position by omega] at hheight
      omega
  · intro hlevel
    constructor
    · intro offset hoffset
      have habove := hlevel.above (first + offset) (by omega) (by omega)
      rw [height_between (by omega)]
      omega
    · have hback := hlevel.back
      rw [height_between (by omega), show first + (last - first) = last by omega]
      omega

/-! ### Pairs of brackets -/

/-- The brackets at the two positions belong together: the text between them is level. -/
structure Pairs (text : List Char) (opening closing : ℕ) : Prop where
  opens : text[opening]? = some '['
  closes : text[closing]? = some ']'
  level : Level text (opening + 1) closing

namespace Pairs

variable {text : List Char} {opening closing other : ℕ}

theorem lt (h : Pairs text opening closing) : opening < closing := h.level.le

theorem closing_lt_length (h : Pairs text opening closing) : closing < text.length :=
  (List.getElem?_eq_some_iff.mp h.closes).1

theorem closing_le (h : Pairs text opening closing) (hother : Pairs text opening other) :
    closing ≤ other := by
  by_contra hlt
  have hlevel := h.level.above (other + 1) (by have := hother.lt; omega) (by omega)
  have hback := hother.level.back
  have hdown := height_succ_close hother.closes
  omega

theorem closing_unique (h : Pairs text opening closing) (hother : Pairs text opening other) :
    closing = other :=
  Nat.le_antisymm (h.closing_le hother) (hother.closing_le h)

theorem opening_le (h : Pairs text opening closing) (hother : Pairs text other closing) :
    other ≤ opening := by
  by_contra hlt
  have hlevel := h.level.above other (by omega) (Nat.le_of_lt hother.lt)
  have hup := height_succ_open hother.opens
  have hback := h.level.back
  have hbackOther := hother.level.back
  omega

theorem opening_unique (h : Pairs text opening closing) (hother : Pairs text other closing) :
    opening = other :=
  Nat.le_antisymm (hother.opening_le h) (h.opening_le hother)

/-- A pair that opens inside another one closes inside it. -/
theorem nested {inner innerClosing : ℕ} (h : Pairs text opening closing)
    (hinner : Pairs text inner innerClosing) (hafter : opening < inner)
    (hbefore : inner < closing) : innerClosing < closing := by
  by_contra hle
  have hbase := h.level.above inner hafter (Nat.le_of_lt hbefore)
  have hup := height_succ_open hinner.opens
  have hlevel := hinner.level.above closing hbefore (by omega)
  have hback := h.level.back
  omega

/-- A pair that closes inside another one opens inside it. -/
theorem opening_lt {inner innerClosing : ℕ} (h : Pairs text opening closing)
    (hinner : Pairs text inner innerClosing) (hafter : opening < innerClosing)
    (hbefore : innerClosing < closing) : opening < inner := by
  by_contra hle
  rcases Nat.eq_or_lt_of_le (Nat.le_of_not_lt hle) with rfl | hlt
  · have hsame := h.closing_unique hinner
    omega
  · have hcrossed := hinner.nested h hlt hafter
    omega

/-- A pair that opens where a level stretch begins closes inside it. -/
theorem closing_lt {last : ℕ} (h : Pairs text opening closing) (hlevel : Level text opening last)
    (hlt : opening < last) : closing < last := by
  by_contra hle
  have habove := h.level.above last hlt (by omega)
  have hup := height_succ_open h.opens
  have hback := hlevel.back
  omega

end Pairs

/-! ### The invariant of the scan -/

/-- The stack holds the brackets that are open at a position, innermost first, with level stretches
before, between and after them. -/
def Opens (text : List Char) : ℕ → List ℕ → Prop
  | position, [] => Level text 0 position
  | position, start :: stack =>
    text[start]? = some '[' ∧ Level text (start + 1) position ∧ Opens text start stack

theorem Opens.extend {text : List Char} {position next : ℕ} {stack : List ℕ}
    (h : Opens text position stack) (hlevel : Level text position next) :
    Opens text next stack := by
  cases stack with
  | nil => exact Level.trans h hlevel
  | cons start stack => exact ⟨h.1, h.2.1.trans hlevel, h.2.2⟩

/-- The height of a position is the number of brackets that are open there. -/
theorem Opens.height_eq {text : List Char} {position : ℕ} {stack : List ℕ}
    (h : Opens text position stack) : height text position = stack.length := by
  induction stack generalizing position with
  | nil => rw [h.back, height_zero, List.length_nil, Int.natCast_zero]
  | cons start stack ih =>
    obtain ⟨hopen, hlevel, hstack⟩ := h
    rw [hlevel.back, height_succ_open hopen, ih hstack, List.length_cons, Int.natCast_succ]

/-- What the scan knows at a position: the stack holds the open brackets, every bracket before the
position is open or paired, and the array holds exactly the pairs that close before it. -/
structure Scanned (text : List Char) (position : ℕ) (stack : List ℕ)
    (partners : Array (Option ℤ)) : Prop where
  size_eq : partners.size = text.length
  opens : Opens text position stack
  opening : ∀ start < position, text[start]? = some '[' →
    start ∈ stack ∨ ∃ finish < position, Pairs text start finish
  closing : ∀ finish < position, text[finish]? = some ']' → ∃ start, Pairs text start finish
  partner : ∀ (i : ℕ) (other : ℤ), partners[i]? = some (some other) ↔
    ∃ j : ℕ, other = j ∧ (Pairs text i j ∧ j < position ∨ Pairs text j i ∧ i < position)

namespace Scanned

variable {text : List Char} {position start : ℕ} {stack : List ℕ} {partners : Array (Option ℤ)}

/-- Before the first character nothing is open and nothing is paired. -/
theorem initial (text : List Char) : Scanned text 0 [] (Array.replicate text.length none) where
  size_eq := Array.size_replicate
  opens := Level.refl text 0
  opening := by
    intro start hlt
    omega
  closing := by
    intro finish hlt
    omega
  partner := by
    intro i other
    simp [Array.getElem?_replicate]

/-- Past a character that closes nothing, the pairs that close before the position are the same. -/
theorem partner_succ (h : Scanned text position stack partners)
    (hclose : text[position]? ≠ some ']') (i : ℕ) (other : ℤ) :
    partners[i]? = some (some other) ↔ ∃ j : ℕ, other = j ∧
      (Pairs text i j ∧ j < position + 1 ∨ Pairs text j i ∧ i < position + 1) := by
  have hlast {opening closing : ℕ} (hpair : Pairs text opening closing) :
      closing < position ↔ closing < position + 1 := by
    have hne : closing ≠ position := by
      rintro rfl
      exact hclose hpair.closes
    omega
  rw [h.partner]
  constructor
  · rintro ⟨j, rfl, ⟨hpair, hlt⟩ | ⟨hpair, hlt⟩⟩
    · exact ⟨j, rfl, .inl ⟨hpair, (hlast hpair).mp hlt⟩⟩
    · exact ⟨j, rfl, .inr ⟨hpair, (hlast hpair).mp hlt⟩⟩
  · rintro ⟨j, rfl, ⟨hpair, hlt⟩ | ⟨hpair, hlt⟩⟩
    · exact ⟨j, rfl, .inl ⟨hpair, (hlast hpair).mpr hlt⟩⟩
    · exact ⟨j, rfl, .inr ⟨hpair, (hlast hpair).mpr hlt⟩⟩

/-- A closing bracket other than the current one was met before. -/
theorem closing_succ (h : Scanned text position stack partners)
    (hcurrent : text[position]? = some ']' → ∃ start, Pairs text start position) :
    ∀ finish < position + 1, text[finish]? = some ']' → ∃ start, Pairs text start finish := by
  intro finish hlt hfinish
  rcases Nat.lt_succ_iff_lt_or_eq.mp hlt with hbefore | rfl
  · exact h.closing finish hbefore hfinish
  · exact hcurrent hfinish

/-- An opening bracket is put on the stack. -/
theorem push (h : Scanned text position stack partners) (hopen : text[position]? = some '[') :
    Scanned text (position + 1) (position :: stack) partners where
  size_eq := h.size_eq
  opens := ⟨hopen, Level.refl text _, h.opens⟩
  opening := by
    intro start hlt hstart
    rcases Nat.lt_succ_iff_lt_or_eq.mp hlt with hbefore | rfl
    · rcases h.opening start hbefore hstart with hmem | ⟨finish, hfinish, hpair⟩
      · exact .inl (List.mem_cons_of_mem _ hmem)
      · exact .inr ⟨finish, Nat.lt_succ_of_lt hfinish, hpair⟩
    · exact .inl List.mem_cons_self
  closing := h.closing_succ (by rw [hopen]; intro hclose; simp at hclose)
  partner := h.partner_succ (by rw [hopen]; simp)

/-- A character that is no bracket changes nothing. -/
theorem skip {c : Char} (h : Scanned text position stack partners) (hc : text[position]? = some c)
    (hopen : c ≠ '[') (hclose : c ≠ ']') : Scanned text (position + 1) stack partners where
  size_eq := h.size_eq
  opens := h.opens.extend (Level.other hc hopen hclose)
  opening := by
    intro start hlt hstart
    rcases Nat.lt_succ_iff_lt_or_eq.mp hlt with hbefore | rfl
    · rcases h.opening start hbefore hstart with hmem | ⟨finish, hfinish, hpair⟩
      · exact .inl hmem
      · exact .inr ⟨finish, Nat.lt_succ_of_lt hfinish, hpair⟩
    · rw [hc] at hstart
      exact absurd (Option.some.inj hstart) hopen
  closing := h.closing_succ (by
    intro hcurrent
    rw [hc] at hcurrent
    exact absurd (Option.some.inj hcurrent) hclose)
  partner := h.partner_succ (by
    rw [hc]
    intro hcurrent
    exact hclose (Option.some.inj hcurrent))

/-- The innermost open bracket belongs to the closing bracket at the current position. -/
theorem pairs_top (h : Scanned text position (start :: stack) partners)
    (hclose : text[position]? = some ']') : Pairs text start position :=
  ⟨h.opens.1, hclose, h.opens.2.1⟩

/-- The pairs that close at or before a position are those before it and the one it closes. -/
theorem partner_pop (h : Scanned text position (start :: stack) partners)
    (hclose : text[position]? = some ']') (i : ℕ) (other : ℤ) :
    ((partners.setIfInBounds start (some (position : ℤ))).setIfInBounds position
        (some (start : ℤ)))[i]? = some (some other) ↔
      ∃ j : ℕ, other = j ∧
        (Pairs text i j ∧ j < position + 1 ∨ Pairs text j i ∧ i < position + 1) := by
  have hpair := h.pairs_top hclose
  have hsize : position < partners.size := h.size_eq ▸ hpair.closing_lt_length
  have hlt := hpair.lt
  simp only [Array.getElem?_setIfInBounds, Array.size_setIfInBounds]
  by_cases hposition : position = i
  · subst hposition
    rw [if_pos rfl, if_pos hsize]
    constructor
    · intro heq
      exact ⟨start, (Option.some.inj (Option.some.inj heq)).symm, .inr ⟨hpair, by omega⟩⟩
    · rintro ⟨j, rfl, ⟨hother, -⟩ | ⟨hother, -⟩⟩
      · have hopens := hother.opens
        rw [hclose] at hopens
        simp at hopens
      · rw [hpair.opening_unique hother]
  · rw [if_neg hposition]
    by_cases hstart : start = i
    · subst hstart
      rw [if_pos rfl, if_pos (by omega)]
      constructor
      · intro heq
        exact ⟨position, (Option.some.inj (Option.some.inj heq)).symm, .inl ⟨hpair, by omega⟩⟩
      · rintro ⟨j, rfl, ⟨hother, -⟩ | ⟨hother, -⟩⟩
        · rw [hpair.closing_unique hother]
        · have hcloses := hother.closes
          rw [hpair.opens] at hcloses
          simp at hcloses
    · rw [if_neg hstart, h.partner]
      constructor
      · rintro ⟨j, rfl, ⟨hother, hbefore⟩ | ⟨hother, hbefore⟩⟩
        · exact ⟨j, rfl, .inl ⟨hother, by omega⟩⟩
        · exact ⟨j, rfl, .inr ⟨hother, by omega⟩⟩
      · rintro ⟨j, rfl, ⟨hother, hbefore⟩ | ⟨hother, hbefore⟩⟩
        · have hne : j ≠ position := by
            rintro rfl
            exact hstart (hpair.opening_unique hother)
          exact ⟨j, rfl, .inl ⟨hother, by omega⟩⟩
        · exact ⟨j, rfl, .inr ⟨hother, by omega⟩⟩

/-- A closing bracket takes its partner off the stack. -/
theorem pop (h : Scanned text position (start :: stack) partners)
    (hclose : text[position]? = some ']') :
    Scanned text (position + 1) stack
      ((partners.setIfInBounds start (some (position : ℤ))).setIfInBounds position
        (some (start : ℤ))) where
  size_eq := by simp only [Array.size_setIfInBounds, h.size_eq]
  opens := h.opens.2.2.extend (Level.enclose h.opens.1 h.opens.2.1 hclose)
  opening := by
    intro other hlt hother
    rcases Nat.lt_succ_iff_lt_or_eq.mp hlt with hbefore | rfl
    · rcases h.opening other hbefore hother with hmem | ⟨finish, hfinish, hpair⟩
      · rcases List.mem_cons.mp hmem with rfl | hmem
        · exact .inr ⟨position, Nat.lt_succ_self position, h.pairs_top hclose⟩
        · exact .inl hmem
      · exact .inr ⟨finish, Nat.lt_succ_of_lt hfinish, hpair⟩
    · rw [hclose] at hother
      simp at hother
  closing := h.closing_succ fun _ ↦ ⟨start, h.pairs_top hclose⟩
  partner := h.partner_pop hclose

end Scanned

/-- How a scan can end: with every bracket paired, at a closing bracket that nothing opens, or with
brackets left open at the end of the text. -/
theorem scan_cases {text rest : List Char} {position : ℕ} {stack : List ℕ}
    {partners : Array (Option ℤ)} (hrest : text.drop position = rest)
    (h : Scanned text position stack partners) (hle : position ≤ text.length) :
    (∃ final, BracketIndex.scan position stack partners rest = .ok final ∧
      Scanned text text.length [] final) ∨
    (∃ finish : ℕ, BracketIndex.scan position stack partners rest =
        .error (.unmatchedClose finish) ∧
      text[finish]? = some ']' ∧ Level text 0 finish) ∨
    (∃ left final, BracketIndex.scan position stack partners rest =
        .error (.unclosedOpens (left.reverse.map Int.ofNat)) ∧
      left ≠ [] ∧ Scanned text text.length left final) := by
  induction rest generalizing position stack partners with
  | nil =>
    have hend : position = text.length := by
      have := List.drop_eq_nil_iff.mp hrest
      omega
    subst hend
    cases stack with
    | nil => exact .inl ⟨partners, rfl, h⟩
    | cons start stack => exact .inr (.inr ⟨start :: stack, partners, rfl, by simp, h⟩)
  | cons c rest ih =>
    have hc : text[position]? = some c := by
      have hhead := congrArg List.head? hrest
      rwa [List.head?_drop, List.head?_cons] at hhead
    have hnext : text.drop (position + 1) = rest := by
      rw [← List.tail_drop, hrest, List.tail_cons]
    have hlt : position + 1 ≤ text.length := (List.getElem?_eq_some_iff.mp hc).1
    simp only [BracketIndex.scan]
    split_ifs with hopen hclose
    · subst hopen
      exact ih hnext (h.push hc) hlt
    · subst hclose
      cases stack with
      | nil => exact .inr (.inl ⟨position, rfl, hc, h.opens⟩)
      | cons start stack => exact ih hnext (h.pop hc) hlt
    · exact ih hnext (h.skip hc hopen hclose) hlt

/-! ### The index of a program -/

/-- How the pairing of a program's brackets can end. -/
theorem build_cases (program : Program) :
    (∃ index, BracketIndex.build program = .ok index ∧
      Scanned program.chars.toList program.chars.toList.length [] index.partners) ∨
    (∃ finish : ℕ, BracketIndex.build program = .error (.unmatchedClose finish) ∧
      program.chars.toList[finish]? = some ']' ∧ Level program.chars.toList 0 finish) ∨
    (∃ left partners, BracketIndex.build program =
        .error (.unclosedOpens (left.reverse.map Int.ofNat)) ∧
      left ≠ [] ∧ Scanned program.chars.toList program.chars.toList.length left partners) := by
  have hscan := scan_cases (List.drop_zero (l := program.chars.toList))
    (Scanned.initial program.chars.toList) (Nat.zero_le _)
  rw [Array.length_toList] at hscan
  unfold BracketIndex.build Program.size
  rcases hscan with ⟨final, heq, h⟩ | ⟨finish, heq, h⟩ | ⟨left, final, heq, h⟩
  · exact .inl ⟨⟨final⟩, by rw [heq]; rfl, h⟩
  · exact .inr (.inl ⟨finish, by rw [heq]; rfl, h⟩)
  · exact .inr (.inr ⟨left, final, by rw [heq]; rfl, h⟩)

/-- What the scan has found when it accepts a program. -/
theorem scanned_of_build {program : Program} {index : BracketIndex}
    (h : BracketIndex.build program = .ok index) :
    Scanned program.chars.toList program.chars.toList.length [] index.partners := by
  rcases build_cases program with ⟨other, heq, hscanned⟩ | ⟨_, heq, _⟩ | ⟨_, _, heq, _⟩
  · rw [heq] at h
    cases h
    exact hscanned
  · rw [heq] at h
    cases h
  · rw [heq] at h
    cases h

theorem build_isOk_iff_balanced (program : Program) :
    (∃ index, BracketIndex.build program = .ok index) ↔ Balanced program.chars.toList := by
  constructor
  · rintro ⟨index, h⟩
    exact balanced_iff_level.mpr (scanned_of_build h).opens
  · intro hbalanced
    have hlevel := balanced_iff_level.mp hbalanced
    rcases build_cases program with ⟨index, heq, _⟩ | ⟨finish, _, hclose, hfinish⟩ |
      ⟨left, _, _, hleft, hscanned⟩
    · exact ⟨index, heq⟩
    · have hlt := (List.getElem?_eq_some_iff.mp hclose).1
      have habove := hlevel.above (finish + 1) (Nat.zero_le _) hlt
      have hdown := height_succ_close hclose
      have hback := hfinish.back
      omega
    · have hheight := hscanned.opens.height_eq
      have hpos := List.length_pos_iff.mpr hleft
      have hback := hlevel.back
      rw [height_zero] at hback
      omega

section Built

variable {program : Program} {index : BracketIndex}

/-- An entry of the index names a partner exactly if the two positions form a pair. -/
theorem partners_eq_some_iff (h : BracketIndex.build program = .ok index) (i : ℕ) (other : ℤ) :
    index.partners[i]? = some (some other) ↔
      ∃ j : ℕ, other = j ∧ (Pairs program.chars.toList i j ∨ Pairs program.chars.toList j i) := by
  rw [(scanned_of_build h).partner]
  constructor
  · rintro ⟨j, rfl, ⟨hpair, -⟩ | ⟨hpair, -⟩⟩
    · exact ⟨j, rfl, .inl hpair⟩
    · exact ⟨j, rfl, .inr hpair⟩
  · rintro ⟨j, rfl, hpair | hpair⟩
    · exact ⟨j, rfl, .inl ⟨hpair, hpair.closing_lt_length⟩⟩
    · exact ⟨j, rfl, .inr ⟨hpair, hpair.closing_lt_length⟩⟩

theorem exists_closing (h : BracketIndex.build program = .ok index) {i : ℕ}
    (hopen : program.chars.toList[i]? = some '[') : ∃ j, Pairs program.chars.toList i j := by
  have hlt := (List.getElem?_eq_some_iff.mp hopen).1
  rcases (scanned_of_build h).opening i hlt hopen with hmem | ⟨j, -, hpair⟩
  · cases hmem
  · exact ⟨j, hpair⟩

theorem exists_opening (h : BracketIndex.build program = .ok index) {j : ℕ}
    (hclose : program.chars.toList[j]? = some ']') : ∃ i, Pairs program.chars.toList i j :=
  (scanned_of_build h).closing j (List.getElem?_eq_some_iff.mp hclose).1 hclose

theorem partners_opening (h : BracketIndex.build program = .ok index) {i j : ℕ}
    (hpair : Pairs program.chars.toList i j) : index.partners[i]? = some (some (j : ℤ)) :=
  (partners_eq_some_iff h i j).mpr ⟨j, rfl, .inl hpair⟩

theorem partners_closing (h : BracketIndex.build program = .ok index) {i j : ℕ}
    (hpair : Pairs program.chars.toList i j) : index.partners[j]? = some (some (i : ℤ)) :=
  (partners_eq_some_iff h j i).mpr ⟨i, rfl, .inr hpair⟩

theorem partner?_opening (h : BracketIndex.build program = .ok index) {i j : ℕ}
    (hpair : Pairs program.chars.toList i j) : index.partner? i = some (j : ℤ) := by
  unfold BracketIndex.partner?
  rw [if_neg (by omega), Int.toNat_natCast, partners_opening h hpair]
  rfl

theorem partner?_closing (h : BracketIndex.build program = .ok index) {i j : ℕ}
    (hpair : Pairs program.chars.toList i j) : index.partner? j = some (i : ℤ) := by
  unfold BracketIndex.partner?
  rw [if_neg (by omega), Int.toNat_natCast, partners_closing h hpair]
  rfl

theorem partners_other (h : BracketIndex.build program = .ok index) {i : ℕ} {c : Char}
    (hc : program.chars.toList[i]? = some c) (hopen : c ≠ '[') (hclose : c ≠ ']') :
    index.partners[i]? = some none := by
  have hlt : i < index.partners.size := by
    rw [(scanned_of_build h).size_eq]
    exact (List.getElem?_eq_some_iff.mp hc).1
  rw [Array.getElem?_eq_getElem hlt]
  cases hentry : index.partners[i] with
  | none => rfl
  | some other =>
    have hsome : index.partners[i]? = some (some other) := by
      rw [Array.getElem?_eq_getElem hlt, hentry]
    obtain ⟨j, -, hpair | hpair⟩ := (partners_eq_some_iff h i other).mp hsome
    · have hopens := hpair.opens
      rw [hc] at hopens
      exact absurd (Option.some.inj hopens) hopen
    · have hcloses := hpair.closes
      rw [hc] at hcloses
      exact absurd (Option.some.inj hcloses) hclose

end Built

/-! ### The one correct matching -/

/-- The numbers match the brackets of the text: there is one number for each character, the number
of a missing partner stands exactly where the text has no bracket, each opening bracket and a later
closing one hold each other's positions, and the text between two partners is balanced. -/
structure IsMatching (text : List Char) (partners : List ℤ) : Prop where
  length_eq : partners.length = text.length
  noPartner_iff : ∀ (i : ℕ) (c : Char), text[i]? = some c →
    (partners[i]? = some BracketIndex.noPartner ↔ c ≠ '[' ∧ c ≠ ']')
  opening : ∀ i : ℕ, text[i]? = some '[' → ∃ j : ℕ, i < j ∧ text[j]? = some ']' ∧
    partners[i]? = some (j : ℤ) ∧ partners[j]? = some (i : ℤ)
  between : ∀ i j : ℕ, i < j → partners[i]? = some (j : ℤ) →
    Balanced ((text.take j).drop (i + 1))

/-- Partners of a matching are pairs. -/
theorem IsMatching.exists_pairs {text : List Char} {partners : List ℤ}
    (h : IsMatching text partners) {i : ℕ} (hopen : text[i]? = some '[') :
    ∃ j : ℕ, Pairs text i j ∧ partners[i]? = some (j : ℤ) ∧ partners[j]? = some (i : ℤ) := by
  obtain ⟨j, hlt, hclose, hi, hj⟩ := h.opening i hopen
  have hlength := (List.getElem?_eq_some_iff.mp hclose).1
  have hlevel := (balanced_between_iff hlt (Nat.le_of_lt hlength)).mp (h.between i j hlt hi)
  exact ⟨j, ⟨hopen, hclose, hlevel⟩, hi, hj⟩

theorem toCodes_getElem? (index : BracketIndex) (i : ℕ) :
    index.toCodes[i]? = index.partners[i]?.map fun partner ↦
      partner.getD BracketIndex.noPartner := by
  unfold BracketIndex.toCodes
  rw [List.getElem?_map, Array.getElem?_toList]

/-- A number of the index is the number of a missing partner, or it is the position of the other
member of a pair. -/
theorem toCodes_cases {program : Program} {index : BracketIndex}
    (h : BracketIndex.build program = .ok index) {i : ℕ} {code : ℤ}
    (hcode : index.toCodes[i]? = some code) (hpartner : code ≠ BracketIndex.noPartner) :
    ∃ j : ℕ, code = j ∧
      (Pairs program.chars.toList i j ∨ Pairs program.chars.toList j i) := by
  rw [toCodes_getElem?, Option.map_eq_some_iff] at hcode
  obtain ⟨entry, hentry, hvalue⟩ := hcode
  cases entry with
  | none => exact absurd hvalue.symm hpartner
  | some other =>
    rw [Option.getD_some] at hvalue
    subst hvalue
    exact (partners_eq_some_iff h i other).mp hentry

/-- The numbers of an index that was built are a matching. -/
theorem isMatching_toCodes {program : Program} {index : BracketIndex}
    (h : BracketIndex.build program = .ok index) :
    IsMatching program.chars.toList index.toCodes where
  length_eq := by
    unfold BracketIndex.toCodes
    rw [List.length_map, Array.length_toList, (scanned_of_build h).size_eq]
  noPartner_iff := by
    intro i c hc
    constructor
    · intro hcode
      constructor
      · rintro rfl
        obtain ⟨j, hpair⟩ := exists_closing h hc
        rw [toCodes_getElem?, partners_opening h hpair] at hcode
        simp [BracketIndex.noPartner] at hcode
      · rintro rfl
        obtain ⟨j, hpair⟩ := exists_opening h hc
        rw [toCodes_getElem?, partners_closing h hpair] at hcode
        simp [BracketIndex.noPartner] at hcode
    · rintro ⟨hopen, hclose⟩
      rw [toCodes_getElem?, partners_other h hc hopen hclose]
      rfl
  opening := by
    intro i hopen
    obtain ⟨j, hpair⟩ := exists_closing h hopen
    refine ⟨j, hpair.lt, hpair.closes, ?_, ?_⟩
    · rw [toCodes_getElem?, partners_opening h hpair]
      rfl
    · rw [toCodes_getElem?, partners_closing h hpair]
      rfl
  between := by
    intro i j hlt hcode
    have hpartner : (j : ℤ) ≠ BracketIndex.noPartner := by
      unfold BracketIndex.noPartner
      omega
    obtain ⟨k, hk, hpair | hpair⟩ := toCodes_cases h hcode hpartner
    · obtain rfl : j = k := by omega
      exact (balanced_between_iff hlt (Nat.le_of_lt hpair.closing_lt_length)).mpr hpair.level
    · have := hpair.lt
      omega

/-- An accepted text has one matching, and the index holds it. -/
theorem eq_toCodes_of_isMatching {program : Program} {index : BracketIndex}
    (h : BracketIndex.build program = .ok index) {codes : List ℤ}
    (hcodes : IsMatching program.chars.toList codes) : codes = index.toCodes := by
  have hmatching := isMatching_toCodes h
  apply List.ext_getElem?
  intro i
  cases hc : program.chars.toList[i]? with
  | none =>
    have hlength := List.getElem?_eq_none_iff.mp hc
    rw [List.getElem?_eq_none_iff.mpr (hcodes.length_eq ▸ hlength),
      List.getElem?_eq_none_iff.mpr (hmatching.length_eq ▸ hlength)]
  | some c =>
    by_cases hopen : c = '['
    · subst hopen
      obtain ⟨j, hpair, hfirst, -⟩ := hcodes.exists_pairs hc
      obtain ⟨k, hother, hsecond, -⟩ := hmatching.exists_pairs hc
      rw [hfirst, hsecond, hpair.closing_unique hother]
    · by_cases hclose : c = ']'
      · subst hclose
        obtain ⟨start, hpair⟩ := exists_opening h hc
        obtain ⟨j, hfirst, -, hj⟩ := hcodes.exists_pairs hpair.opens
        obtain ⟨k, hsecond, -, hk⟩ := hmatching.exists_pairs hpair.opens
        rw [hfirst.closing_unique hpair] at hj
        rw [hsecond.closing_unique hpair] at hk
        rw [hj, hk]
      · rw [(hcodes.noPartner_iff i c hc).mpr ⟨hopen, hclose⟩,
          (hmatching.noPartner_iff i c hc).mpr ⟨hopen, hclose⟩]

/-- The scan accepts exactly the balanced texts. The index of an accepted text is a matching, each
partner's partner is the position itself and no position is its own partner, pairs do not cross,
and no other numbers match the text. -/
theorem build_finds_the_matching (program : Program) :
    ((∃ index, BracketIndex.build program = .ok index) ↔ Balanced program.chars.toList) ∧
    ∀ index, BracketIndex.build program = .ok index →
      IsMatching program.chars.toList index.toCodes ∧
      (∀ (i : ℕ) (code : ℤ), index.toCodes[i]? = some code → code ≠ BracketIndex.noPartner →
        ∃ j : ℕ, code = j ∧ j ≠ i ∧ index.toCodes[j]? = some (i : ℤ)) ∧
      (∀ i j k l : ℕ, index.toCodes[i]? = some (j : ℤ) → index.toCodes[k]? = some (l : ℤ) →
        i < k → k < j → i < l ∧ l < j) ∧
      ∀ codes, IsMatching program.chars.toList codes → codes = index.toCodes := by
  refine ⟨build_isOk_iff_balanced program, ?_⟩
  intro index h
  have hmatching := isMatching_toCodes h
  refine ⟨hmatching, ?_, ?_, fun codes hcodes ↦ eq_toCodes_of_isMatching h hcodes⟩
  · intro i code hcode hpartner
    obtain ⟨j, rfl, hpair | hpair⟩ := toCodes_cases h hcode hpartner
    · refine ⟨j, rfl, Nat.ne_of_gt hpair.lt, ?_⟩
      rw [toCodes_getElem?, partners_closing h hpair]
      rfl
    · refine ⟨j, rfl, Nat.ne_of_lt hpair.lt, ?_⟩
      rw [toCodes_getElem?, partners_opening h hpair]
      rfl
  · intro i j k l hi hk hik hkj
    have hpartner (n : ℕ) : (n : ℤ) ≠ BracketIndex.noPartner := by
      unfold BracketIndex.noPartner
      omega
    obtain ⟨j', hj, houter | houter⟩ := toCodes_cases h hi (hpartner j)
    · obtain rfl : j = j' := by omega
      obtain ⟨l', hl, hinner | hinner⟩ := toCodes_cases h hk (hpartner l)
      · obtain rfl : l = l' := by omega
        exact ⟨hik.trans hinner.lt, houter.nested hinner hik hkj⟩
      · obtain rfl : l = l' := by omega
        refine ⟨?_, hinner.lt.trans hkj⟩
        exact houter.opening_lt hinner hik hkj
    · have := houter.lt
      omega

/-- The text `[a[]]` is accepted, and its matching is the one of the theorem. -/
theorem build_finds_the_matching_nested :
    Balanced "[a[]]".toList ∧
    ∃ index, BracketIndex.build (Program.ofText "[a[]]") = .ok index ∧
      index.toCodes = [4, -1, 3, 2, 0] ∧ IsMatching "[a[]]".toList index.toCodes := by
  refine ⟨by decide, ⟨#[some 4, none, some 3, some 2, some 0]⟩, by decide, by decide, ?_⟩
  exact ((build_finds_the_matching (Program.ofText "[a[]]")).2 _ (by decide)).1

end TapeMachine.Matching
