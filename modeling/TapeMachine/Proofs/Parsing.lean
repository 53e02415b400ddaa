import TapeMachine.Proofs.Matching

/-!
Programs as trees. A block is a sequence of single characters and of loops around further blocks,
and every node carries its position in the text (`Block`). A stretch of text is read as a block by
the grammar of `Block.Covers`: characters that are no brackets stand for themselves, and a loop is
an opening bracket, a block and a closing bracket.

What a block covers is level, and in an accepted text every level stretch is covered by exactly one
block (`Block.Covers.level`, `Block.exists_covers`, `Block.Covers.unique`). So an accepted text can
be read as a tree, and in one way only (`existsUnique_block`).
-/

set_option autoImplicit false
set_option relaxedAutoImplicit false

namespace TapeMachine

open Matching

/-- A sequence of characters and loops, each with its position in the text. -/
inductive Block where
  | empty
  | char (position : ℕ) (c : Char) (rest : Block)
  | loop (position : ℕ) (body rest : Block)
  deriving DecidableEq, Repr

namespace Block

/-- The block is what the text says from position `first` up to position `last`. -/
inductive Covers (text : List Char) : Block → ℕ → ℕ → Prop
  | empty (position : ℕ) : Covers text .empty position position
  | char {position last : ℕ} {c : Char} {rest : Block} (hc : text[position]? = some c)
      (hopen : c ≠ '[') (hclose : c ≠ ']') (hrest : Covers text rest (position + 1) last) :
      Covers text (.char position c rest) position last
  | loop {position closing last : ℕ} {body rest : Block} (hopen : text[position]? = some '[')
      (hbody : Covers text body (position + 1) closing) (hclose : text[closing]? = some ']')
      (hrest : Covers text rest (closing + 1) last) :
      Covers text (.loop position body rest) position last

variable {text : List Char} {block other : Block} {first last : ℕ}

/-- What a block covers is level. -/
theorem Covers.level (h : block.Covers text first last) : Level text first last := by
  induction h with
  | empty position => exact .refl text position
  | char hc hopen hclose _ ih => exact (Level.other hc hopen hclose).trans ih
  | loop hopen _ hclose _ ihBody ih => exact (Level.enclose hopen ihBody hclose).trans ih

/-- The brackets around the body of a loop belong together. -/
theorem Covers.pairs {position closing : ℕ} (h : block.Covers text (position + 1) closing)
    (hopen : text[position]? = some '[') (hclose : text[closing]? = some ']') :
    Pairs text position closing := ⟨hopen, hclose, h.level⟩

/-- A stretch of text can be read as one block only. -/
theorem Covers.unique (h : block.Covers text first last) (hother : other.Covers text first last) :
    block = other := by
  induction h generalizing other with
  | empty position =>
    cases hother with
    | empty => rfl
    | char _ _ _ hrest =>
      have hle := hrest.level.le
      omega
    | loop _ hbody _ hrest =>
      have hle := hrest.level.le
      have hinner := hbody.level.le
      omega
  | char hc hopen hclose hrest ih =>
    cases hother with
    | empty =>
      have hle := hrest.level.le
      omega
    | char hcOther _ _ hrestOther =>
      rw [hc] at hcOther
      cases hcOther
      rw [ih hrestOther]
    | loop hopenOther =>
      rw [hc] at hopenOther
      cases hopenOther
      exact absurd rfl hopen
  | loop hopen hbody hclose hrest ihBody ih =>
    cases hother with
    | empty =>
      have hle := hrest.level.le
      have hinner := hbody.level.le
      omega
    | char hcOther hopenOther =>
      rw [hopen] at hcOther
      cases hcOther
      exact absurd rfl hopenOther
    | loop _ hbodyOther hcloseOther hrestOther =>
      -- Both bodies end at the partner of the same bracket.
      obtain rfl := (hbody.pairs hopen hclose).closing_unique (hbodyOther.pairs hopen hcloseOther)
      rw [ihBody hbodyOther, ih hrestOther]

/-- Every level stretch of an accepted text can be read as a block. -/
theorem exists_covers {program : Program} {index : BracketIndex}
    (hbuild : BracketIndex.build program = .ok index)
    (h : Level program.chars.toList first last) (hlast : last ≤ program.chars.toList.length) :
    ∃ block : Block, block.Covers program.chars.toList first last := by
  -- Each character and each loop leaves a shorter stretch behind, which is level again.
  induction hlength : last - first using Nat.strong_induction_on generalizing first last with
  | _ length ih =>
    rcases Nat.eq_or_lt_of_le h.le with rfl | hlt
    · exact ⟨.empty, .empty first⟩
    · have hc := List.getElem?_eq_getElem (Nat.lt_of_lt_of_le hlt hlast)
      generalize program.chars.toList[first] = c at hc
      by_cases hopen : c = '['
      · subst hopen
        obtain ⟨closing, hpair⟩ := exists_closing hbuild hc
        have hbefore := hpair.closing_lt h hlt
        have hafter := hpair.lt
        obtain ⟨body, hbody⟩ := ih (closing - (first + 1)) (by omega) hpair.level (by omega) rfl
        have hrestLevel := h.rest (.enclose hc hpair.level hpair.closes) hbefore
        obtain ⟨rest, hrest⟩ := ih (last - (closing + 1)) (by omega) hrestLevel hlast rfl
        exact ⟨.loop first body rest, .loop hc hbody hpair.closes hrest⟩
      · have hclose : c ≠ ']' := h.ne_close hc hlt
        have hrestLevel := h.rest (.other hc hopen hclose) hlt
        obtain ⟨rest, hrest⟩ := ih (last - (first + 1)) (by omega) hrestLevel hlast rfl
        exact ⟨.char first c rest, .char hc hopen hclose hrest⟩

end Block

/-- An accepted text can be read as a tree in exactly one way. -/
theorem existsUnique_block {program : Program} {index : BracketIndex}
    (hbuild : BracketIndex.build program = .ok index) :
    ∃! block : Block, block.Covers program.chars.toList 0 program.size := by
  have hsize : program.size = program.chars.toList.length := Array.length_toList.symm
  have hlevel : Level program.chars.toList 0 program.chars.toList.length :=
    (scanned_of_build hbuild).opens
  rw [hsize]
  obtain ⟨block, hblock⟩ := Block.exists_covers hbuild hlevel (Nat.le_refl _)
  exact ⟨block, hblock, fun other hother ↦ hother.unique hblock⟩

end TapeMachine
