import TapeMachine.Proofs.Matching
import Mathlib.Data.List.Nodup

/-!
An index says the same in all its ways. It can be asked for the partner of a position, for a partner
that has to be there, or only whether there is one; it can list its pairs and count them. Of an
index that the scan has built, the list of pairs holds each opening bracket with its partner, in the
order of the text (`mem_pairs_iff`, `pairwise_pairs`), and no position is in it twice
(`nodup_members`).
All other answers can be read off that list: the partner of a position is the other member of the
pair that it is in (`findSome?_pairs`), and so the list and the length of the text give back the
whole index (`ofPairs_pairs`).

Both counts go over the entries of the index and are compared with counts over the characters of the
text. What a character has to do with its entry is said once, in `entry_cases`.
-/

set_option autoImplicit false
set_option relaxedAutoImplicit false

namespace TapeMachine

/-! ### Lists of pairs -/

namespace BracketIndex

/-- The other member of a pair, seen from a position. -/
def other? (position : ℤ) (pair : ℕ × ℤ) : Option ℤ :=
  if position = pair.1 then some pair.2
  else if position = pair.2 then some (pair.1 : ℤ)
  else none

/-- All positions in a list of pairs, as often as they occur there. -/
def members (pairs : List (ℕ × ℤ)) : List ℤ :=
  pairs.flatMap fun pair ↦ [(pair.1 : ℤ), pair.2]

/-- The index of a text of the given size that has the given pairs. -/
def ofPairs (size : ℕ) (pairs : List (ℕ × ℤ)) : BracketIndex :=
  ⟨Array.ofFn fun position : Fin size ↦ pairs.findSome? (other? position)⟩

theorem other?_eq_none_iff {position : ℤ} {pair : ℕ × ℤ} :
    other? position pair = none ↔ position ≠ pair.1 ∧ position ≠ pair.2 := by
  unfold other?
  split_ifs with hfirst hsecond
  · simp [hfirst]
  · simp [hsecond]
  · simp [hfirst, hsecond]

theorem mem_pairs {index : BracketIndex} {first : ℕ} {second : ℤ} :
    (first, second) ∈ index.pairs ↔
      index.partners[first]? = some (some second) ∧ (first : ℤ) < second := by
  unfold pairs
  simp only [List.mem_filterMap, Prod.exists, List.mk_mem_zipIdx_iff_getElem?,
    Array.getElem?_toList]
  constructor
  · rintro ⟨entry, position, hentry, hpair⟩
    cases entry with
    | none => cases hpair
    | some other =>
      dsimp only at hpair
      split_ifs at hpair with hlt
      cases hpair
      exact ⟨hentry, hlt⟩
  · rintro ⟨hentry, hlt⟩
    exact ⟨some second, first, hentry, if_pos hlt⟩

/-- The pairs are listed by their first positions. -/
theorem pairwise_pairs (index : BracketIndex) : index.pairs.Pairwise fun a b ↦ a.1 < b.1 := by
  have hplaces : index.partners.toList.zipIdx.Pairwise fun a b ↦ a.2 < b.2 := by
    rw [← List.pairwise_map (f := Prod.snd), List.zipIdx_map_snd]
    exact List.pairwise_lt_range'
  refine hplaces.filterMap _ ?_
  rintro ⟨entry, position⟩ ⟨other, place⟩ hlt a ha b hb
  cases entry with
  | none => cases ha
  | some partner =>
    cases other with
    | none => cases hb
    | some second =>
      dsimp only at ha hb
      split_ifs at ha hb
      cases ha
      cases hb
      exact hlt

end BracketIndex

namespace Matching

open BracketIndex

section Built

variable {program : Program} {index : BracketIndex}

/-! ### The pairs of a text -/

/-- The pairs that are listed are the pairs of the text. -/
theorem mem_pairs_iff (h : BracketIndex.build program = .ok index) {opening : ℕ} {other : ℤ} :
    (opening, other) ∈ index.pairs ↔
      ∃ closing : ℕ, other = closing ∧ Pairs program.chars.toList opening closing := by
  rw [mem_pairs, partners_eq_some_iff h]
  constructor
  · rintro ⟨⟨closing, rfl, hpair | hpair⟩, hlt⟩
    · exact ⟨closing, rfl, hpair⟩
    · have := hpair.lt
      omega
  · rintro ⟨closing, rfl, hpair⟩
    exact ⟨⟨closing, rfl, .inl hpair⟩, Int.ofNat_lt.mpr hpair.lt⟩

/-- The members of a pair are partners of each other, and there are no other partners. -/
theorem partner?_eq_some_iff_mem (h : BracketIndex.build program = .ok index)
    {position other : ℤ} :
    index.partner? position = some other ↔
      ∃ pair ∈ index.pairs, other? position pair = some other := by
  constructor
  · intro hpartner
    unfold BracketIndex.partner? at hpartner
    split_ifs at hpartner with hneg
    obtain ⟨place, rfl⟩ := Int.eq_ofNat_of_zero_le (Int.not_lt.mp hneg)
    rw [Int.toNat_natCast, Option.join_eq_some_iff, partners_eq_some_iff h] at hpartner
    obtain ⟨partner, rfl, hpair | hpair⟩ := hpartner
    · exact ⟨(place, partner), (mem_pairs_iff h).mpr ⟨partner, rfl, hpair⟩, if_pos rfl⟩
    · refine ⟨(partner, place), (mem_pairs_iff h).mpr ⟨place, rfl, hpair⟩, ?_⟩
      have hne : (place : ℤ) ≠ partner := by
        have := hpair.lt
        omega
      exact (if_neg hne).trans (if_pos rfl)
  · rintro ⟨⟨opening, second⟩, hmem, hother⟩
    obtain ⟨closing, rfl, hpair⟩ := (mem_pairs_iff h).mp hmem
    unfold other? at hother
    split_ifs at hother with hfirst hsecond
    · cases hother
      exact hfirst ▸ partner?_opening h hpair
    · cases hother
      exact hsecond ▸ partner?_closing h hpair

/-- Every position is in one pair at most, and there only once. -/
theorem nodup_members (h : BracketIndex.build program = .ok index) :
    (members index.pairs).Nodup := by
  have hpairs {pair : ℕ × ℤ} (hmem : pair ∈ index.pairs) :
      ∃ closing : ℕ, pair.2 = closing ∧ Pairs program.chars.toList pair.1 closing :=
    (mem_pairs_iff h).mp hmem
  refine List.nodup_flatMap.mpr ⟨?_, ?_⟩
  · intro pair hmem
    obtain ⟨closing, hsecond, hpair⟩ := hpairs hmem
    have hlt := hpair.lt
    simp only [List.nodup_cons, List.mem_singleton, List.not_mem_nil, not_false_eq_true,
      List.nodup_nil, and_true, hsecond]
    omega
  · refine (pairwise_pairs index).imp_of_mem ?_
    intro first second hfirst hsecond hlt
    obtain ⟨closing, hclosing, hpair⟩ := hpairs hfirst
    obtain ⟨other, hother, hpairOther⟩ := hpairs hsecond
    intro position hmem hmemOther
    simp only [List.mem_cons, List.not_mem_nil, or_false, hclosing, hother] at hmem hmemOther
    -- No position holds an opening and a closing bracket, and no bracket closes two others.
    have hopens (first second : ℕ) (hopen : program.chars.toList[first]? = some '[')
        (hclose : program.chars.toList[second]? = some ']') : first ≠ second := by
      rintro rfl
      rw [hopen] at hclose
      cases hclose
    have hfirstOther := hopens _ _ hpair.opens hpairOther.closes
    have hsecondOther := hopens _ _ hpairOther.opens hpair.closes
    have hclosings : closing ≠ other := by
      rintro rfl
      exact hlt.ne (hpair.opening_unique hpairOther)
    omega

theorem mem_members_of_bracket (h : BracketIndex.build program = .ok index) {position : ℕ}
    (hbracket : program.chars.toList[position]? = some '[' ∨
      program.chars.toList[position]? = some ']') :
    (position : ℤ) ∈ members index.pairs := by
  rcases hbracket with hopen | hclose
  · obtain ⟨closing, hpair⟩ := exists_closing h hopen
    exact List.mem_flatMap.mpr
      ⟨(position, closing), (mem_pairs_iff h).mpr ⟨closing, rfl, hpair⟩, by simp⟩
  · obtain ⟨opening, hpair⟩ := exists_opening h hclose
    exact List.mem_flatMap.mpr
      ⟨(opening, position), (mem_pairs_iff h).mpr ⟨position, rfl, hpair⟩, by simp⟩

/-! ### Lookups -/

/-- The partner of a position is the other member of the pair that it is in. -/
theorem findSome?_pairs (h : BracketIndex.build program = .ok index) (position : ℤ) :
    index.pairs.findSome? (other? position) = index.partner? position := by
  cases hfound : index.pairs.findSome? (other? position) with
  | none =>
    rw [List.findSome?_eq_none_iff] at hfound
    cases hpartner : index.partner? position with
    | none => rfl
    | some other =>
      obtain ⟨pair, hmem, hother⟩ := (partner?_eq_some_iff_mem h).mp hpartner
      rw [hfound pair hmem] at hother
      cases hother
  | some other =>
    obtain ⟨pair, hmem, hother⟩ := List.exists_of_findSome?_eq_some hfound
    exact ((partner?_eq_some_iff_mem h).mpr ⟨pair, hmem, hother⟩).symm

theorem partner?_eq_none_iff (h : BracketIndex.build program = .ok index) {position : ℤ} :
    index.partner? position = none ↔ ∀ pair ∈ index.pairs, other? position pair = none := by
  rw [← findSome?_pairs h, List.findSome?_eq_none_iff]

/-- Beside the text there are no partners. -/
theorem partner?_of_beside (h : BracketIndex.build program = .ok index) {position : ℤ}
    (hbeside : position < 0 ∨ (program.chars.toList.length : ℤ) ≤ position) :
    index.partner? position = none := by
  have hsize := (scanned_of_build h).size_eq
  unfold BracketIndex.partner?
  rcases hbeside with hneg | hend
  · rw [if_pos hneg]
  · rw [if_neg (by omega), Array.getElem?_eq_none (by omega)]
    rfl

/-- The list of pairs and the length of the text give back the index. -/
theorem ofPairs_pairs (h : BracketIndex.build program = .ok index) :
    ofPairs program.chars.toList.length index.pairs = index := by
  have hsize := (scanned_of_build h).size_eq
  have hpartners : (ofPairs program.chars.toList.length index.pairs).partners =
      index.partners := by
    apply Array.ext
    · rw [ofPairs, Array.size_ofFn, hsize]
    · intro i hi hlt
      simp only [ofPairs, Array.getElem_ofFn, findSome?_pairs h]
      unfold BracketIndex.partner?
      rw [if_neg (by omega), Int.toNat_natCast, Array.getElem?_eq_getElem hlt]
      rfl
  cases index
  exact congrArg BracketIndex.mk hpartners

/-! ### Counts -/

/-- What a character has to do with its entry in the index. -/
theorem entry_cases (h : BracketIndex.build program = .ok index) {position : ℕ} {c : Char}
    (hc : program.chars.toList[position]? = some c) :
    (c = '[' ∧ ∃ other : ℕ, position < other ∧
      index.partners[position]? = some (some (other : ℤ))) ∨
    (c = ']' ∧ ∃ other : ℕ, other < position ∧
      index.partners[position]? = some (some (other : ℤ))) ∨
    (c ≠ '[' ∧ c ≠ ']' ∧ index.partners[position]? = some none) := by
  by_cases hopen : c = '['
  · subst hopen
    obtain ⟨closing, hpair⟩ := exists_closing h hc
    exact .inl ⟨rfl, closing, hpair.lt, partners_opening h hpair⟩
  · by_cases hclose : c = ']'
    · subst hclose
      obtain ⟨opening, hpair⟩ := exists_opening h hc
      exact .inr (.inl ⟨rfl, opening, hpair.lt, partners_closing h hpair⟩)
    · exact .inr (.inr ⟨hopen, hclose, partners_other h hc hopen hclose⟩)

end Built

/-- Two lists of the same length have as many entries of two kinds if the kinds agree at each
position. -/
theorem countP_congr_getElem? {α β : Type} {xs : List α} {ys : List β} {p : α → Bool}
    {q : β → Bool} (hlength : xs.length = ys.length)
    (h : ∀ (i : ℕ) x y, xs[i]? = some x → ys[i]? = some y → p x = q y) :
    xs.countP p = ys.countP q := by
  have hmap : xs.map p = ys.map q := by
    apply List.ext_getElem
    · rw [List.length_map, List.length_map, hlength]
    · intro i hx hy
      rw [List.length_map] at hx hy
      rw [List.getElem_map, List.getElem_map]
      exact h i _ _ (List.getElem?_eq_getElem hx) (List.getElem?_eq_getElem hy)
  have hcount := congrArg (List.countP id) hmap
  rwa [List.countP_map, List.countP_map] at hcount

section Built

variable {program : Program} {index : BracketIndex}

/-- There are as many pairs as opening brackets. -/
theorem length_pairs (h : BracketIndex.build program = .ok index) :
    index.pairs.length = program.chars.toList.count '[' := by
  have hsize := (scanned_of_build h).size_eq
  unfold BracketIndex.pairs List.count
  rw [List.length_filterMap_eq_countP]
  apply countP_congr_getElem?
  · rw [List.length_zipIdx, Array.length_toList, hsize]
  · rintro i ⟨entry, position⟩ c hentry hc
    rw [List.getElem?_zipIdx, Option.map_eq_some_iff, Array.getElem?_toList] at hentry
    obtain ⟨found, hfound, hpair⟩ := hentry
    simp only [Prod.mk.injEq, Nat.zero_add] at hpair
    obtain ⟨rfl, rfl⟩ := hpair
    rcases entry_cases h hc with ⟨rfl, other, hlt, hother⟩ | ⟨rfl, other, hlt, hother⟩ |
      ⟨hopen, -, hother⟩
    · obtain rfl := Option.some.inj (hfound.symm.trans hother)
      simp [hlt]
    · obtain rfl := Option.some.inj (hfound.symm.trans hother)
      simp [hlt.le]
    · obtain rfl := Option.some.inj (hfound.symm.trans hother)
      simp [hopen]

theorem countP_bracket (text : List Char) :
    text.countP (fun c ↦ c == '[' || c == ']') = text.count '[' + text.count ']' := by
  induction text with
  | nil => rfl
  | cons c rest ih =>
    rw [List.countP_cons, List.count_cons, List.count_cons, ih]
    by_cases hopen : c = '['
    · subst hopen
      simp
      omega
    · by_cases hclose : c = ']'
      · subst hclose
        simp
        omega
      · simp [hopen, hclose]

/-- Half of the positions with a partner are opening brackets. -/
theorem size_eq_count (h : BracketIndex.build program = .ok index) :
    index.size = program.chars.toList.count '[' := by
  have hsize := (scanned_of_build h).size_eq
  have hbalanced := (build_isOk_iff_balanced program).mp ⟨index, h⟩
  have hcount : index.partners.toList.countP Option.isSome =
      program.chars.toList.countP (fun c ↦ c == '[' || c == ']') := by
    apply countP_congr_getElem?
    · rw [Array.length_toList, hsize]
    · intro i entry c hentry hc
      rw [Array.getElem?_toList] at hentry
      rcases entry_cases h hc with ⟨rfl, other, -, hother⟩ | ⟨rfl, other, -, hother⟩ |
        ⟨hopen, hclose, hother⟩
      · obtain rfl := Option.some.inj (hentry.symm.trans hother)
        rfl
      · obtain rfl := Option.some.inj (hentry.symm.trans hother)
        rfl
      · obtain rfl := Option.some.inj (hentry.symm.trans hother)
        simp [hopen, hclose]
  have hequal := hbalanced.2
  rw [BracketIndex.size, hcount, countP_bracket]
  omega

end Built

/-! ### All answers together -/

/-- The three lookups of an index answer alike: each with the partner if there is one, and otherwise
each in its own way that there is none. -/
def LookupsAgree (index : BracketIndex) (position : ℤ) (partner : Option ℤ) : Prop :=
  index.partner? position = partner ∧
  index.get position = partner.elim (.error (.noPartner position)) .ok ∧
  index.contains (.int position) = .ok partner.isSome

theorem lookupsAgree_partner? (index : BracketIndex) (position : ℤ) :
    LookupsAgree index position (index.partner? position) := by
  refine ⟨rfl, ?_, rfl⟩
  unfold BracketIndex.get
  cases index.partner? position <;> rfl

/-- An index that was built says the same in all its ways. Its pairs are listed by their first
positions, each an opening bracket before a closing one; every bracket of the text is in exactly one
of them, once; and there are as many as the index says, which is the number of opening brackets.
Every lookup, at whatever integer, answers with the other member of the pair that the position is
in, or that there is none, as it is for all positions beside the text. The pairs and the length of
the text give back the index. -/
theorem lookups_and_pairs_agree {program : Program} {index : BracketIndex}
    (h : BracketIndex.build program = .ok index) :
    let text := program.chars.toList
    (index.pairs.map Prod.fst).Pairwise (· < ·) ∧
    (∀ first second, (first, second) ∈ index.pairs →
      text[first]? = some '[' ∧
      ∃ closing : ℕ, second = closing ∧ first < closing ∧ text[closing]? = some ']') ∧
    (∀ position : ℕ, text[position]? = some '[' ∨ text[position]? = some ']' →
      (members index.pairs).count (position : ℤ) = 1) ∧
    index.pairs.length = index.size ∧ index.pairs.length = text.count '[' ∧
    (∀ position : ℤ,
      (∃ other, (∃ pair ∈ index.pairs, other? position pair = some other) ∧
        LookupsAgree index position (some other)) ∨
      ((∀ pair ∈ index.pairs, position ≠ pair.1 ∧ position ≠ pair.2) ∧
        LookupsAgree index position none)) ∧
    (∀ position : ℤ, position < 0 ∨ (text.length : ℤ) ≤ position →
      LookupsAgree index position none) ∧
    ofPairs text.length index.pairs = index := by
  intro text
  refine ⟨List.pairwise_map.mpr (pairwise_pairs index), ?_, ?_, ?_, length_pairs h, ?_, ?_,
    ofPairs_pairs h⟩
  · intro first second hmem
    obtain ⟨closing, rfl, hpair⟩ := (mem_pairs_iff h).mp hmem
    exact ⟨hpair.opens, closing, rfl, hpair.lt, hpair.closes⟩
  · intro position hbracket
    exact List.count_eq_one_of_mem (nodup_members h) (mem_members_of_bracket h hbracket)
  · rw [length_pairs h, size_eq_count h]
  · intro position
    have hagree := lookupsAgree_partner? index position
    cases hpartner : index.partner? position with
    | some other =>
      rw [hpartner] at hagree
      exact .inl ⟨other, (partner?_eq_some_iff_mem h).mp hpartner, hagree⟩
    | none =>
      rw [hpartner] at hagree
      refine .inr ⟨?_, hagree⟩
      intro pair hmem
      exact other?_eq_none_iff.mp ((partner?_eq_none_iff h).mp hpartner pair hmem)
  · intro position hbeside
    have hagree := lookupsAgree_partner? index position
    rwa [partner?_of_beside h hbeside] at hagree

/-- The index of `[a[]]` lists the pairs (0, 4) and (2, 3), from which it can be put together again.
Position 3 has the partner 2; the comment at 1 has none, and no more have the positions before the
text, although the last entry of an array goes by the number -1. -/
theorem lookups_and_pairs_agree_nested :
    let index : BracketIndex := ⟨#[some 4, none, some 3, some 2, some 0]⟩
    BracketIndex.build (Program.ofText "[a[]]") = .ok index ∧
    index.pairs = [(0, 4), (2, 3)] ∧ index.size = 2 ∧ ofPairs 5 [(0, 4), (2, 3)] = index ∧
    LookupsAgree index 3 (some 2) ∧ LookupsAgree index 1 none ∧ LookupsAgree index (-1) none := by
  intro index
  have hbuild : BracketIndex.build (Program.ofText "[a[]]") = .ok index := by decide
  have hpairs : index.pairs = [(0, 4), (2, 3)] := by decide
  obtain ⟨-, -, -, hsize, -, hlookups, hbeside, hindex⟩ := lookups_and_pairs_agree hbuild
  rw [hpairs] at hsize hindex
  refine ⟨hbuild, hpairs, hsize.symm, hindex, ?_, ?_, hbeside (-1) (.inl (by decide))⟩
  · rcases hlookups 3 with ⟨other, -, hagree⟩ | ⟨-, hagree⟩
    · have hpartner : index.partner? 3 = some 2 := by decide
      obtain rfl := Option.some.inj (hagree.1.symm.trans hpartner)
      exact hagree
    · exact absurd hagree.1 (by decide)
  · rcases hlookups 1 with ⟨other, ⟨pair, hmem, hother⟩, -⟩ | ⟨-, hagree⟩
    · have hnone : ∀ pair ∈ [((0 : ℕ), (4 : ℤ)), (2, 3)], other? 1 pair = none := by decide
      rw [hnone pair (hpairs ▸ hmem)] at hother
      cases hother
    · exact hagree

end Matching

end TapeMachine
