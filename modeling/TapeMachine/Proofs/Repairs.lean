import TapeMachine.Proofs.Diagnosis

/-!
Texts that the bracket scan turns away can be repaired where it says. Overwriting some of the
brackets that stay open leaves just the other ones open (`Opens.overwrite`), and closing brackets
behind the text close them one by one, the last one first (`Opens.close`), so either way all of the
reported brackets have to be seen to, and none besides. Neither repair touches the pairs that the
text has already, since an open bracket never stands inside one (`Opens.not_between`).

Before a closing bracket that nothing opens the text is level. It stays so beyond the bracket if
this is overwritten, or if one is opened in front of the text.
-/

set_option autoImplicit false
set_option relaxedAutoImplicit false

namespace TapeMachine.Matching

/-! ### Texts that agree on a stretch -/

section Agree

variable {text other : List Char} {first last position : ℕ} {stack : List ℕ}

theorem Level.congr (hlevel : Level text first last)
    (hsame : ∀ i, first ≤ i → i < last → other[i]? = text[i]?) : Level other first last := by
  have hbetween : (other.take last).drop first = (text.take last).drop first := by
    apply List.ext_getElem?
    intro i
    rw [List.getElem?_drop, List.getElem?_drop, List.getElem?_take, List.getElem?_take]
    split_ifs with hlt
    · exact hsame _ (Nat.le_add_right first i) hlt
    · rfl
  have hle := hlevel.le
  have hlast : first + (last - first) = last := by omega
  have hiff (text : List Char) :
      Level ((text.take last).drop first) 0 (last - first) ↔ Level text first last := by
    rw [level_between_iff hlast.le, Nat.add_zero, hlast]
  rw [← hiff, hbetween, hiff]
  exact hlevel

theorem Pairs.congr {opening closing : ℕ} (h : Pairs text opening closing)
    (hsame : ∀ i, opening ≤ i → i ≤ closing → other[i]? = text[i]?) :
    Pairs other opening closing where
  opens := (hsame opening le_rfl h.lt.le).trans h.opens
  closes := (hsame closing h.lt.le le_rfl).trans h.closes
  level := h.level.congr fun i hfirst hlast ↦ hsame i (by omega) hlast.le

theorem Opens.congr (h : Opens text position stack)
    (hsame : ∀ i < position, other[i]? = text[i]?) : Opens other position stack := by
  induction stack generalizing position with
  | nil => exact Level.congr h fun i _ hlt ↦ hsame i hlt
  | cons start stack ih =>
    obtain ⟨hopen, hlevel, hstack⟩ := h
    have hlt : start < position := hlevel.le
    exact ⟨(hsame start hlt).trans hopen, hlevel.congr fun i _ hi ↦ hsame i hi,
      ih hstack fun i hi ↦ hsame i (hi.trans hlt)⟩

end Agree

/-! ### Overwriting open brackets -/

/-- The text with other characters at the given positions. -/
def overwrite (text : List Char) (places : List ℕ) (fill : ℕ → Char) : List Char :=
  text.mapIdx fun position c ↦ if position ∈ places then fill position else c

/-- None of the characters is a bracket. -/
def NoBracket (fill : ℕ → Char) : Prop := ∀ position, fill position ≠ '[' ∧ fill position ≠ ']'

section Overwrite

variable {text : List Char} {places stack : List ℕ} {fill : ℕ → Char} {position i : ℕ}

theorem length_overwrite : (overwrite text places fill).length = text.length :=
  List.length_mapIdx

theorem getElem?_overwrite_of_mem (hmem : i ∈ places) (hlt : i < text.length) :
    (overwrite text places fill)[i]? = some (fill i) := by
  simp [overwrite, hmem, hlt]

theorem getElem?_overwrite_of_notMem (hmem : i ∉ places) :
    (overwrite text places fill)[i]? = text[i]? := by
  simp [overwrite, hmem]

/-- If open brackets are overwritten, the other ones stay open. -/
theorem Opens.overwrite (h : Opens text position stack) (hfill : NoBracket fill)
    (hplaces : ∀ i ∈ places, i < position → i ∈ stack) :
    Opens (overwrite text places fill) position (stack.filter (· ∉ places)) := by
  induction stack generalizing position with
  | nil =>
    refine Level.congr h fun i _ hi ↦ getElem?_overwrite_of_notMem fun hmem ↦ ?_
    simpa using hplaces i hmem hi
  | cons start stack ih =>
    obtain ⟨hopen, hlevel, hstack⟩ := h
    have hlt : start < position := hlevel.le
    -- Behind the topmost bracket nothing is overwritten, and before it only what is below it on
    -- the stack.
    have hbehind : Level (Matching.overwrite text places fill) (start + 1) position := by
      refine hlevel.congr fun i hfirst hlast ↦ getElem?_overwrite_of_notMem fun hmem ↦ ?_
      rcases List.mem_cons.mp (hplaces i hmem hlast) with rfl | hmem
      · omega
      · have := hstack.lt hmem
        omega
    have hbelow : ∀ i ∈ places, i < start → i ∈ stack := by
      intro i hmem hi
      exact (List.mem_cons.mp (hplaces i hmem (hi.trans hlt))).resolve_left hi.ne
    by_cases hmem : start ∈ places
    · have hstart : (Matching.overwrite text places fill)[start]? = some (fill start) :=
        getElem?_overwrite_of_mem hmem (List.getElem?_eq_some_iff.mp hopen).1
      rw [List.filter_cons_of_neg (by simpa using hmem)]
      exact (ih hstack hbelow).extend
        ((Level.other hstart (hfill start).1 (hfill start).2).trans hbehind)
    · rw [List.filter_cons_of_pos (by simpa using hmem)]
      exact ⟨(getElem?_overwrite_of_notMem hmem).trans hopen, hbehind, ih hstack hbelow⟩

end Overwrite

/-! ### Closing brackets behind the text -/

section Close

variable {text : List Char} {stack : List ℕ} {position start count : ℕ}

/-- A closing bracket closes the topmost of the open ones. -/
theorem Opens.pop (h : Opens text position (start :: stack)) (hclose : text[position]? = some ']') :
    Pairs text start position ∧ Opens text (position + 1) stack := by
  obtain ⟨hopen, hlevel, hstack⟩ := h
  exact ⟨⟨hopen, hclose, hlevel⟩, hstack.extend (Level.enclose hopen hlevel hclose)⟩

/-- The closing bracket behind `number` others. -/
theorem getElem?_append_close {number : ℕ} (text : List Char) (h : number < count) :
    (text ++ List.replicate count ']')[text.length + number]? = some ']' := by
  rw [List.getElem?_append_right (Nat.le_add_right _ _), Nat.add_sub_cancel_left,
    List.getElem?_replicate_of_lt h]

/-- Closing brackets behind the text take the open ones off the stack. -/
theorem Opens.close (h : Opens text text.length stack) {number : ℕ} (hcount : number ≤ count)
    (hstack : number ≤ stack.length) :
    Opens (text ++ List.replicate count ']') (text.length + number) (stack.drop number) := by
  induction number with
  | zero => exact h.congr fun i hi ↦ List.getElem?_append_left hi
  | succ number ih =>
    have hopens := ih (Nat.le_of_succ_le hcount) (Nat.le_of_succ_le hstack)
    rw [List.drop_eq_getElem_cons hstack] at hopens
    exact (hopens.pop (getElem?_append_close text hcount)).2

/-- The last of the open brackets belongs to the first closing one, and so on backwards. -/
theorem Opens.exists_pairs_close (h : Opens text text.length stack) {number : ℕ}
    (hnumber : number < stack.reverse.length) :
    ∃ start, stack.reverse[stack.reverse.length - 1 - number]? = some start ∧
      Pairs (text ++ List.replicate stack.reverse.length ']') start (text.length + number) := by
  have hlt : number < stack.length := by simpa using hnumber
  have hplace : stack.length - 1 - (stack.length - 1 - number) = number := by omega
  refine ⟨stack[number], ?_, ?_⟩
  · rw [List.length_reverse, List.getElem?_reverse (by omega), hplace, List.getElem?_eq_getElem hlt]
  · have hopens := h.close hnumber.le hlt.le
    rw [List.drop_eq_getElem_cons hlt] at hopens
    exact (hopens.pop (getElem?_append_close text hnumber)).1

end Close

/-! ### What the repairs leave alone -/

/-- An open bracket does not stand inside a pair, nor is it one of the pair. -/
theorem Opens.not_between {text : List Char} {position start opening closing : ℕ} {stack : List ℕ}
    (h : Opens text position stack) (hmem : start ∈ stack) (hpair : Pairs text opening closing)
    (hclosing : closing < position) (hfirst : opening ≤ start) : closing < start := by
  by_contra hle
  have hdown := height_succ_close hpair.closes
  have hback := hpair.level.back
  have habove : height text start < height text (closing + 1) :=
    h.above hmem (by omega) hclosing
  rcases Nat.eq_or_lt_of_le hfirst with rfl | hinside
  · have hup := height_succ_open hpair.opens
    omega
  · have hbase := hpair.level.above start hinside (by omega)
    omega

/-- Two accepted texts that have the characters and the pairs of a third one have partners in common
wherever that text has no open bracket. -/
theorem Scanned.partners_agree {text : List Char} {left : List ℕ} {partners : Array (Option ℤ)}
    (h : Scanned text text.length left partners) {first second : Program}
    {index other : BracketIndex} (hindex : BracketIndex.build first = .ok index)
    (hother : BracketIndex.build second = .ok other)
    (hpairs : ∀ i j, Pairs text i j →
      Pairs first.chars.toList i j ∧ Pairs second.chars.toList i j) {position : ℕ} {c : Char}
    (hc : text[position]? = some c) (hfirst : first.chars.toList[position]? = some c)
    (hsecond : second.chars.toList[position]? = some c) (hclosed : position ∉ left) :
    index.partners[position]? = other.partners[position]? := by
  have hlt := (List.getElem?_eq_some_iff.mp hc).1
  by_cases hopen : c = '['
  · subst hopen
    obtain ⟨finish, -, hpair⟩ := (h.opening position hlt hc).resolve_left hclosed
    rw [partners_opening hindex (hpairs _ _ hpair).1, partners_opening hother (hpairs _ _ hpair).2]
  · by_cases hclose : c = ']'
    · subst hclose
      obtain ⟨start, hpair⟩ := h.closing position hlt hc
      rw [partners_closing hindex (hpairs _ _ hpair).1,
        partners_closing hother (hpairs _ _ hpair).2]
    · rw [partners_other hindex hfirst hopen hclose, partners_other hother hsecond hopen hclose]

/-! ### Accepted and turned away -/

theorem exists_build_of_opens {text : List Char} (h : Opens text text.length []) :
    ∃ index, BracketIndex.build ⟨text.toArray⟩ = .ok index :=
  (build_isOk_iff_balanced ⟨text.toArray⟩).mpr (balanced_iff_level.mpr h)

theorem exists_build_take {text : List Char} {finish : ℕ} (h : Level text 0 finish)
    (hle : finish ≤ text.length) :
    ∃ index, BracketIndex.build ⟨(text.take finish).toArray⟩ = .ok index :=
  (build_isOk_iff_balanced ⟨(text.take finish).toArray⟩).mpr
    ((balanced_between_iff (Nat.zero_le _) hle).mpr h)

theorem build_ne_ok_of_opens {text : List Char} {left : List ℕ} (hne : left ≠ [])
    (h : Opens text text.length left) (index : BracketIndex) :
    BracketIndex.build ⟨text.toArray⟩ ≠ .ok index := by
  have hrejected : BracketIndex.build ⟨text.toArray⟩ =
      .error (.unclosedOpens (left.reverse.map Int.ofNat)) := build_eq_unclosedOpens hne h
  rw [hrejected]
  exact nofun

/-- Only so many closing brackets can follow as there are open ones. -/
theorem build_append_close_ne_ok {text : List Char} {left : List ℕ}
    (h : Opens text text.length left) {count : ℕ} (hcount : count ≠ left.length)
    (index : BracketIndex) :
    BracketIndex.build ⟨(text ++ List.replicate count ']').toArray⟩ ≠ .ok index := by
  rcases Nat.lt_or_gt_of_ne hcount with hfew | hmany
  · have hopens := h.close le_rfl hfew.le
    have hne : left.drop count ≠ [] := by simpa using hfew
    refine build_ne_ok_of_opens hne ?_ index
    rwa [List.length_append, List.length_replicate]
  · have hlevel := h.close hmany.le le_rfl
    rw [List.drop_length] at hlevel
    have hrejected : BracketIndex.build ⟨(text ++ List.replicate count ']').toArray⟩ =
        .error (.unmatchedClose (text.length + left.length : ℕ)) :=
      build_eq_unmatchedClose_iff.mpr ⟨getElem?_append_close text hmany, hlevel⟩
    rw [hrejected]
    exact nofun

/-- A closing bracket that nothing opens does not stand in a level stretch at the start of the
text. -/
theorem le_of_unmatchedClose {text : List Char} {last : ℕ} (h : Level text 0 last) {position : ℤ}
    (hbuild : BracketIndex.build ⟨text.toArray⟩ = .error (.unmatchedClose position)) :
    last ≤ position := by
  obtain ⟨finish, rfl, hclose, hlevel⟩ := exists_of_unmatchedClose hbuild
  have hbelow := overcloses_iff_height.mp (isLeast_overcloses hclose hlevel).1
  by_contra hlt
  have habove := h.above (finish + 1) (Nat.zero_le _) (by omega)
  rw [height_zero] at habove
  exact absurd hbelow (Int.not_lt.mpr habove)

theorem level_cons {text : List Char} {first last : ℕ} (h : Level text first last)
    (hlast : last ≤ text.length) (c : Char) : Level (c :: text) (first + 1) (last + 1) := by
  have hrest : ((c :: text).take (text.length + 1)).drop 1 = text := by
    rw [List.take_of_length_le (by simp), List.drop_one, List.tail_cons]
  have hlevel : Level (((c :: text).take (text.length + 1)).drop 1) first last := by rwa [hrest]
  rw [Nat.add_comm first, Nat.add_comm last]
  exact (level_between_iff (by omega)).mp hlevel

/-! ### The repairs -/

section Repairs

variable {text : List Char} {left places : List ℕ} {fill : ℕ → Char} {partners : Array (Option ℤ)}
  {finish : ℕ}

/-- Overwriting open brackets is a repair exactly if all of them are overwritten. -/
theorem exists_build_overwrite_iff (h : Opens text text.length left) (hfill : NoBracket fill)
    (hplaces : places ⊆ left) :
    (∃ index, BracketIndex.build ⟨(overwrite text places fill).toArray⟩ = .ok index) ↔
      left ⊆ places := by
  have hlength : text.length = (overwrite text places fill).length := length_overwrite.symm
  have hopens := h.overwrite hfill fun i hmem _ ↦ hplaces hmem
  rw [hlength] at hopens
  have hnil : left.filter (· ∉ places) = [] ↔ left ⊆ places := by
    rw [List.filter_eq_nil_iff]
    simp [List.subset_def]
  rw [← hnil]
  constructor
  · rintro ⟨index, hindex⟩
    by_contra hne
    exact build_ne_ok_of_opens hne hopens index hindex
  · intro hempty
    rw [hempty] at hopens
    exact exists_build_of_opens hopens

theorem exists_build_append_close (h : Opens text text.length left) :
    ∃ index, BracketIndex.build ⟨(text ++ List.replicate left.length ']').toArray⟩ = .ok index := by
  have hopens := h.close le_rfl le_rfl
  rw [List.drop_length] at hopens
  refine exists_build_of_opens ?_
  rwa [List.length_append, List.length_replicate]

/-- The pairs of a text are pairs of both of its repairs. -/
theorem Scanned.pairs_repaired (h : Scanned text text.length left partners)
    (hplaces : places ⊆ left) (rest : List Char) {i j : ℕ} (hpair : Pairs text i j) :
    Pairs (text ++ rest) i j ∧ Pairs (overwrite text places fill) i j := by
  have hlt := hpair.closing_lt_length
  constructor
  · exact hpair.congr fun k _ hk ↦ List.getElem?_append_left (by omega)
  · refine hpair.congr fun k hfirst hlast ↦ getElem?_overwrite_of_notMem fun hmem ↦ ?_
    have hbehind := h.opens.not_between (hplaces hmem) hpair hlt hfirst
    omega

/-- Behind the closing bracket that nothing opens, the text is level if the bracket is
overwritten. -/
theorem level_overwrite_close (hclose : text[finish]? = some ']') (hlevel : Level text 0 finish)
    (hfill : NoBracket fill) : Level (overwrite text [finish] fill) 0 (finish + 1) := by
  have hfilled : (overwrite text [finish] fill)[finish]? = some (fill finish) :=
    getElem?_overwrite_of_mem (List.mem_singleton_self finish)
      (List.getElem?_eq_some_iff.mp hclose).1
  refine (hlevel.congr fun i _ hlast ↦ ?_).trans
    (Level.other hfilled (hfill finish).1 (hfill finish).2)
  exact getElem?_overwrite_of_notMem (by simpa using hlast.ne)

/-- And so it is if there is a bracket for it in front of the text. -/
theorem level_open_cons (hclose : text[finish]? = some ']') (hlevel : Level text 0 finish) :
    Level ('[' :: text) 0 (finish + 1 + 1) :=
  Level.enclose rfl (level_cons hlevel (List.getElem?_eq_some_iff.mp hclose).1.le '[') hclose

end Repairs

/-- Reported brackets can be repaired. If brackets stay open, the text is accepted once all of them
are overwritten by characters that are no brackets, and not if some of them are left; it is also
accepted with as many closing brackets behind it, and not with any other number. These close the
last of the open brackets first, and apart from them both repairs give all brackets the same
partners. If nothing opens a closing bracket, the text before it is accepted, and if the bracket is
overwritten or one is put in front of the text, then no bracket up to there is without partner. -/
theorem reported_brackets_can_be_repaired (program : Program) {fill : ℕ → Char}
    (hfill : NoBracket fill) :
    let text := program.chars.toList
    (∀ positions, BracketIndex.build program = .error (.unclosedOpens positions) →
      ∃ (opens : List ℕ) (mended closed : BracketIndex), positions = opens.map Int.ofNat ∧
        BracketIndex.build ⟨(overwrite text opens fill).toArray⟩ = .ok mended ∧
        (∀ places, places ⊆ opens → ¬opens ⊆ places → ∀ index,
          BracketIndex.build ⟨(overwrite text places fill).toArray⟩ ≠ .ok index) ∧
        BracketIndex.build ⟨(text ++ List.replicate opens.length ']').toArray⟩ = .ok closed ∧
        (∀ number < opens.length, ∃ start : ℕ,
          opens[opens.length - 1 - number]? = some start ∧
          closed.partner? start = some ((text.length + number : ℕ) : ℤ) ∧
          closed.partner? (text.length + number : ℕ) = some (start : ℤ)) ∧
        (∀ position < text.length, position ∉ opens →
          closed.partners[position]? = mended.partners[position]?) ∧
        ∀ count, count ≠ opens.length → ∀ index,
          BracketIndex.build ⟨(text ++ List.replicate count ']').toArray⟩ ≠ .ok index) ∧
    ∀ position, BracketIndex.build program = .error (.unmatchedClose position) →
      ∃ finish : ℕ, position = finish ∧
        (∃ index, BracketIndex.build ⟨(text.take finish).toArray⟩ = .ok index) ∧
        (∀ other, BracketIndex.build ⟨(overwrite text [finish] fill).toArray⟩ =
          .error (.unmatchedClose other) → finish < other) ∧
        ∀ other, BracketIndex.build ⟨('[' :: text).toArray⟩ = .error (.unmatchedClose other) →
          finish + 1 < other := by
  intro text
  constructor
  · intro positions hbuild
    obtain ⟨left, partners, rfl, -, hscanned⟩ := exists_of_unclosedOpens hbuild
    have hopens := hscanned.opens
    have hall : left.reverse ⊆ left := fun _ ↦ List.mem_reverse.mp
    obtain ⟨mended, hmended⟩ := (exists_build_overwrite_iff hopens hfill hall).mpr
      fun _ ↦ List.mem_reverse.mpr
    obtain ⟨closed, hclosed⟩ := exists_build_append_close hopens
    rw [← List.length_reverse] at hclosed
    refine ⟨left.reverse, mended, closed, rfl, hmended, ?_, hclosed, ?_, ?_, ?_⟩
    · intro places hplaces hsome index hindex
      have hleft := (exists_build_overwrite_iff hopens hfill
        (List.Subset.trans hplaces hall)).mp ⟨index, hindex⟩
      exact hsome (List.Subset.trans hall hleft)
    · intro number hnumber
      obtain ⟨start, hstart, hpair⟩ := hopens.exists_pairs_close hnumber
      exact ⟨start, hstart, partner?_opening hclosed hpair, partner?_closing hclosed hpair⟩
    · intro position hlt hmem
      have hc : text[position]? = some text[position] := List.getElem?_eq_getElem hlt
      exact hscanned.partners_agree hclosed hmended
        (fun _ _ ↦ hscanned.pairs_repaired hall _) hc ((List.getElem?_append_left hlt).trans hc)
        ((getElem?_overwrite_of_notMem hmem).trans hc) (mt List.mem_reverse.mpr hmem)
    · intro count hcount
      rw [List.length_reverse] at hcount
      exact build_append_close_ne_ok hopens hcount
  · intro position hbuild
    obtain ⟨finish, rfl, hclose, hlevel⟩ := exists_of_unmatchedClose hbuild
    refine ⟨finish, rfl, ?_, ?_, ?_⟩
    · exact exists_build_take hlevel (List.getElem?_eq_some_iff.mp hclose).1.le
    · intro other hother
      have hle := le_of_unmatchedClose (level_overwrite_close hclose hlevel hfill) hother
      omega
    · intro other hother
      have hle := le_of_unmatchedClose (level_open_cons hclose hlevel) hother
      omega

/-- In `[a[][` the first and the last bracket stay open. The text `xa[]x` is accepted, `[a[]x` is
not, and in `[a[][]]` the first closing bracket behind the text belongs to the last open one. In
`[]][` the text before position 2 is accepted. -/
theorem reported_brackets_can_be_repaired_in_both_ways :
    NoBracket (fun _ ↦ 'x') ∧
    BracketIndex.build (Program.ofText "[a[][") = .error (.unclosedOpens [0, 4]) ∧
    (∃ mended closed, BracketIndex.build (Program.ofText "xa[]x") = .ok mended ∧
      (∀ index, BracketIndex.build (Program.ofText "[a[]x") ≠ .ok index) ∧
      BracketIndex.build (Program.ofText "[a[][]]") = .ok closed ∧
      closed.partner? 5 = some 4 ∧ closed.partners[2]? = mended.partners[2]?) ∧
    BracketIndex.build (Program.ofText "[]][") = .error (.unmatchedClose 2) ∧
    ∃ index, BracketIndex.build (Program.ofText "[]") = .ok index := by
  have hfill : NoBracket (fun _ ↦ 'x') := fun _ ↦ by simp
  have hopen : BracketIndex.build (Program.ofText "[a[][") = .error (.unclosedOpens [0, 4]) := by
    decide
  have hclose : BracketIndex.build (Program.ofText "[]][") = .error (.unmatchedClose 2) := by
    decide
  refine ⟨hfill, hopen, ?_, hclose, ?_⟩
  · obtain ⟨opens, mended, closed, hpositions, hmended, hfew, hclosed, hpairs, hsame, -⟩ :=
      (reported_brackets_can_be_repaired (Program.ofText "[a[][") hfill).1 [0, 4] hopen
    have hcast : Function.Injective Int.ofNat := fun _ _ ↦ Int.ofNat.inj
    obtain rfl : [0, 4] = opens := hcast.list_map hpositions
    refine ⟨mended, closed, hmended, hfew [4] (by decide) (by decide), hclosed, ?_,
      hsame 2 (by decide) (by decide)⟩
    obtain ⟨start, hstart, -, hpartner⟩ := hpairs 0 (by decide)
    obtain rfl : 4 = start := Option.some.inj hstart
    exact hpartner
  · obtain ⟨finish, hfinish, haccepted, -⟩ :=
      (reported_brackets_can_be_repaired (Program.ofText "[]][") hfill).2 2 hclose
    obtain rfl : 2 = finish := Int.ofNat.inj hfinish
    exact haccepted

end TapeMachine.Matching
