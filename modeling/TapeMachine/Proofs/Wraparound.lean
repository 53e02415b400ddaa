import TapeMachine.Proofs.Comments

/-!
Counting a cell round does nothing. A block of `+` and `-` that counts up as often as down, or that
counts all the way round by multiples of 256, may be put into a program at any position
(`Insertion`): inside loops, right behind an opening or right before a closing bracket.

The block has no brackets, so each position of the longer text has the height of the position of the
program to which it belongs (`height_result`), and pairs of brackets and brackets that stay open
move along with their positions (`pairs_result`, `opens_result`). A machine that comes to the block
runs through it and has the memory with which it came (`exists_through`). Everywhere else it does
what the machine without the block does (`Beside.step`).
-/

set_option autoImplicit false
set_option relaxedAutoImplicit false

namespace TapeMachine

open StateTransition Matching

/-! ### Counting -/

/-- How far a block counts, with `-` counting down. -/
def net (block : List Char) : ℤ := block.count '+' - block.count '-'

theorem net_cons (c : Char) (block : List Char) : net (c :: block) = net [c] + net block := by
  unfold net
  simp only [List.count_cons, List.count_nil]
  push_cast
  omega

theorem ofInt_eq_zero {amount : ℤ} (h : 256 ∣ amount) : UInt8.ofInt amount = 0 := by
  obtain ⟨turns, rfl⟩ := h
  have hturn : UInt8.ofInt 256 = 0 := by decide
  rw [UInt8.ofInt_mul, hturn, UInt8.zero_mul]

namespace Memory

variable {s : Memory}

/-- The memory after the current cell has counted by this amount. -/
def count (s : Memory) (amount : ℤ) : Memory :=
  { s with tape := s.tape.modify s.pointer.toNat (· + UInt8.ofInt amount) }

theorem count_count (s : Memory) (first second : ℤ) :
    (s.count first).count second = s.count (first + second) := by
  unfold count
  congr 1
  apply Array.ext_getElem?
  intro i
  simp only [Array.getElem?_modify, UInt8.ofInt_add]
  split_ifs
  · cases s.tape[i]? with
    | none => rfl
    | some cell => simp only [Option.map_some, UInt8.add_assoc]
  · rfl

/-- After any number of whole turns a cell is what it was. -/
theorem count_of_dvd {amount : ℤ} (h : 256 ∣ amount) : s.count amount = s := by
  have hself : s.tape.modify s.pointer.toNat (· + UInt8.ofInt amount) = s.tape := by
    apply Array.ext_getElem?
    intro i
    rw [Array.getElem?_modify, ofInt_eq_zero h]
    split_ifs
    · cases s.tape[i]? with
      | none => rfl
      | some cell => rw [Option.map_some, UInt8.add_zero]
    · rfl
  unfold count
  rw [hself]

/-- Both commands that count do so modulo 256. -/
theorem work_counting {c : Char} (h : s.InRange) (hc : c = '+' ∨ c = '-') :
    s.work (Command.ofChar c) = .done (s.count (net [c])) := by
  obtain ⟨place, hpointer, hplace⟩ := h.exists_place
  have hmodify (f : UInt8 → UInt8) :
      s.tape.modify s.pointer.toNat f = s.tape.setIfInBounds place (f s.tape[place]) := by
    rw [hpointer, Int.toNat_natCast, modify_eq_setIfInBounds _ hplace]
  unfold count
  rcases hc with rfl | rfl
  · have hup : UInt8.ofInt (net ['+']) = 1 := by decide
    rw [hmodify, hup]
    exact work_increment hpointer hplace
  · have hdown : UInt8.ofInt (net ['-']) = -1 := by decide
    rw [hmodify, hdown, ← UInt8.sub_eq_add_neg]
    exact work_decrement hpointer hplace

end Memory

/-! ### Positions around the block -/

/-- A program and a block that counts round some whole number of times, to be put into the program
at a position. -/
structure Insertion where
  program : Program
  position : ℕ
  block : List Char
  position_le : position ≤ program.size
  counts : ∀ c ∈ block, c = '+' ∨ c = '-'
  whole_turns : 256 ∣ net block

namespace Insertion

variable (ins : Insertion) {first last i j : ℕ} {index other : BracketIndex}

def text : List Char := ins.program.chars.toList

/-- The program with the block in it. -/
def result : Program :=
  ⟨(ins.text.take ins.position ++ ins.block ++ ins.text.drop ins.position).toArray⟩

/-- Where a position of the program is in the result. From the block on, it is further back by the
length of the block. -/
def place (position : ℤ) : ℤ :=
  if position < ins.position then position else position + ins.block.length

/-- The same as a natural number, for positions of characters. -/
def placeNat (position : ℕ) : ℕ :=
  if position < ins.position then position else position + ins.block.length

/-- Here a position of the program is met in the result: at its new place or, where the block has
been put in, at the start of the block. -/
def Meets (position other : ℤ) : Prop :=
  other = ins.place position ∨ position = ins.position ∧ other = ins.position

/-- The position of the program to which a position of the result belongs. The whole block belongs
to the position where it has been put in. -/
def origin (position : ℕ) : ℕ :=
  if position < ins.position then position
  else max ins.position (position - ins.block.length)

theorem place_natCast (position : ℕ) : ins.place position = ins.placeNat position := by
  unfold place placeNat
  split_ifs <;> omega

theorem place_position : ins.place ins.position = ins.position + ins.block.length :=
  if_neg (Int.lt_irrefl _)

theorem meets_zero : ins.Meets 0 0 := by
  unfold Meets place
  split_ifs <;> omega

/-- What follows a position in the result is the next position, or the block. -/
theorem meets_succ (position : ℕ) :
    ins.Meets (position + 1) (ins.placeNat position + 1) := by
  unfold Meets placeNat place
  split_ifs <;> omega

theorem origin_zero : ins.origin 0 = 0 := by
  unfold origin
  split_ifs <;> omega

theorem origin_placeNat (position : ℕ) : ins.origin (ins.placeNat position) = position := by
  unfold origin placeNat
  split_ifs <;> omega

theorem origin_placeNat_succ (position : ℕ) :
    ins.origin (ins.placeNat position + 1) = position + 1 := by
  unfold origin placeNat
  split_ifs <;> omega

theorem origin_mono : Monotone ins.origin := by
  intro first last hle
  unfold origin
  split_ifs <;> omega

theorem placeNat_lt (h : first < ins.origin last) : ins.placeNat first < last := by
  unfold placeNat
  unfold origin at h
  split_ifs at h ⊢ <;> omega

theorem toList_result :
    ins.result.chars.toList =
      ins.text.take ins.position ++ ins.block ++ ins.text.drop ins.position := rfl

theorem length_take_position : (ins.text.take ins.position).length = ins.position := by
  rw [List.length_take]
  exact Nat.min_eq_left ins.position_le

theorem length_result :
    ins.result.chars.toList.length = ins.text.length + ins.block.length := by
  have hle : ins.position ≤ ins.text.length := ins.position_le
  rw [toList_result, List.length_append, List.length_append, length_take_position,
    List.length_drop]
  omega

theorem size_result : ins.result.size = ins.program.size + ins.block.length := ins.length_result

theorem origin_length : ins.origin ins.result.chars.toList.length = ins.text.length := by
  have hle : ins.position ≤ ins.text.length := ins.position_le
  rw [length_result]
  unfold origin
  split_ifs <;> omega

theorem getElem?_placeNat (position : ℕ) :
    ins.result.chars.toList[ins.placeNat position]? = ins.text[position]? := by
  rw [toList_result, placeNat]
  split_ifs with hbefore
  · rw [List.append_assoc, List.getElem?_append_left (by rw [length_take_position]; exact hbefore),
      List.getElem?_take_of_lt hbefore]
  · have hlength : (ins.text.take ins.position ++ ins.block).length =
        ins.position + ins.block.length := by
      rw [List.length_append, length_take_position]
    rw [List.getElem?_append_right (by omega), hlength, List.getElem?_drop]
    congr 1
    omega

theorem getElem?_block {front rest : List Char} {c : Char}
    (hblock : ins.block = front ++ c :: rest) :
    ins.result.chars.toList[ins.position + front.length]? = some c := by
  rw [toList_result, hblock, List.append_assoc,
    List.getElem?_append_right (by rw [length_take_position]; omega), length_take_position,
    List.append_assoc, Nat.add_sub_cancel_left, List.getElem?_append_right le_rfl, Nat.sub_self]
  rfl

/-! ### Brackets around the block -/

theorem take_origin (position : ℕ) :
    ins.text.take (ins.origin position) = (ins.text.take ins.position).take position ++
      (ins.text.drop ins.position).take (position - ins.position - ins.block.length) := by
  conv_lhs => rw [← List.take_append_drop ins.position ins.text]
  rw [List.take_append, length_take_position, List.take_take, List.take_take]
  unfold origin
  split_ifs with hbefore
  · congr 2
    omega
  · congr 2 <;> omega

/-- The block has no brackets, so it has the height of the position where it has been put in. -/
theorem height_result (position : ℕ) :
    height ins.result.chars.toList position = height ins.text (ins.origin position) := by
  have hbracket {c : Char} (hc : c ≠ '+' ∧ c ≠ '-') (number : ℕ) :
      (ins.block.take number).count c = 0 := by
    rw [List.count_eq_zero]
    intro hmem
    exact (ins.counts c (List.mem_of_mem_take hmem)).elim hc.1 hc.2
  unfold height
  rw [toList_result, take_origin, List.take_append, List.take_append, List.length_append,
    length_take_position, List.count_append, List.count_append, List.count_append,
    List.count_append, List.count_append, List.count_append, hbracket (by decide),
    hbracket (by decide), Nat.add_zero, Nat.add_zero, Nat.sub_add_eq]

theorem level_result (hle : first ≤ last)
    (h : Level ins.text (ins.origin first) (ins.origin last)) :
    Level ins.result.chars.toList first last := by
  refine ⟨hle, ?_, ?_⟩
  · rw [height_result, height_result, h.back]
  · intro position hfirst hlast
    rw [height_result, height_result]
    exact h.above _ (ins.origin_mono hfirst) (ins.origin_mono hlast)

theorem pairs_result (h : Pairs ins.text i j) :
    Pairs ins.result.chars.toList (ins.placeNat i) (ins.placeNat j) := by
  refine ⟨?_, ?_, ins.level_result ?_ ?_⟩
  · rw [getElem?_placeNat, h.opens]
  · rw [getElem?_placeNat, h.closes]
  · apply ins.placeNat_lt
    rw [origin_placeNat]
    exact h.lt
  · rw [origin_placeNat_succ, origin_placeNat]
    exact h.level

theorem opens_result {stack : List ℕ} (h : Opens ins.text (ins.origin last) stack) :
    Opens ins.result.chars.toList last (stack.map ins.placeNat) := by
  induction stack generalizing last with
  | nil =>
    refine ins.level_result (Nat.zero_le _) ?_
    rw [origin_zero]
    exact h
  | cons start stack ih =>
    obtain ⟨hopen, hlevel, hstack⟩ := h
    refine ⟨?_, ins.level_result (ins.placeNat_lt hlevel.le) ?_, ih ?_⟩
    · rw [getElem?_placeNat, hopen]
    · rw [origin_placeNat_succ]
      exact hlevel
    · rw [origin_placeNat]
      exact hstack

theorem exists_build_result (h : BracketIndex.build ins.program = .ok index) :
    ∃ other, BracketIndex.build ins.result = .ok other := by
  have hbalanced := (build_isOk_iff_balanced ins.program).mp ⟨index, h⟩
  rw [balanced_iff_level] at hbalanced
  rw [build_isOk_iff_balanced, balanced_iff_level]
  refine ins.level_result (Nat.zero_le _) ?_
  rw [origin_zero, origin_length]
  exact hbalanced

/-- With the block in it, a program is turned away for the same brackets, at their new places. -/
theorem build_result_of_error {failure : Failure}
    (h : BracketIndex.build ins.program = .error failure) :
    BracketIndex.build ins.result = .error (failure.renumber ins.place) := by
  rcases build_cases ins.program with ⟨index, heq, -⟩ | ⟨finish, heq, hclose, hlevel⟩ |
    ⟨left, partners, heq, hne, hscanned⟩
  · rw [heq] at h
    cases h
  · rw [heq] at h
    cases h
    rw [Failure.renumber, place_natCast]
    refine build_eq_unmatchedClose_iff.mpr ⟨?_, ins.level_result (Nat.zero_le _) ?_⟩
    · rw [getElem?_placeNat]
      exact hclose
    · rw [origin_zero, origin_placeNat]
      exact hlevel
  · rw [heq] at h
    cases h
    have hopens : Opens ins.text (ins.origin ins.result.chars.toList.length) left := by
      rw [origin_length]
      exact hscanned.opens
    rw [build_eq_unclosedOpens (by simpa using hne) (ins.opens_result hopens)]
    simp [Failure.renumber, place_natCast, Function.comp_def]

/-- A bracket has its partner at the new place of the one that it has in the program. -/
theorem partner?_result (hindex : BracketIndex.build ins.program = .ok index)
    (hother : BracketIndex.build ins.result = .ok other)
    (h : index.partner? (i : ℤ) = some (j : ℤ)) :
    other.partner? (ins.placeNat i : ℤ) = some (ins.placeNat j : ℤ) := by
  rw [partner?_eq_some_iff hindex] at h
  exact (partner?_eq_some_iff hother).mpr (h.imp ins.pairs_result ins.pairs_result)

end Insertion

/-! ### Through the block -/

namespace Machine

variable {code : Code} {ins : Insertion} {index other : BracketIndex} {m n : Machine}

/-- A counting command is carried out wherever it stands. -/
theorem Safe.move_counting {c : Char} (h : n.Safe code) (hfailure : n.failure = none)
    (hc : code.program.get? n.pc = some c) (hcounts : c = '+' ∨ c = '-') :
    n.move code = some (n.goOn (n.memory.count (net [c])) (n.pc + 1)) := by
  rw [move_eq (h.running_of_get? hfailure hc) hc, Memory.work_counting h.inRange hcounts]

/-- A machine that stands in the block comes to its end, and its cell has counted by what was left
of the block. -/
theorem exists_reaches_end {front rest : List Char} (hblock : ins.block = front ++ rest)
    (hsafe : n.Safe ⟨ins.result, other⟩) (hfailure : n.failure = none)
    (hpc : n.pc = ins.position + front.length) :
    ∃ last, Reaches (move ⟨ins.result, other⟩) n last ∧ last.Safe ⟨ins.result, other⟩ ∧
      last.failure = none ∧ last.pc = ins.position + ins.block.length ∧
      last.memory = n.memory.count (net rest) := by
  -- The induction is on what is left of the block, while `front` grows by what has been counted.
  induction rest generalizing front n with
  | nil =>
    rw [List.append_nil] at hblock
    exact ⟨n, .refl, hsafe, hfailure, hblock ▸ hpc, (Memory.count_of_dvd ⟨0, rfl⟩).symm⟩
  | cons c rest ih =>
    have hget : (Code.mk ins.result other).program.get? n.pc = some c := by
      rw [hpc]
      exact get?_natCast (ins.getElem?_block hblock)
    have hcounts := ins.counts c (by simp [hblock])
    have hmove := hsafe.move_counting hfailure hget hcounts
    have hsplit : ins.block = (front ++ [c]) ++ rest := by simp [hblock]
    have hnext : (n.goOn (n.memory.count (net [c])) (n.pc + 1)).pc =
        ins.position + (front ++ [c]).length := by
      change n.pc + 1 = _
      rw [List.length_append, List.length_singleton]
      omega
    obtain ⟨last, hreach, hlast, hnone, hend, hmemory⟩ :=
      ih hsplit (hsafe.move hmove).1 hfailure hnext
    refine ⟨last, .head hmove hreach, hlast, hnone, hend, ?_⟩
    rw [hmemory, net_cons c rest, ← Memory.count_count]
    rfl

/-- A machine that comes to the block runs through it and has the memory with which it came. -/
theorem exists_through (hsafe : n.Safe ⟨ins.result, other⟩) (hfailure : n.failure = none)
    (hpc : n.pc = ins.position) :
    ∃ last, Reaches (move ⟨ins.result, other⟩) n last ∧ last.Safe ⟨ins.result, other⟩ ∧
      last.failure = none ∧ last.pc = ins.position + ins.block.length ∧
      last.memory = n.memory := by
  obtain ⟨last, hreach, hlast, hnone, hend, hmemory⟩ :=
    exists_reaches_end (List.nil_append ins.block).symm hsafe hfailure (by simpa using hpc)
  rw [Memory.count_of_dvd ins.whole_turns] at hmemory
  exact ⟨last, hreach, hlast, hnone, hend, hmemory⟩

/-! ### With and without the block -/

/-- The second machine runs the program with the block in it: with the memory of the first one, at
the new place of its position. -/
structure Beside (ins : Insertion) (index other : BracketIndex) (m n : Machine) : Prop where
  safe : m.Safe ⟨ins.program, index⟩
  safe_result : n.Safe ⟨ins.result, other⟩
  alike : Alike m n
  pc_eq : n.pc = ins.place m.pc

namespace Beside

/-- A machine that has come to the block gets to the place behind it, where it stands beside the
other one. -/
theorem of_meets (hsafe : m.Safe ⟨ins.program, index⟩) (hresult : n.Safe ⟨ins.result, other⟩)
    (halike : Alike m n) (hpc : ins.Meets m.pc n.pc) :
    ∃ last, Reaches (move ⟨ins.result, other⟩) n last ∧ Beside ins index other m last := by
  rcases hpc with hpc | ⟨hpc, hblock⟩
  · exact ⟨n, .refl, hsafe, hresult, halike, hpc⟩
  · obtain ⟨last, hreach, hlast, hnone, hend, hmemory⟩ :=
      exists_through hresult halike.failure_right hblock
    refine ⟨last, hreach, hsafe, hlast, ⟨?_, halike.failure_left, hnone⟩, ?_⟩
    · rw [hmemory, halike.memory_eq]
    · rw [hend, hpc, ins.place_position]

/-- Outside the block both machines do the same. -/
theorem step (h : Beside ins index other m n) (hrun : m.halted ⟨ins.program, index⟩ = false) :
    (∃ m' n', m.move ⟨ins.program, index⟩ = some m' ∧
      Reaches₁ (move ⟨ins.result, other⟩) n n' ∧ Beside ins index other m' n') ∨
    (m.move ⟨ins.program, index⟩ = none ∧ n.move ⟨ins.result, other⟩ = none ∧
      verdict (m.conclude ⟨ins.program, index⟩) = verdict (n.conclude ⟨ins.result, other⟩)) := by
  obtain ⟨position, c, hposition, hc, hget⟩ := h.safe.fetch hrun
  have hplace : n.pc = ins.placeNat position := by
    rw [h.pc_eq, hposition, ins.place_natCast]
  have hother : (Code.mk ins.result other).program.get? n.pc = some c := by
    rw [hplace]
    exact get?_natCast ((ins.getElem?_placeNat position).trans hc)
  -- Whether by a jump or not, both machines go on right behind a position and its place.
  have hnext {s : Memory} {number : ℕ}
      (hm : m.move ⟨ins.program, index⟩ = some (m.goOn s (number + 1)))
      (hn : n.move ⟨ins.result, other⟩ = some (n.goOn s (ins.placeNat number + 1))) :
      ∃ m' n', m.move ⟨ins.program, index⟩ = some m' ∧
        Reaches₁ (move ⟨ins.result, other⟩) n n' ∧ Beside ins index other m' n' := by
    obtain ⟨last, hreach, hlast⟩ := of_meets (h.safe.move hm).1 (h.safe_result.move hn).1
      (h.alike.goOn s _ _) (ins.meets_succ number)
    exact ⟨_, last, hm, .head' hn hreach, hlast⟩
  rcases h.safe.mirror h.safe_result h.alike hget hother with
    ⟨s, hm, hn⟩ | ⟨i, j, hi, hj, hm, hn⟩ | hends
  · rw [hposition] at hm
    rw [hplace] at hn
    exact .inl (hnext hm hn)
  · rw [hposition] at hi
    rw [hplace, ins.partner?_result h.safe.built h.safe_result.built hi, Option.some.injEq] at hj
    rw [← hj] at hn
    exact .inl (hnext hm hn)
  · exact .inr hends

end Beside

/-- The program with the block in it does what the program does. -/
theorem simulates_beside (ins : Insertion) (index other : BracketIndex) :
    Simulates ⟨ins.program, index⟩ ⟨ins.result, other⟩ (Beside ins index other) := by
  intro m n h
  by_cases hhalted : m.halted ⟨ins.program, index⟩ = true
  · have hover : (ins.program.size : ℤ) ≤ m.pc := by
      simpa [halted, h.alike.failure_left] using hhalted
    have hother : n.halted ⟨ins.result, other⟩ = true := by
      have hle := ins.position_le
      have hplace := h.pc_eq
      have hend : (ins.result.size : ℤ) ≤ n.pc := by
        rw [ins.size_result, hplace, Insertion.place]
        split_ifs <;> omega
      simp [halted, hend]
    refine .inr ⟨move_of_halted hhalted, move_of_halted hother, ?_⟩
    rw [verdict_of_halted hhalted, verdict_of_halted hother, h.alike.memory_eq,
      h.alike.failure_left, h.alike.failure_right]
  · exact h.step (by simpa using hhalted)

end Machine

/-! ### Runs with and without the block -/

namespace Session

variable {config : Config} {s : Session} {ins : Insertion} {index other : BracketIndex}
  {listing longer : Listing} {input : Input} {output : Output}

/-- The program and the program with the block in it are run alike: one run comes to an end exactly
if the other does, and then with the same failure or fault, the same pointer and tape, and the same
left in all sources and sinks. Unless the input cannot be opened, the run with the block ends at the
new place of the position where the other one ends. -/
def RunsLikeInserted (s : Session) (ins : Insertion) (listing longer : Listing) (input : Input)
    (output : Output) : Prop :=
  ((∃ fuel outcome, s.run fuel listing input output = some outcome) ↔
    ∃ fuel outcome, s.run fuel longer input output = some outcome) ∧
  ∀ fuel bound next last answer result,
    s.run fuel listing input output = some (next, answer) →
    s.run bound longer input output = some (last, result) →
    next.SameEnd last ∧
    (∃ steps, result = answer.map (.relocate ins.place fun _ ↦ steps)) ∧
    ((∀ cause, answer ≠ .error (.source cause)) → last.engine.pc = ins.place next.engine.pc)

/-- An input that cannot be opened keeps both from running. -/
theorem runsLikeInserted_of_not_opened {cause : SourceError}
    (hlisting : listing.toProgram = .ok ins.program) (hlonger : longer.toProgram = .ok ins.result)
    (hindex : BracketIndex.build ins.program = .ok index)
    (hother : BracketIndex.build ins.result = .ok other)
    (hopened : s.devices.openSource input = .error cause) :
    s.RunsLikeInserted ins listing longer input output := by
  have hrun := run_eq_install ⟨ins.program, index⟩ hlisting hindex hopened output
  have hrunLonger := run_eq_install ⟨ins.result, other⟩ hlonger hother hopened output
  refine ⟨⟨fun _ ↦ ⟨0, _, hrunLonger 0⟩, fun _ ↦ ⟨0, _, hrun 0⟩⟩, ?_⟩
  intro fuel bound next last answer result hnext hlast
  rw [hrun] at hnext
  rw [hrunLonger] at hlast
  cases hnext
  cases hlast
  exact ⟨⟨rfl, rfl, rfl, rfl⟩, ⟨0, rfl⟩, fun hnot ↦ absurd rfl (hnot cause)⟩

theorem runsLikeInserted_of_opened {devices : Devices} {source : Source}
    (hs : s.engine.Sound config) (hlisting : listing.toProgram = .ok ins.program)
    (hlonger : longer.toProgram = .ok ins.result)
    (hindex : BracketIndex.build ins.program = .ok index)
    (hother : BracketIndex.build ins.result = .ok other)
    (hopened : s.devices.openSource input = .ok (devices, source)) :
    s.RunsLikeInserted ins listing longer input output := by
  have hload := load_eq_start ⟨ins.program, index⟩ hlisting hindex hopened output
  have hloadLonger := load_eq_start ⟨ins.result, other⟩ hlonger hother hopened output
  obtain ⟨hpc, -, hfailure⟩ := registers_of_load hload
  obtain ⟨hpcLonger, -, hfailureLonger⟩ := registers_of_load hloadLonger
  have hsafe := (safe_of_load hs hload).2
  have hsafeLonger := (safe_of_load hs hloadLonger).2
  obtain ⟨arrived, hreach, hbeside⟩ := Machine.Beside.of_meets hsafe hsafeLonger
    ⟨by rw [start_memory, start_memory], hfailure, hfailureLonger⟩
    (by simpa only [machine, hpc, hpcLonger] using ins.meets_zero)
  have hsimulates := Machine.simulates_beside ins index other
  constructor
  · rw [exists_run_iff_of_load hsafe hload, exists_run_iff_of_load hsafeLonger hloadLonger]
    exact hsimulates.ends_iff hbeside hreach
  · intro fuel bound next last answer result hrun hrunLonger
    obtain ⟨outcome, hends, rfl, rfl⟩ := ends_of_run hsafe hload hrun
    obtain ⟨different, hendsLonger, rfl, rfl⟩ := ends_of_run hsafeLonger hloadLonger hrunLonger
    obtain ⟨hverdict, final, finalLonger, hfinal, hpcFinal, -, hpcFinalLonger, -⟩ :=
      hsimulates.outcomes hbeside hreach hends hendsLonger
    have hpcs : different.1.pc = ins.place outcome.1.pc := by
      rw [hpcFinalLonger, hfinal.pc_eq, hpcFinal]
    exact ⟨sameEnd_finish hverdict (devices_finish _ _ rfl rfl rfl hverdict),
      ⟨different.1.steps, finish_relocate _ _ _ _ hverdict hpcs rfl⟩, fun _ ↦ hpcs⟩

/-- Whole turns of a cell do nothing. Put a block of `+` and `-` into a program, at any position, of
which the one count less the other is a multiple of 256. The longer program is turned away exactly
if the program is, and then for the same brackets, of which those from the block on are reported
further back by its length. An accepted program is run alike with the block and without it, from
every tape and pointer, with every input and output and by either strategy. -/
theorem whole_turns_do_nothing {config : Config} {s : Session} {listing longer : Listing}
    (ins : Insertion) (hs : s.engine.Sound config)
    (hlisting : listing.toProgram = .ok ins.program) (hlonger : longer.toProgram = .ok ins.result)
    (input : Input) (output : Output) :
    ((∃ failure, BracketIndex.build ins.program = .error failure) ↔
      ∃ failure, BracketIndex.build ins.result = .error failure) ∧
    (∀ failure, BracketIndex.build ins.program = .error failure →
      BracketIndex.build ins.result = .error (failure.renumber ins.place)) ∧
    ((∃ index, BracketIndex.build ins.program = .ok index) →
      s.RunsLikeInserted ins listing longer input output) := by
  refine ⟨?_, fun failure h ↦ ins.build_result_of_error h, ?_⟩
  · constructor
    · rintro ⟨failure, h⟩
      exact ⟨_, ins.build_result_of_error h⟩
    · rintro ⟨failure, h⟩
      cases hprogram : BracketIndex.build ins.program with
      | error cause => exact ⟨cause, rfl⟩
      | ok index =>
        obtain ⟨other, hother⟩ := ins.exists_build_result hprogram
        rw [hother] at h
        cases h
  · rintro ⟨index, hindex⟩
    obtain ⟨other, hother⟩ := ins.exists_build_result hindex
    cases hopened : s.devices.openSource input with
    | error cause =>
      exact runsLikeInserted_of_not_opened hlisting hlonger hindex hother hopened
    | ok opened =>
      exact runsLikeInserted_of_opened hs hlisting hlonger hindex hother hopened

/-- `,[.-]` writes a 2 and a 1. With `-+` before the closing bracket, where the cell goes below zero
and comes back in the last round, it does the same and ends two positions further back. The bracket
of `-+[` is reported two positions behind that of `[`. -/
theorem whole_turns_do_nothing_below_zero :
    let s : Session := .new ⟨1, by decide, true, true⟩ .empty
    s.engine.Sound s.engine.config ∧
    BracketIndex.build (Program.ofText "-+[") = .error (.unclosedOpens [2]) ∧
    ∃ next last, s.run 30 (.given (.text ",[.-]")) (.bytes [2]) .none =
        some (next, .ok ⟨none, 5, 0, 8⟩) ∧
      (∃ bound steps, s.run bound (.given (.text ",[.--+]")) (.bytes [2]) .none =
        some (last, .ok ⟨none, 7, 0, steps⟩)) ∧
      next.SameEnd last ∧ next.written = #[2, 1] := by
  intro s
  have hs : s.engine.Sound s.engine.config := .new s.engine.config _
  let inside : Insertion :=
    ⟨Program.ofText ",[.-]", 4, ['-', '+'], by decide, by simp, 0, rfl⟩
  let front : Insertion := ⟨Program.ofText "[", 0, ['-', '+'], by decide, by simp, 0, rfl⟩
  have hlisting : (Listing.given (.text ",[.-]")).toProgram = .ok inside.program := rfl
  have hlonger : (Listing.given (.text ",[.--+]")).toProgram = .ok inside.result := by
    decide +kernel
  have hopen : (Listing.given (.text "[")).toProgram = .ok front.program := rfl
  have hbehind : (Listing.given (.text "-+[")).toProgram = .ok front.result := by decide +kernel
  have hbuild : BracketIndex.build inside.program =
      .ok ⟨#[none, some 4, none, none, some 1]⟩ := by decide +kernel
  have hrejected : BracketIndex.build front.program = .error (.unclosedOpens [0]) := by
    decide +kernel
  let first := (s.run 30 (.given (.text ",[.-]")) (.bytes [2]) .none).get (by decide +kernel)
  have hfirst : s.run 30 (.given (.text ",[.-]")) (.bytes [2]) .none =
      some (first.1, .ok ⟨none, 5, 0, 8⟩) := by decide +kernel
  obtain ⟨hends, halike⟩ :=
    (whole_turns_do_nothing inside hs hlisting hlonger (.bytes [2]) .none).2.2 ⟨_, hbuild⟩
  obtain ⟨bound, ⟨last, result⟩, hlast⟩ := hends.mp ⟨30, _, hfirst⟩
  obtain ⟨hsame, ⟨steps, hresult⟩, -⟩ := halike 30 bound _ last _ result hfirst hlast
  refine ⟨hs, ?_, first.1, last, hfirst, ⟨bound, steps, ?_⟩, hsame, by decide +kernel⟩
  · exact (whole_turns_do_nothing front hs hopen hbehind .none .none).2.1 _ hrejected
  · rw [hlast, hresult]
    rfl

end Session

end TapeMachine
