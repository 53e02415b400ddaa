import TapeMachine.Proofs.Isolation

/-!
Comments do nothing. Without its comments a text is shorter, and every position in it moves to the
number of commands before it (`commandsBefore`). This keeps heights (`height_filter`), so stretches
that are level, pairs of brackets and brackets that stay open move along with their positions, and
the scan of the shorter text fails where, and as, the scan of the text fails
(`build_commands_of_error`).

A machine in the text stands still, as far as the shorter text is concerned, while it passes over
comments, and there is an end to that (`Abridges.skip`). Before a command both machines do the same
(`Abridges.step`). So the runs end alike, after as many steps in the shorter text as there were
steps with commands in the text itself (`commandSteps`).
-/

set_option autoImplicit false
set_option relaxedAutoImplicit false

namespace TapeMachine

open StateTransition Matching Command

theorem Command.ofChar_eq_comment {c : Char} (h : isCommandChar c = false) :
    ofChar c = .comment := by
  have halphabet : alphabet.toList = ['+', '-', '<', '>', ',', '.', '[', ']'] := by decide
  simp only [isCommandChar, halphabet, List.contains_cons, Bool.or_eq_false_iff,
    beq_eq_false_iff_ne] at h
  simp [ofChar, h]

/-! ### Positions among the commands -/

/-- The number of commands before a position of a text. -/
def commandsBefore (text : List Char) (position : ℕ) : ℕ :=
  (text.take position).countP isCommandChar

section Text

variable {text : List Char} {position first last : ℕ} {c : Char}

theorem filter_eq_append (text : List Char) (position : ℕ) :
    text.filter isCommandChar =
      (text.take position).filter isCommandChar ++ (text.drop position).filter isCommandChar := by
  rw [← List.filter_append, List.take_append_drop]

theorem take_commandsBefore (text : List Char) (position : ℕ) :
    (text.filter isCommandChar).take (commandsBefore text position) =
      (text.take position).filter isCommandChar := by
  rw [filter_eq_append text position, commandsBefore, List.countP_eq_length_filter]
  exact List.take_left

theorem commandsBefore_length (text : List Char) :
    commandsBefore text text.length = (text.filter isCommandChar).length := by
  rw [commandsBefore, List.take_length, List.countP_eq_length_filter]

theorem commandsBefore_mono (text : List Char) : Monotone (commandsBefore text) :=
  fun _ _ hle ↦ (List.take_sublist_take_left hle).countP_le

theorem commandsBefore_succ (h : text[position]? = some c) :
    commandsBefore text (position + 1) =
      commandsBefore text position + if isCommandChar c then 1 else 0 := by
  rw [commandsBefore, List.take_add_one, h, List.countP_append, Option.toList_some,
    List.countP_singleton]
  rfl

theorem commandsBefore_succ_of_command (h : text[position]? = some c)
    (hc : isCommandChar c = true) :
    commandsBefore text (position + 1) = commandsBefore text position + 1 := by
  rw [commandsBefore_succ h, if_pos hc]

theorem commandsBefore_succ_le (text : List Char) (position : ℕ) :
    commandsBefore text (position + 1) ≤ commandsBefore text position + 1 := by
  rw [commandsBefore, List.take_add_one, List.countP_append]
  have hone : text[position]?.toList.countP isCommandChar ≤ 1 :=
    List.countP_le_length.trans (by cases text[position]? <;> simp)
  exact Nat.add_le_add_left hone _

/-- Every number of commands is reached on the way, as a position adds at most one. -/
theorem exists_commandsBefore_eq {number : ℕ} (hle : first ≤ last)
    (hfirst : commandsBefore text first ≤ number) (hlast : number ≤ commandsBefore text last) :
    ∃ position, first ≤ position ∧ position ≤ last ∧ commandsBefore text position = number := by
  induction last, hle using Nat.le_induction with
  | base => exact ⟨first, le_rfl, le_rfl, Nat.le_antisymm hfirst hlast⟩
  | succ last hle ih =>
    by_cases hreached : number ≤ commandsBefore text last
    · obtain ⟨position, hbefore, hafter, heq⟩ := ih hreached
      exact ⟨position, hbefore, by omega, heq⟩
    · have hone := commandsBefore_succ_le text last
      exact ⟨last + 1, by omega, le_rfl, by omega⟩

theorem getElem?_filter (h : text[position]? = some c) (hc : isCommandChar c = true) :
    (text.filter isCommandChar)[commandsBefore text position]? = some c := by
  obtain ⟨hlt, hget⟩ := List.getElem?_eq_some_iff.mp h
  have hrest : (text.drop position).filter isCommandChar =
      c :: (text.drop (position + 1)).filter isCommandChar := by
    rw [List.drop_eq_getElem_cons hlt, hget, List.filter_cons_of_pos hc]
  rw [filter_eq_append text position, hrest, commandsBefore, List.countP_eq_length_filter,
    List.getElem?_append_right le_rfl, Nat.sub_self, List.getElem?_cons_zero]

/-! ### Brackets among the commands -/

theorem height_filter (text : List Char) (position : ℕ) :
    height (text.filter isCommandChar) (commandsBefore text position) = height text position := by
  unfold height
  rw [take_commandsBefore, List.count_filter (by decide), List.count_filter (by decide)]

theorem level_filter_iff (hle : first ≤ last) :
    Level (text.filter isCommandChar) (commandsBefore text first) (commandsBefore text last) ↔
      Level text first last := by
  constructor
  · intro h
    refine ⟨hle, ?_, ?_⟩
    · rw [← height_filter, h.back, height_filter]
    · intro position hfirst hlast
      have habove := h.above _ (commandsBefore_mono text hfirst) (commandsBefore_mono text hlast)
      rwa [height_filter, height_filter] at habove
  · intro h
    refine ⟨commandsBefore_mono text hle, ?_, ?_⟩
    · rw [height_filter, h.back, height_filter]
    · intro number hfirst hlast
      obtain ⟨position, hbefore, hafter, rfl⟩ := exists_commandsBefore_eq hle hfirst hlast
      rw [height_filter, height_filter]
      exact h.above position hbefore hafter

theorem balanced_filter_iff : Balanced (text.filter isCommandChar) ↔ Balanced text := by
  rw [balanced_iff_level, balanced_iff_level, ← commandsBefore_length]
  exact level_filter_iff (Nat.zero_le _)

theorem Matching.Pairs.filter (h : Pairs text first last) :
    Pairs (text.filter isCommandChar) (commandsBefore text first) (commandsBefore text last) := by
  refine ⟨getElem?_filter h.opens (by decide), getElem?_filter h.closes (by decide), ?_⟩
  rw [← commandsBefore_succ_of_command h.opens (by decide)]
  exact (level_filter_iff h.level.le).mpr h.level

theorem Matching.Opens.filter {stack : List ℕ} (h : Opens text position stack) :
    Opens (text.filter isCommandChar) (commandsBefore text position)
      (stack.map (commandsBefore text)) := by
  induction stack generalizing position with
  | nil => exact (level_filter_iff (Nat.zero_le _)).mpr h
  | cons start stack ih =>
    obtain ⟨hopen, hlevel, hstack⟩ := h
    refine ⟨getElem?_filter hopen (by decide), ?_, ih hstack⟩
    rw [← commandsBefore_succ_of_command hopen (by decide)]
    exact (level_filter_iff hlevel.le).mpr hlevel

end Text

/-! ### The scan without comments -/

/-- The failure with other positions of brackets in it. -/
def Failure.renumber (place : ℤ → ℤ) : Failure → Failure
  | .unmatchedClose position => .unmatchedClose (place position)
  | .unclosedOpens positions => .unclosedOpens (positions.map place)
  | .outOfBounds pointer direction => .outOfBounds pointer direction
  | .inputExhausted pointer => .inputExhausted pointer
  | .unspecified => .unspecified

namespace Program

variable {program : Program}

/-- Where a position of the program is among its commands. -/
def placeAmongCommands (program : Program) (position : ℤ) : ℤ :=
  commandsBefore program.chars.toList position.toNat

theorem placeAmongCommands_succ {position : ℕ} {c : Char}
    (h : program.chars.toList[position]? = some c) :
    program.placeAmongCommands (position + 1) =
      program.placeAmongCommands position + if isCommandChar c then 1 else 0 := by
  have hsucc : program.placeAmongCommands (position + 1) =
      commandsBefore program.chars.toList (position + 1) := rfl
  rw [hsucc, commandsBefore_succ h]
  split_ifs
  · rfl
  · rfl

theorem toList_commands (program : Program) :
    program.commands.chars.toList = program.chars.toList.filter isCommandChar :=
  Array.toList_filter

theorem size_commands (program : Program) :
    program.commands.size = commandsBefore program.chars.toList program.size := by
  have hlength : program.chars.toList.length = program.size := Array.length_toList
  rw [← hlength, commandsBefore_length, ← toList_commands]
  exact Array.length_toList.symm

theorem exists_build_commands_iff :
    (∃ index, BracketIndex.build program.commands = .ok index) ↔
      ∃ index, BracketIndex.build program = .ok index := by
  rw [build_isOk_iff_balanced, build_isOk_iff_balanced, toList_commands, balanced_filter_iff]

/-- Without its comments, a program is turned away for the same brackets. -/
theorem build_commands_of_error {failure : Failure}
    (h : BracketIndex.build program = .error failure) :
    BracketIndex.build program.commands =
      .error (failure.renumber program.placeAmongCommands) := by
  rcases build_cases program with ⟨index, heq, -⟩ | ⟨finish, heq, hclose, hlevel⟩ |
    ⟨left, partners, heq, hne, hscanned⟩
  · rw [heq] at h
    cases h
  · rw [heq] at h
    cases h
    apply build_eq_unmatchedClose_iff.mpr
    rw [toList_commands]
    exact ⟨getElem?_filter hclose (by decide), (level_filter_iff (Nat.zero_le _)).mpr hlevel⟩
  · rw [heq] at h
    cases h
    have hopens := hscanned.opens.filter
    rw [commandsBefore_length, ← toList_commands] at hopens
    rw [build_eq_unclosedOpens (by simpa using hne) hopens]
    simp [Failure.renumber, placeAmongCommands, Function.comp_def]

/-- A bracket among the commands has the partner that it has in the program, and the partner is a
command. -/
theorem partner?_commands {index brief : BracketIndex}
    (hindex : BracketIndex.build program = .ok index)
    (hbrief : BracketIndex.build program.commands = .ok brief) {i j : ℕ}
    (h : index.partner? (i : ℤ) = some (j : ℤ)) :
    brief.partner? (program.placeAmongCommands i) = some (program.placeAmongCommands j) ∧
      program.placeAmongCommands (j + 1) = program.placeAmongCommands j + 1 := by
  rw [partner?_eq_some_iff hindex] at h
  refine ⟨(partner?_eq_some_iff hbrief).mpr ?_, ?_⟩
  · rw [toList_commands]
    exact h.imp Pairs.filter Pairs.filter
  · rcases h with hpair | hpair
    · exact placeAmongCommands_succ hpair.closes
    · exact placeAmongCommands_succ hpair.opens

end Program

/-! ### Steps with commands -/

namespace Machine

variable {brief code : Code} {start m n next : Machine} {c : Char}

/-- The machine is about to carry out a command, not to pass over a comment. -/
def atCommand (code : Code) (m : Machine) : Bool :=
  (code.program.get? m.pc).any isCommandChar

/-- How many of the first steps of a run carry out a command. -/
def commandSteps (code : Code) (number : ℕ) (m : Machine) : ℕ :=
  (List.range number).countP fun k ↦ (m.after code k).atCommand code

theorem commandSteps_succ (code : Code) (number : ℕ) (m : Machine) :
    m.commandSteps code (number + 1) =
      m.commandSteps code number + if (m.after code number).atCommand code then 1 else 0 := by
  unfold commandSteps
  rw [List.range_succ, List.countP_append, List.countP_singleton]

theorem commandSteps_of_move (h : Reaches (move code) start n)
    (hmove : n.move code = some next) :
    start.commandSteps code (next.steps - start.steps) =
      start.commandSteps code (n.steps - start.steps) + if n.atCommand code then 1 else 0 := by
  rw [steps_sub_of_move h hmove, commandSteps_succ,
    after_of_reaches h (running_of_move hmove)]

/-! ### Side by side with the commands -/

/-- The first machine runs the commands of the code that the second one runs from its start: with
the same memory, at the place of its position among the commands, and after as many steps as carried
out a command. -/
structure Abridges (brief code : Code) (start m n : Machine) : Prop where
  safe : m.Safe brief
  safe_full : n.Safe code
  alike : Alike m n
  pc_eq : m.pc = code.program.placeAmongCommands n.pc
  reaches : Reaches (move code) start n
  steps_eq : m.steps = start.commandSteps code (n.steps - start.steps)

/-- Unless the run is over, the machine stands before a command. -/
def Settled (code : Code) (m : Machine) : Prop :=
  m.halted code = false → m.atCommand code = true

theorem atCommand_eq (hc : code.program.get? m.pc = some c) :
    m.atCommand code = isCommandChar c := by
  unfold atCommand
  rw [hc, Option.any_some]

namespace Abridges

/-- A comment is passed over, and nothing is different among the commands. -/
theorem pass (h : Abridges brief code start m n) (hrun : n.halted code = false)
    (hcomment : n.atCommand code = false) :
    ∃ next, n.move code = some next ∧ next.pc = n.pc + 1 ∧
      Abridges brief code start m next := by
  obtain ⟨position, c, hposition, hc, hget⟩ := h.safe_full.fetch hrun
  rw [atCommand_eq hget] at hcomment
  have hmove : n.move code = some (n.goOn n.memory (n.pc + 1)) := by
    rw [move_eq hrun hget, ofChar_eq_comment hcomment]
    rfl
  refine ⟨_, hmove, rfl, h.safe, (h.safe_full.move hmove).1,
    ⟨h.alike.memory_eq, h.alike.failure_left, h.alike.failure_right⟩, ?_, h.reaches.tail hmove, ?_⟩
  · change m.pc = code.program.placeAmongCommands (n.pc + 1)
    rw [hposition, Program.placeAmongCommands_succ hc, if_neg (by simp [hcomment]), Int.add_zero,
      ← hposition]
    exact h.pc_eq
  · rw [commandSteps_of_move h.reaches hmove, atCommand_eq hget, if_neg (by simp [hcomment]),
      Nat.add_zero]
    exact h.steps_eq

/-- There is an end to comments: the machine comes to a command or to the end of the code. -/
theorem skip (h : Abridges brief code start m n) :
    ∃ other, Reaches (move code) n other ∧ Abridges brief code start m other ∧
      other.Settled code := by
  -- The induction is on the length of the text that is left.
  induction hleft : (code.program.size - n.pc).toNat generalizing n with
  | zero =>
    refine ⟨n, .refl, h, fun hrun ↦ ?_⟩
    have hlt := pc_lt_of_running hrun
    omega
  | succ left ih =>
    by_cases hsettled : n.Settled code
    · exact ⟨n, .refl, h, hsettled⟩
    · obtain ⟨hrun, hcomment⟩ := Classical.not_imp.mp hsettled
      obtain ⟨next, hmove, hpc, hnext⟩ := h.pass hrun (by simpa using hcomment)
      obtain ⟨other, hreach, hother⟩ := ih hnext (by omega)
      exact ⟨other, .head hmove hreach, hother⟩

/-- At the end of the code the commands have come to an end, too. -/
theorem halted (h : Abridges brief code start m n)
    (hbrief : brief.program = code.program.commands) (hhalted : n.halted code = true) :
    m.halted brief = true := by
  have hover : (code.program.size : ℤ) ≤ n.pc := by
    simpa [Machine.halted, h.alike.failure_right] using hhalted
  have hpc : n.pc = code.program.size := Int.le_antisymm h.safe_full.pc_le hover
  have hplace : m.pc = brief.program.size := by
    rw [h.pc_eq, hpc, hbrief, Program.size_commands]
    rfl
  simp [Machine.halted, hplace]

/-- Before a command both machines do the same. -/
theorem step (h : Abridges brief code start m n)
    (hbrief : brief.program = code.program.commands) (hsettled : n.Settled code) :
    (∃ m' n', m.move brief = some m' ∧ n.move code = some n' ∧
      Abridges brief code start m' n') ∨
    (m.move brief = none ∧ n.move code = none ∧
      verdict (m.conclude brief) = verdict (n.conclude code)) := by
  by_cases hhalted : n.halted code = true
  · have hother := h.halted hbrief hhalted
    refine .inr ⟨move_of_halted hother, move_of_halted hhalted, ?_⟩
    rw [verdict_of_halted hother, verdict_of_halted hhalted, h.alike.memory_eq,
      h.alike.failure_left, h.alike.failure_right]
  have hrun : n.halted code = false := by simpa using hhalted
  have hcommand := hsettled hrun
  obtain ⟨position, c, hposition, hc, hget⟩ := h.safe_full.fetch hrun
  have hchar := hcommand
  rw [atCommand_eq hget] at hchar
  have hplace : m.pc = commandsBefore code.program.chars.toList position := by
    rw [h.pc_eq, hposition]
    rfl
  have hother : brief.program.get? m.pc = some c := by
    rw [hplace]
    apply get?_natCast
    rw [hbrief, Program.toList_commands]
    exact getElem?_filter hc hchar
  have hnext {s : Memory} {i j : ℤ} (hm : m.move brief = some (m.goOn s i))
      (hn : n.move code = some (n.goOn s j)) (hij : i = code.program.placeAmongCommands j) :
      Abridges brief code start (m.goOn s i) (n.goOn s j) := by
    refine ⟨(h.safe.move hm).1, (h.safe_full.move hn).1, h.alike.goOn s i j, hij,
      h.reaches.tail hn, ?_⟩
    rw [commandSteps_of_move h.reaches hn, if_pos hcommand, ← h.steps_eq]
    rfl
  rcases h.safe.mirror h.safe_full h.alike hother hget with
    ⟨s, hm, hn⟩ | ⟨i, j, hi, hj, hm, hn⟩ | hends
  · refine .inl ⟨_, _, hm, hn, hnext hm hn ?_⟩
    rw [hposition, Program.placeAmongCommands_succ hc, if_pos hchar, ← hposition, h.pc_eq]
  · rw [hposition] at hj
    obtain ⟨hpartner, hsucc⟩ :=
      Program.partner?_commands h.safe_full.built (hbrief ▸ h.safe.built) hj
    rw [h.pc_eq, hposition, hpartner, Option.some.injEq] at hi
    exact .inl ⟨_, _, hm, hn, hnext hm hn (by rw [hsucc, hi])⟩
  · exact .inr hends

end Abridges

/-- The commands alone do what the code does. -/
theorem simulates_abridges (hbrief : brief.program = code.program.commands) (start : Machine) :
    Simulates brief code fun m n ↦ Abridges brief code start m n ∧ n.Settled code := by
  rintro m n ⟨h, hsettled⟩
  rcases h.step hbrief hsettled with ⟨m', n', hm, hn, hnext⟩ | hends
  · obtain ⟨other, hreach, hother⟩ := hnext.skip
    exact .inl ⟨m', other, hm, .head' hn hreach, hother⟩
  · exact .inr hends

end Machine

/-! ### Runs without comments -/

namespace Session

variable {config : Config} {s ready other : Session} {brief code : Code}
  {listing filtered : Listing} {input : Input} {output : Output}

/-- How many of the first steps of a run carry out a command. -/
def commandSteps (s : Session) (listing : Listing) (input : Input) (output : Output)
    (number : ℕ) : ℕ :=
  match s.load listing input output with
  | (ready, .ok (.ok code)) => ready.machine.commandSteps code number
  | _ => 0

/-- Two sessions that are ready to run with the same memory, one of them the commands of the code of
the other, run side by side. -/
theorem abridges_of_load (hs : s.engine.Sound config)
    (hload : s.load listing input output = (ready, .ok (.ok code)))
    (hother : s.load filtered input output = (other, .ok (.ok brief)))
    (hmemory : ready.machine.memory = other.machine.memory) :
    Machine.Abridges brief code ready.machine other.machine ready.machine := by
  obtain ⟨hpc, -, hfailure⟩ := registers_of_load hload
  obtain ⟨hpcOther, hstepsOther, hfailureOther⟩ := registers_of_load hother
  refine ⟨(safe_of_load hs hother).2, (safe_of_load hs hload).2,
    ⟨hmemory, hfailureOther, hfailure⟩, ?_, .refl, ?_⟩
  · change other.engine.pc = code.program.placeAmongCommands ready.engine.pc
    rw [hpcOther, hpc]
    rfl
  · rw [Nat.sub_self]
    exact hstepsOther

/-- The program and its commands alone are run alike: one run comes to an end exactly if the other
does, and then with the same failure, pointer and tape and with the same left in all sources and
sinks. The run of the commands ends at the place among the commands where the other one ends, after
as many steps as carried out a command. -/
def RunsLikeCommands (s : Session) (program : Program) (listing filtered : Listing)
    (input : Input) (output : Output) : Prop :=
  ((∃ fuel outcome, s.run fuel listing input output = some outcome) ↔
    ∃ fuel outcome, s.run fuel filtered input output = some outcome) ∧
  ∀ fuel bound next last answer result,
    s.run fuel listing input output = some (next, answer) →
    s.run bound filtered input output = some (last, result) →
    next.SameEnd last ∧ last.engine.pc = program.placeAmongCommands next.engine.pc ∧
      last.engine.steps = s.commandSteps listing input output next.engine.steps ∧
      result = answer.map
        (.relocate program.placeAmongCommands (s.commandSteps listing input output))

/-- An input that cannot be opened keeps both from running. -/
theorem runsLikeCommands_of_not_opened {cause : SourceError} (brief code : Code)
    (hlisting : listing.toProgram = .ok code.program)
    (hfiltered : filtered.toProgram = .ok brief.program)
    (hcode : BracketIndex.build code.program = .ok code.index)
    (hbuild : BracketIndex.build brief.program = .ok brief.index)
    (hopened : s.devices.openSource input = .error cause) :
    s.RunsLikeCommands code.program listing filtered input output := by
  have hload := load_eq_install code hlisting hcode hopened output
  have hrun := run_eq_install code hlisting hcode hopened output
  have hrunOther := run_eq_install brief hfiltered hbuild hopened output
  refine ⟨⟨fun _ ↦ ⟨0, _, hrunOther 0⟩, fun _ ↦ ⟨0, _, hrun 0⟩⟩, ?_⟩
  intro fuel bound next last answer result hnext hlast
  rw [hrun] at hnext
  rw [hrunOther] at hlast
  cases hnext
  cases hlast
  obtain ⟨hpc, hsteps, -⟩ := s.engine.rewind_registers
  refine ⟨⟨rfl, rfl, rfl, rfl⟩, ?_, ?_, rfl⟩
  · change s.engine.rewind.pc = code.program.placeAmongCommands s.engine.rewind.pc
    rw [hpc]
    rfl
  · simp only [commandSteps, hload]
    exact hsteps

theorem runsLikeCommands_of_opened {devices : Devices} {source : Source} (brief code : Code)
    (hs : s.engine.Sound config) (hbrief : brief.program = code.program.commands)
    (hlisting : listing.toProgram = .ok code.program)
    (hfiltered : filtered.toProgram = .ok brief.program)
    (hcode : BracketIndex.build code.program = .ok code.index)
    (hbuild : BracketIndex.build brief.program = .ok brief.index)
    (hopened : s.devices.openSource input = .ok (devices, source)) :
    s.RunsLikeCommands code.program listing filtered input output := by
  have hload := load_eq_start code hlisting hcode hopened output
  have hother := load_eq_start brief hfiltered hbuild hopened output
  have habridges := abridges_of_load hs hload hother (by rw [start_memory, start_memory])
  obtain ⟨settled, hreach, hsettled⟩ := habridges.skip
  have hsimulates := Machine.simulates_abridges hbrief
    (s.start code devices source output).machine
  constructor
  · rw [exists_run_iff_of_load habridges.safe_full hload,
      exists_run_iff_of_load habridges.safe hother]
    exact (hsimulates.ends_iff hsettled hreach).symm
  · intro fuel bound next last answer result hrun hrunOther
    obtain ⟨outcome, hends, rfl, rfl⟩ := ends_of_run habridges.safe_full hload hrun
    obtain ⟨different, hendsOther, rfl, rfl⟩ := ends_of_run habridges.safe hother hrunOther
    obtain ⟨hverdict, final, finalFull, ⟨hfinal, -⟩, hpc, hsteps, hpcFull, hstepsFull⟩ :=
      hsimulates.outcomes hsettled hreach hendsOther hends
    have hpcs : different.1.pc = code.program.placeAmongCommands outcome.1.pc := by
      rw [hpc, hfinal.pc_eq, hpcFull]
    have hclocks : different.1.steps = s.commandSteps listing input output outcome.1.steps := by
      have hzero : (s.start code devices source output).machine.steps = 0 :=
        (registers_of_load hload).2.1
      rw [hsteps, hfinal.steps_eq, hstepsFull, hzero, Nat.sub_zero]
      simp only [commandSteps, hload]
    exact ⟨sameEnd_finish hverdict.symm (devices_finish _ _ rfl rfl rfl hverdict.symm), hpcs,
      hclocks, finish_relocate _ _ _ _ hverdict.symm hpcs hclocks⟩

/-- Comments do nothing. A program is turned away exactly if its commands alone are, and then for
the same brackets, at their places among the commands. An accepted program and its commands alone
are run alike, from every tape and pointer and with every input and output. -/
theorem comments_do_nothing {config : Config} {s : Session} {program : Program}
    {listing filtered : Listing} (hs : s.engine.Sound config)
    (hlisting : listing.toProgram = .ok program)
    (hfiltered : filtered.toProgram = .ok program.commands) (input : Input) (output : Output) :
    ((∃ failure, BracketIndex.build program = .error failure) ↔
      ∃ failure, BracketIndex.build program.commands = .error failure) ∧
    (∀ failure, BracketIndex.build program = .error failure →
      BracketIndex.build program.commands =
        .error (failure.renumber program.placeAmongCommands)) ∧
    ((∃ index, BracketIndex.build program = .ok index) →
      s.RunsLikeCommands program listing filtered input output) := by
  refine ⟨?_, fun failure h ↦ Program.build_commands_of_error h, ?_⟩
  · constructor
    · rintro ⟨failure, h⟩
      exact ⟨_, Program.build_commands_of_error h⟩
    · rintro ⟨failure, h⟩
      cases hprogram : BracketIndex.build program with
      | error cause => exact ⟨cause, rfl⟩
      | ok index =>
        obtain ⟨brief, hbrief⟩ := Program.exists_build_commands_iff.mpr ⟨index, hprogram⟩
        rw [hbrief] at h
        cases h
  · rintro ⟨index, hindex⟩
    obtain ⟨brief, hbuild⟩ := Program.exists_build_commands_iff.mpr ⟨index, hindex⟩
    cases hopened : s.devices.openSource input with
    | error cause =>
      exact runsLikeCommands_of_not_opened ⟨_, brief⟩ ⟨program, index⟩ hlisting hfiltered hindex
        hbuild hopened
    | ok opened =>
      exact runsLikeCommands_of_opened ⟨_, brief⟩ ⟨program, index⟩ hs rfl hlisting hfiltered hindex
        hbuild hopened

/-- `a+[b-]c.<` fails at its last character after eight steps, of which five carry out a command: so
the run of `+[-].<` fails after five steps. The bracket at the end of `a]` has the first place among
the commands. -/
theorem comments_do_nothing_up_to_a_failure :
    let s : Session :=
      { engine := ⟨⟨2, by decide, true, true⟩, #[0, 3], 0, 0, 0, none, none, ⟨.bytes, 0⟩,
          ⟨.buffer, 0⟩⟩
        devices := .empty
        journal := #[] }
    s.engine.Sound s.engine.config ∧
    BracketIndex.build (Program.ofText "]") = .error (.unmatchedClose 0) ∧
    ∃ next last, s.run 30 (.given (.text "a+[b-]c.<")) .none .none =
        some (next, .ok ⟨some (.outOfBounds 0 .left), 8, 0, 8⟩) ∧
      (∃ bound, s.run bound (.given (.text "+[-].<")) .none .none =
        some (last, .ok ⟨some (.outOfBounds 0 .left), 5, 0, 5⟩)) ∧
      next.SameEnd last := by
  intro s
  have hs : s.engine.Sound s.engine.config := by
    refine ⟨rfl, rfl, by decide, by decide, ?_, ?_, ?_⟩ <;> intro code hcode <;> cases hcode
  have hlisting : (Listing.given (.text "a+[b-]c.<")).toProgram =
      .ok (Program.ofText "a+[b-]c.<") := rfl
  have hfiltered : (Listing.given (.text "+[-].<")).toProgram =
      .ok (Program.ofText "a+[b-]c.<").commands := by decide +kernel
  have hbuild : BracketIndex.build (Program.ofText "a+[b-]c.<") =
      .ok ⟨#[none, none, some 5, none, none, some 2, none, none, none]⟩ := by decide +kernel
  have hclose : (Listing.given (.text "a]")).toProgram = .ok (Program.ofText "a]") := rfl
  have hcloses : (Listing.given (.text "]")).toProgram = .ok (Program.ofText "a]").commands := by
    decide +kernel
  have hrejected : BracketIndex.build (Program.ofText "a]") = .error (.unmatchedClose 1) := by
    decide +kernel
  let first := (s.run 30 (.given (.text "a+[b-]c.<")) .none .none).get (by decide +kernel)
  have hfirst : s.run 30 (.given (.text "a+[b-]c.<")) .none .none =
      some (first.1, .ok ⟨some (.outOfBounds 0 .left), 8, 0, 8⟩) := by decide +kernel
  obtain ⟨hends, halike⟩ :=
    (comments_do_nothing hs hlisting hfiltered .none .none).2.2 ⟨_, hbuild⟩
  obtain ⟨bound, ⟨last, result⟩, hlast⟩ := hends.mp ⟨30, _, hfirst⟩
  obtain ⟨hsame, -, -, hresult⟩ := halike 30 bound _ last _ result hfirst hlast
  refine ⟨hs, ?_, first.1, last, hfirst, ⟨bound, ?_⟩, hsame⟩
  · exact (comments_do_nothing hs hclose hcloses .none .none).2.1 _ hrejected
  · have hplace : (Program.ofText "a+[b-]c.<").placeAmongCommands 8 = 5 := by decide +kernel
    have hcount : s.commandSteps (.given (.text "a+[b-]c.<")) .none .none 8 = 5 := by
      decide +kernel
    simp only [hlast, hresult, Except.map, RunResult.relocate, hplace, hcount]

end Session

end TapeMachine
