import TapeMachine.Machine.Sweep
import TapeMachine.Proofs.Transition

/-!
Sweeps carry out the moves of the machine. A sweep is compared with the moves one command at a time
(`Safe.sweepsOne`), and then as a whole (`Safe.sweepFrom_spec`): where it stops is reached by moves,
and a sweep that does not end within its bound has made as many moves. A run by sweeps therefore
ends exactly as a run step by step does (`Safe.dash_eq_some_iff`), however often it stops to read or
write.

A sweep checks none of its indices. `tracedSweep` and `tracedDash` are the same loops with a record
of every array access they make (`tracedSweep_result`, `tracedDash_result`); from a safe machine all
of them are in range, and no jump goes to a missing partner (`Safe.tracedDash_inRange`).
-/

set_option autoImplicit false
set_option relaxedAutoImplicit false

namespace TapeMachine

open StateTransition

/-! ### Array accesses -/

/-- A reading of one of the arrays of a sweep: which entry of how many, and for the partner of a
bracket also the number found there. -/
inductive Access where
  | code (index : ℤ) (size : ℕ)
  | cell (index : ℤ) (size : ℕ)
  | partner (index : ℤ) (size : ℕ) (number : ℤ)
  deriving DecidableEq, Repr

/-- The entry exists, counted from the start, and a partner that is read is not missing. -/
def Access.InRange : Access → Prop
  | .code index size => 0 ≤ index ∧ index < size
  | .cell index size => 0 ≤ index ∧ index < size
  | .partner index size number => 0 ≤ index ∧ index < size ∧ number ≠ BracketIndex.noPartner

/-- A result together with the array accesses made on the way to it. -/
structure Traced (α : Type) where
  accesses : List Access
  result : Option α

namespace Traced

variable {α : Type}

def stop (result : Option α) : Traced α := ⟨[], result⟩

/-- One more access, before the others. -/
def after (access : Access) (traced : Traced α) : Traced α :=
  ⟨access :: traced.accesses, traced.result⟩

/-- Several more accesses, before the others. -/
def afterAll (accesses : List Access) (traced : Traced α) : Traced α :=
  ⟨accesses ++ traced.accesses, traced.result⟩

@[simp] theorem stop_result (result : Option α) : (stop result).result = result := rfl

@[simp] theorem stop_accesses (result : Option α) : (stop result).accesses = [] := rfl

@[simp] theorem after_result (access : Access) (traced : Traced α) :
    (traced.after access).result = traced.result := rfl

end Traced

/-- The access that looks up the partner of a bracket. -/
def BracketIndex.lookup (index : BracketIndex) (position : ℤ) : Access :=
  let entry := entry? index.partners position
  .partner position index.partners.size (entry.join.getD BracketIndex.noPartner)

/-- A sweep with a record of its array accesses. -/
def tracedSweep (codes : Array ℕ) (index : BracketIndex) :
    ℕ → Tape → ℤ → ℤ → ℕ → Traced Swept
  | 0, _, _, _, _ => .stop none
  | fuel + 1, tape, pc, pointer, steps =>
    if (codes.size : ℤ) ≤ pc then .stop (some ⟨tape, .ok ⟨pc, pointer, .finished, steps⟩⟩)
    else
      .after (.code pc codes.size) <|
      match entry? codes pc with
      | none => .stop (some ⟨tape, .error (.ofIndex pc codes.size)⟩)
      | some code =>
        match Command.ofCode code with
        | .moveRight =>
          if pointer + 1 = tape.size then .stop (some ⟨tape, .ok ⟨pc, pointer, .rightEnd, steps⟩⟩)
          else tracedSweep codes index fuel tape (pc + 1) (pointer + 1) (steps + 1)
        | .moveLeft =>
          if pointer = 0 then .stop (some ⟨tape, .ok ⟨pc, pointer, .leftEnd, steps⟩⟩)
          else tracedSweep codes index fuel tape (pc + 1) (pointer - 1) (steps + 1)
        | .increment =>
          .after (.cell pointer tape.size) <|
          match slot? tape.size pointer with
          | some place =>
            tracedSweep codes index fuel (tape.modify place (· + 1)) (pc + 1) pointer (steps + 1)
          | none => .stop (some ⟨tape, .error (.ofIndex pointer tape.size)⟩)
        | .decrement =>
          .after (.cell pointer tape.size) <|
          match slot? tape.size pointer with
          | some place =>
            tracedSweep codes index fuel (tape.modify place (· - 1)) (pc + 1) pointer (steps + 1)
          | none => .stop (some ⟨tape, .error (.ofIndex pointer tape.size)⟩)
        | .write => .stop (some ⟨tape, .ok ⟨pc, pointer, .write, steps⟩⟩)
        | .read => .stop (some ⟨tape, .ok ⟨pc, pointer, .read, steps⟩⟩)
        | .loopStart =>
          .after (.cell pointer tape.size) <|
          match tape.cell pointer with
          | .error fault => .stop (some ⟨tape, .error fault⟩)
          | .ok cell =>
            if cell = 0 then
              .after (index.lookup pc) <|
              match index.jumpTarget pc with
              | .error fault => .stop (some ⟨tape, .error fault⟩)
              | .ok next => tracedSweep codes index fuel tape next pointer (steps + 1)
            else tracedSweep codes index fuel tape (pc + 1) pointer (steps + 1)
        | .loopEnd =>
          .after (.cell pointer tape.size) <|
          match tape.cell pointer with
          | .error fault => .stop (some ⟨tape, .error fault⟩)
          | .ok cell =>
            if cell = 0 then tracedSweep codes index fuel tape (pc + 1) pointer (steps + 1)
            else
              .after (index.lookup pc) <|
              match index.jumpTarget pc with
              | .error fault => .stop (some ⟨tape, .error fault⟩)
              | .ok next => tracedSweep codes index fuel tape next pointer (steps + 1)
        | .comment => tracedSweep codes index fuel tape (pc + 1) pointer (steps + 1)

/-- The record of a sweep does not change what it does. -/
theorem tracedSweep_result (codes : Array ℕ) (index : BracketIndex) (fuel : ℕ) (tape : Tape)
    (pc pointer : ℤ) (steps : ℕ) :
    (tracedSweep codes index fuel tape pc pointer steps).result =
      sweep codes index fuel tape pc pointer steps := by
  induction fuel generalizing tape pc pointer steps with
  | zero => rfl
  | succ fuel ih =>
    rw [tracedSweep, sweep]
    by_cases hend : (codes.size : ℤ) ≤ pc
    · rw [if_pos hend, if_pos hend, Traced.stop_result]
    · rw [if_neg hend, if_neg hend, Traced.after_result]
      cases entry? codes pc with
      | none => rfl
      | some code =>
        dsimp only
        cases Command.ofCode code with
        | moveRight =>
          dsimp only
          split_ifs
          · rfl
          · exact ih _ _ _ _
        | moveLeft =>
          dsimp only
          split_ifs
          · rfl
          · exact ih _ _ _ _
        | increment =>
          dsimp only
          cases slot? tape.size pointer with
          | none => rfl
          | some place => exact ih _ _ _ _
        | decrement =>
          dsimp only
          cases slot? tape.size pointer with
          | none => rfl
          | some place => exact ih _ _ _ _
        | write => rfl
        | read => rfl
        | loopStart =>
          dsimp only
          cases tape.cell pointer with
          | error fault => rfl
          | ok cell =>
            dsimp only [Traced.after_result]
            split_ifs
            · cases index.jumpTarget pc with
              | error fault => rfl
              | ok next => exact ih _ _ _ _
            · exact ih _ _ _ _
        | loopEnd =>
          dsimp only
          cases tape.cell pointer with
          | error fault => rfl
          | ok cell =>
            dsimp only [Traced.after_result]
            split_ifs
            · exact ih _ _ _ _
            · cases index.jumpTarget pc with
              | error fault => rfl
              | ok next => exact ih _ _ _ _
        | comment => exact ih _ _ _ _

/-! ### One command of a sweep -/

theorem modify_eq_setIfInBounds {α : Type} (xs : Array α) {place : ℕ} (h : place < xs.size)
    (f : α → α) : xs.modify place f = xs.setIfInBounds place (f xs[place]) := by
  apply Array.ext_getElem?
  intro i
  rw [Array.getElem?_modify, Array.getElem?_setIfInBounds]
  by_cases hi : place = i
  · subst hi
    rw [if_pos rfl, if_pos rfl, if_pos h, Array.getElem?_eq_getElem h, Option.map_some]
  · rw [if_neg hi, if_neg hi]

namespace Machine

/-- Nothing has been read, written, failed or noted down on the way to the other machine. -/
structure Quiet (m next : Machine) : Prop where
  input_eq : next.input = m.input
  output_eq : next.output = m.output
  failure_eq : next.failure = m.failure
  journal_eq : next.journal = m.journal

theorem Quiet.refl (m : Machine) : m.Quiet m := ⟨rfl, rfl, rfl, rfl⟩

theorem Quiet.trans {first middle last : Machine} (hfirst : first.Quiet middle)
    (hlast : middle.Quiet last) : first.Quiet last :=
  ⟨hlast.input_eq.trans hfirst.input_eq, hlast.output_eq.trans hfirst.output_eq,
    hlast.failure_eq.trans hfirst.failure_eq, hlast.journal_eq.trans hfirst.journal_eq⟩

/-- Why a sweep stops at a machine. -/
def StopsAt (code : Code) (m : Machine) : Stop → Prop
  | .finished => (code.program.size : ℤ) ≤ m.pc
  | .write => code.program.get? m.pc = some '.'
  | .read => code.program.get? m.pc = some ','
  | .leftEnd => code.program.get? m.pc = some '<' ∧ m.pointer = 0
  | .rightEnd => code.program.get? m.pc = some '>' ∧ m.pointer + 1 = m.tape.size

/-- The sweep from a machine, with `steps` commands counted before it. -/
def sweepFrom (code : Code) (fuel : ℕ) (m : Machine) (steps : ℕ) : Traced Swept :=
  tracedSweep code.program.codes code.index fuel m.tape m.pc m.pointer steps

/-- What a sweep answers when it stops at a machine. -/
def swept (m : Machine) (stop : Stop) (steps : ℕ) : Swept :=
  ⟨m.tape, .ok ⟨m.pc, m.pointer, stop, steps⟩⟩

variable {code : Code} {m next last : Machine}

theorem size_codes (program : Program) : program.codes.size = program.size :=
  Array.size_map

theorem sweepFrom_finished (h : (code.program.size : ℤ) ≤ m.pc) (fuel steps : ℕ) :
    m.sweepFrom code (fuel + 1) steps = .stop (some (m.swept .finished steps)) := by
  unfold sweepFrom
  rw [tracedSweep, size_codes, if_pos h]
  rfl

/-- The lookup of a partner that exists is in range, and the jump goes right behind it. -/
theorem Safe.lookup (h : m.Safe code) {other : ℕ}
    (hpartner : code.index.partner? m.pc = some (other : ℤ)) :
    (code.index.lookup m.pc).InRange ∧ code.index.jumpTarget m.pc = .ok ((other : ℤ) + 1) := by
  obtain ⟨position, hposition⟩ := Int.eq_ofNat_of_zero_le h.pc_nonneg
  rw [hposition] at hpartner ⊢
  unfold BracketIndex.partner? at hpartner
  rw [if_neg (by omega), Int.toNat_natCast] at hpartner
  have hentry : code.index.partners[position]? = some (some (other : ℤ)) :=
    Option.join_eq_some_iff.mp hpartner
  have hlt : position < code.index.partners.size := (Array.getElem?_eq_some_iff.mp hentry).1
  constructor
  · simp only [BracketIndex.lookup, entry?_natCast, hentry, Option.join_some, Option.getD_some,
      Access.InRange, BracketIndex.noPartner]
    omega
  · simp only [BracketIndex.jumpTarget, entry?_natCast, hentry, Option.getD_some]

/-- The code that a sweep fetches from a safe machine. -/
theorem Safe.entry_codes (h : m.Safe code) {c : Char} (hget : code.program.get? m.pc = some c) :
    entry? code.program.codes m.pc = some c.toNat ∧
      Access.InRange (.code m.pc code.program.codes.size) := by
  obtain ⟨position, hposition⟩ := Int.eq_ofNat_of_zero_le h.pc_nonneg
  rw [hposition] at hget ⊢
  rw [Program.get?, entry?_natCast] at hget
  have hentry : entry? code.program.codes (position : ℤ) = some c.toNat := by
    rw [entry?_natCast, Program.codes, Array.getElem?_map, hget, Option.map_some]
  have hlt : position < code.program.chars.size := (Array.getElem?_eq_some_iff.mp hget).1
  refine ⟨hentry, Int.natCast_nonneg position, ?_⟩
  rw [size_codes]
  exact Int.ofNat_lt.mpr hlt

/-- How a sweep carries out one command, with `fuel` left for what comes behind it: it goes on from
the next machine without having read or written, or it stops here. Its array accesses are in
range. -/
def SweepsOne (code : Code) (m : Machine) (fuel steps : ℕ) (traced : Traced Swept) : Prop :=
  (∃ next accesses, m.move code = some next ∧ m.Quiet next ∧
    (∃ c, code.program.get? m.pc = some c ∧ c ≠ ',' ∧ c ≠ '.') ∧
    (∀ access ∈ accesses, Access.InRange access) ∧
    traced = (next.sweepFrom code fuel (steps + 1)).afterAll accesses) ∨
  ∃ stop accesses, m.StopsAt code stop ∧ (∀ access ∈ accesses, Access.InRange access) ∧
    traced = (Traced.stop (some (m.swept stop steps))).afterAll accesses

section

variable {c : Char} {accesses : List Access}

/-- The sweep goes on behind a command that has been carried out. -/
theorem sweepsOne_of_done {s : Memory} (hrun : m.halted code = false)
    (hget : code.program.get? m.pc = some c) (hread : c ≠ ',') (hwrite : c ≠ '.')
    (hwork : m.memory.work (Command.ofChar c) = .done s) (hinput : s.input = m.input)
    (houtput : s.output = m.output) (haccesses : ∀ access ∈ accesses, access.InRange)
    (fuel steps : ℕ) :
    SweepsOne code m fuel steps
      (((m.goOn s (m.pc + 1)).sweepFrom code fuel (steps + 1)).afterAll accesses) := by
  have hmove := move_eq hrun hget
  rw [hwork] at hmove
  exact .inl ⟨_, _, hmove, ⟨hinput, houtput, rfl, rfl⟩, ⟨c, hget, hread, hwrite⟩, haccesses, rfl⟩

/-- The sweep goes on behind the partner of a bracket. -/
theorem sweepsOne_of_jump {other : ℕ} (hrun : m.halted code = false)
    (hget : code.program.get? m.pc = some c) (hread : c ≠ ',') (hwrite : c ≠ '.')
    (hwork : m.memory.work (Command.ofChar c) = .jump)
    (hpartner : code.index.partner? m.pc = some (other : ℤ))
    (haccesses : ∀ access ∈ accesses, access.InRange) (fuel steps : ℕ) :
    SweepsOne code m fuel steps
      (((m.goOn m.memory (other + 1)).sweepFrom code fuel (steps + 1)).afterAll accesses) := by
  have hmove := move_eq hrun hget
  rw [hwork, hpartner] at hmove
  exact .inl ⟨_, _, hmove, ⟨rfl, rfl, rfl, rfl⟩, ⟨c, hget, hread, hwrite⟩, haccesses, rfl⟩

end

/-- A bracket of a sweep from a safe machine. It reads the cell, and one that jumps also looks up
its partner. -/
theorem Safe.sweepsOne_bracket (h : m.Safe code) (hrun : m.halted code = false) {position : ℕ}
    {c : Char} (hposition : m.pc = position) (hc : code.program.chars.toList[position]? = some c)
    (hget : code.program.get? m.pc = some c)
    (hbracket : Command.ofChar c = .loopStart ∨ Command.ofChar c = .loopEnd) (fuel steps : ℕ) :
    SweepsOne code m fuel steps (m.sweepFrom code (fuel + 1) steps) := by
  obtain ⟨place, hpointer, hplace⟩ : ∃ place : ℕ, m.pointer = place ∧ place < m.tape.size :=
    h.inRange.exists_place
  obtain ⟨hentry, hfetch⟩ := h.entry_codes hget
  obtain ⟨other, -, hpartner⟩ := h.exists_partner hposition hc hbracket
  obtain ⟨hlookup, htarget⟩ := h.lookup hpartner
  have hend := pc_lt_of_running hrun
  have hcell : m.tape.cell m.pointer = .ok m.tape[place] :=
    Memory.cell_eq (s := m.memory) hpointer hplace
  have hwith (use : UInt8 → Work) := Memory.withCell_eq (s := m.memory) hpointer hplace use
  have hread : Access.InRange (.cell m.pointer m.tape.size) := h.inRange
  have hpass : ∀ access ∈ [.code m.pc code.program.codes.size, .cell m.pointer m.tape.size],
      Access.InRange access := by
    simpa using ⟨hfetch, hread⟩
  have hjump : ∀ access ∈ [.code m.pc code.program.codes.size, .cell m.pointer m.tape.size,
      code.index.lookup m.pc], Access.InRange access := by
    simpa using ⟨hfetch, hread, hlookup⟩
  rw [sweepFrom, tracedSweep, size_codes, if_neg (by omega), ← size_codes, hentry]
  dsimp only
  rw [Command.ofCode_toNat]
  rcases hbracket with hopen | hclose
  · obtain rfl : c = '[' := Command.eq_of_symbol? hopen rfl
    rw [hopen, hcell]
    dsimp only
    by_cases hzero : m.tape[place] = 0
    · rw [if_pos hzero, htarget]
      exact sweepsOne_of_jump hrun hget (by decide) (by decide)
        ((hwith _).trans (if_pos hzero)) hpartner hjump fuel steps
    · rw [if_neg hzero]
      exact sweepsOne_of_done hrun hget (by decide) (by decide)
        ((hwith _).trans (if_neg hzero)) rfl rfl hpass fuel steps
  · obtain rfl : c = ']' := Command.eq_of_symbol? hclose rfl
    rw [hclose, hcell]
    dsimp only
    by_cases hzero : m.tape[place] = 0
    · rw [if_pos hzero]
      exact sweepsOne_of_done hrun hget (by decide) (by decide)
        ((hwith _).trans (if_pos hzero)) rfl rfl hpass fuel steps
    · rw [if_neg hzero, htarget]
      exact sweepsOne_of_jump hrun hget (by decide) (by decide)
        ((hwith _).trans (if_neg hzero)) hpartner hjump fuel steps

/-- One command of a sweep from a safe machine. -/
theorem Safe.sweepsOne (h : m.Safe code) (hrun : m.halted code = false) (fuel steps : ℕ) :
    SweepsOne code m fuel steps (m.sweepFrom code (fuel + 1) steps) := by
  obtain ⟨position, c, hposition, hc, hget⟩ := h.fetch hrun
  by_cases hbracket : Command.ofChar c = .loopStart ∨ Command.ofChar c = .loopEnd
  · exact h.sweepsOne_bracket hrun hposition hc hget hbracket fuel steps
  · obtain ⟨place, hpointer, hplace⟩ : ∃ place : ℕ, m.pointer = place ∧ place < m.tape.size :=
      h.inRange.exists_place
    have hslot : slot? m.tape.size m.pointer = some place := by
      rw [hpointer, slot?_natCast, if_pos hplace]
    obtain ⟨hentry, hfetch⟩ := h.entry_codes hget
    have hread : Access.InRange (.cell m.pointer m.tape.size) := h.inRange
    have hone : ∀ access ∈ [Access.code m.pc code.program.codes.size], access.InRange := by
      simpa using hfetch
    have htwo : ∀ access ∈ [.code m.pc code.program.codes.size, .cell m.pointer m.tape.size],
        Access.InRange access := by
      simpa using ⟨hfetch, hread⟩
    have hend := pc_lt_of_running hrun
    rw [sweepFrom, tracedSweep, size_codes, if_neg (by omega), ← size_codes, hentry]
    dsimp only
    rw [Command.ofCode_toNat]
    cases hcommand : Command.ofChar c with
    | moveRight =>
      obtain rfl : c = '>' := Command.eq_of_symbol? hcommand rfl
      by_cases hright : m.pointer + 1 = m.tape.size
      · rw [if_pos hright]
        exact .inr ⟨.rightEnd, _, ⟨hget, hright⟩, hone, rfl⟩
      · rw [if_neg hright]
        exact sweepsOne_of_done hrun hget (by decide) (by decide) (if_neg hright) rfl rfl hone fuel
          steps
    | moveLeft =>
      obtain rfl : c = '<' := Command.eq_of_symbol? hcommand rfl
      by_cases hleft : m.pointer = 0
      · rw [if_pos hleft]
        exact .inr ⟨.leftEnd, _, ⟨hget, hleft⟩, hone, rfl⟩
      · rw [if_neg hleft]
        exact sweepsOne_of_done hrun hget (by decide) (by decide) (if_neg hleft) rfl rfl hone fuel
          steps
    | increment =>
      obtain rfl : c = '+' := Command.eq_of_symbol? hcommand rfl
      rw [hslot]
      dsimp only
      rw [modify_eq_setIfInBounds _ hplace]
      exact sweepsOne_of_done hrun hget (by decide) (by decide)
        (Memory.work_increment (s := m.memory) hpointer hplace) rfl rfl htwo fuel steps
    | decrement =>
      obtain rfl : c = '-' := Command.eq_of_symbol? hcommand rfl
      rw [hslot]
      dsimp only
      rw [modify_eq_setIfInBounds _ hplace]
      exact sweepsOne_of_done hrun hget (by decide) (by decide)
        (Memory.work_decrement (s := m.memory) hpointer hplace) rfl rfl htwo fuel steps
    | write =>
      obtain rfl : c = '.' := Command.eq_of_symbol? hcommand rfl
      exact .inr ⟨.write, _, hget, hone, rfl⟩
    | read =>
      obtain rfl : c = ',' := Command.eq_of_symbol? hcommand rfl
      exact .inr ⟨.read, _, hget, hone, rfl⟩
    | loopStart => exact absurd (.inl hcommand) hbracket
    | loopEnd => exact absurd (.inr hcommand) hbracket
    | comment =>
      have hsilent {symbol : Char} (hs : Command.ofChar symbol ≠ .comment) : c ≠ symbol := by
        rintro rfl
        exact hs hcommand
      have hwork : m.memory.work (Command.ofChar c) = .done m.memory := by
        rw [hcommand]
        rfl
      exact sweepsOne_of_done hrun hget (hsilent (by decide)) (hsilent (by decide)) hwork rfl rfl
        hone fuel steps

/-! ### Whole sweeps -/

theorem halted_eq_false_iff (hfailure : m.failure = none) :
    m.halted code = false ↔ m.pc < code.program.size := by
  unfold halted
  rw [hfailure]
  simp

/-- A whole sweep from a safe machine: it has made as many moves as it may, or it stops at a machine
that moves lead to. Its array accesses are in range. -/
theorem Safe.sweepFrom_spec (h : m.Safe code) (hfailure : m.failure = none) (fuel steps : ℕ) :
    (∀ access ∈ (m.sweepFrom code fuel steps).accesses, access.InRange) ∧
    (((m.sweepFrom code fuel steps).result = none ∧
        ∃ last, Reaches (Machine.move code) m last ∧ last.steps = m.steps + fuel) ∨
      ∃ last stop, Reaches (Machine.move code) m last ∧ m.Quiet last ∧ last.StopsAt code stop ∧
        (m.sweepFrom code fuel steps).result =
          some (last.swept stop (steps + (last.steps - m.steps)))) := by
  induction fuel generalizing m steps with
  | zero => exact ⟨by simp [sweepFrom, tracedSweep], .inl ⟨rfl, m, .refl, rfl⟩⟩
  | succ fuel ih =>
    by_cases hend : (code.program.size : ℤ) ≤ m.pc
    · rw [sweepFrom_finished hend]
      refine ⟨by simp, .inr ⟨m, .finished, .refl, .refl m, hend, ?_⟩⟩
      rw [Traced.stop_result, Nat.sub_self, Nat.add_zero]
    · have hrun : m.halted code = false := (halted_eq_false_iff hfailure).mpr (by omega)
      rcases h.sweepsOne hrun fuel steps with
        ⟨next, accesses, hmove, hquiet, -, haccesses, hsweep⟩ |
          ⟨stop, accesses, hstop, haccesses, hsweep⟩
      · have hclock := steps_of_move hmove
        obtain ⟨hinRange, hresult⟩ := ih (h.move hmove).1 (hquiet.failure_eq.trans hfailure)
          (steps + 1)
        rw [hsweep]
        refine ⟨?_, ?_⟩
        · intro access hmem
          rcases List.mem_append.mp hmem with hmem | hmem
          · exact haccesses access hmem
          · exact hinRange access hmem
        · rcases hresult with ⟨hnone, last, hreach, hsteps⟩ |
            ⟨last, stop, hreach, hlast, hstop, hsome⟩
          · exact .inl ⟨hnone, last, .head hmove hreach, by omega⟩
          · refine .inr ⟨last, stop, .head hmove hreach, hquiet.trans hlast, hstop, ?_⟩
            have hle := steps_le_of_reaches hreach
            have htotal : steps + (last.steps - m.steps) =
                steps + 1 + (last.steps - next.steps) := by
              omega
            rw [htotal]
            exact hsome
      · rw [hsweep]
        refine ⟨?_, .inr ⟨m, stop, .refl, .refl m, hstop, ?_⟩⟩
        · intro access hmem
          rw [Traced.afterAll, Traced.stop_accesses, List.append_nil] at hmem
          exact haccesses access hmem
        · rw [Nat.sub_self, Nat.add_zero]
          rfl

/-- A sweep that stops at a machine leaves the run there. -/
theorem land_swept (hquiet : m.Quiet last) (hle : m.steps ≤ last.steps) (stop : Stop) :
    ({ m with tape := last.tape } : Machine).land
      ⟨last.pc, last.pointer, stop, 0 + (last.steps - m.steps)⟩ = last := by
  obtain ⟨hinput, houtput, hfailure, hjournal⟩ := hquiet
  unfold land
  simp only [← hinput, ← houtput, ← hfailure, ← hjournal]
  rw [show m.steps + (0 + (last.steps - m.steps)) = last.steps by omega]

/-! ### Runs by sweeps -/

/-- A run by sweeps with a record of the array accesses that its sweeps make. -/
def tracedDash (code : Code) (codes : Array ℕ) :
    ℕ → Machine → Traced (Machine × Except Fault Unit)
  | 0, _ => .stop none
  | fuel + 1, m =>
    if m.halted code then .stop (some (m, .ok ()))
    else
      let traced := tracedSweep codes code.index fuel m.tape m.pc m.pointer 0
      .afterAll traced.accesses <|
      match traced.result with
      | none => .stop none
      | some ⟨tape, .error fault⟩ => .stop (some ({ m with tape := tape }, .error fault))
      | some ⟨tape, .ok landing⟩ =>
        let m := { m with tape := tape }.land landing
        match landing.stop with
        | .finished =>
          tracedDash code codes fuel { m with journal := m.journal.push (.halted m.steps) }
        | .leftEnd => tracedDash code codes fuel (m.fail (.outOfBounds m.pointer .left)).1
        | .rightEnd => tracedDash code codes fuel (m.fail (.outOfBounds m.pointer .right)).1
        | .write | .read =>
          match m.step code with
          | (m, .ok _) => tracedDash code codes fuel m
          | (m, .error fault) => .stop (some (m, .error fault))

/-- The record of a run by sweeps does not change what it does. -/
theorem tracedDash_result (code : Code) (codes : Array ℕ) (fuel : ℕ) (m : Machine) :
    (tracedDash code codes fuel m).result = m.dash code codes fuel := by
  induction fuel generalizing m with
  | zero => rfl
  | succ fuel ih =>
    rw [tracedDash, dash]
    by_cases hhalted : m.halted code = true
    · rw [if_pos hhalted, if_pos hhalted, Traced.stop_result]
    · rw [if_neg hhalted, if_neg hhalted]
      simp only [Traced.afterAll, tracedSweep_result]
      cases sweep codes code.index fuel m.tape m.pc m.pointer 0 with
      | none => rfl
      | some swept =>
        obtain ⟨tape, landing⟩ := swept
        cases landing with
        | error fault => rfl
        | ok landing =>
          dsimp only
          cases landing.stop with
          | finished => exact ih _
          | leftEnd => exact ih _
          | rightEnd => exact ih _
          | write =>
            dsimp only
            cases hstep : (({ m with tape := tape } : Machine).land landing).step code with
            | mk after answer =>
              cases answer with
              | ok goesOn => exact ih after
              | error fault => rfl
          | read =>
            dsimp only
            cases hstep : (({ m with tape := tape } : Machine).land landing).step code with
            | mk after answer =>
              cases answer with
              | ok goesOn => exact ih after
              | error fault => rfl

theorem tracedDash_of_halted (hhalted : m.halted code = true) (codes : Array ℕ) (fuel : ℕ) :
    tracedDash code codes fuel m = .stop (if fuel = 0 then none else some (m, .ok ())) := by
  cases fuel with
  | zero => rfl
  | succ fuel => rw [tracedDash, if_pos hhalted, if_neg (Nat.succ_ne_zero fuel)]

theorem halted_of_fail (m : Machine) (failure : Failure) : (m.fail failure).1.halted code = true :=
  rfl

/-- A machine with a character at its position is not at the end. -/
theorem Safe.running_of_get? (h : m.Safe code) (hfailure : m.failure = none) {c : Char}
    (hget : code.program.get? m.pc = some c) : m.halted code = false := by
  rw [halted_eq_false_iff hfailure]
  obtain ⟨position, hposition⟩ := Int.eq_ofNat_of_zero_le h.pc_nonneg
  rw [hposition, Program.get?, entry?_natCast] at hget
  have hlt := (Array.getElem?_eq_some_iff.mp hget).1
  unfold Program.size
  omega

/-- A machine that stands before an end of the tape makes no move, and its run ends there. -/
theorem conclude_of_fails {c : Char} {failure : Failure} (hrun : m.halted code = false)
    (hget : code.program.get? m.pc = some c)
    (hwork : m.memory.work (Command.ofChar c) = .fails m.memory failure) :
    m.move code = none ∧ m.conclude code = ((m.fail failure).1, .ok ()) := by
  constructor
  · rw [move_eq hrun hget, hwork]
  · unfold conclude
    rw [if_neg (by simp [hrun]), step_eq_settle hrun hget, hwork]
    rfl

/-- A traced run from a machine keeps to the moves: its accesses are in range, and it ends where the
moves end unless it is cut off, after about `fuel` moves. -/
structure KeepsTo (code : Code) (m : Machine) (fuel : ℕ)
    (traced : Traced (Machine × Except Fault Unit)) : Prop where
  inRange : ∀ access ∈ traced.accesses, access.InRange
  ends : (traced.result = none ∧
      ∃ last, Reaches (move code) m last ∧ m.steps + fuel ≤ last.steps + 1) ∨
    ∃ last ∈ eval (move code) m, traced.result = some (last.conclude code)

namespace KeepsTo

variable {fuel : ℕ} {traced : Traced (Machine × Except Fault Unit)}

theorem afterAll (h : KeepsTo code m fuel traced) {accesses : List Access}
    (haccesses : ∀ access ∈ accesses, access.InRange) :
    KeepsTo code m fuel (traced.afterAll accesses) where
  inRange := by
    intro access hmem
    rcases List.mem_append.mp hmem with hmem | hmem
    · exact haccesses access hmem
    · exact h.inRange access hmem
  ends := h.ends

/-- A run that keeps to the moves may be entered by moves. -/
theorem of_reaches {bound : ℕ} (h : KeepsTo code next fuel traced)
    (hreach : Reaches (move code) m next) (hbound : m.steps + bound ≤ next.steps + fuel) :
    KeepsTo code m bound traced where
  inRange := h.inRange
  ends := by
    rcases h.ends with ⟨hnone, last, hlast, hle⟩ | ⟨last, hlast, hsome⟩
    · exact .inl ⟨hnone, last, hreach.trans hlast, by omega⟩
    · exact .inr ⟨last, by rwa [reaches_eval hreach], hsome⟩

/-- A run that is over once the moves have ended keeps to them. -/
theorem of_halted {ended : Machine} (hlast : last ∈ eval (move code) m)
    (hended : ended.halted code = true) (hconclude : last.conclude code = (ended, .ok ()))
    (codes : Array ℕ) : KeepsTo code m (fuel + 1) (tracedDash code codes fuel ended) := by
  rw [tracedDash_of_halted hended]
  refine ⟨by simp, ?_⟩
  by_cases hfuel : fuel = 0
  · subst hfuel
    exact .inl ⟨rfl, m, .refl, by omega⟩
  · rw [if_neg hfuel]
    exact .inr ⟨last, hlast, by rw [Traced.stop_result, hconclude]⟩

end KeepsTo

/-- What follows a stop to read or write keeps to the moves, if the rest of the run does. -/
theorem Safe.keepsTo_step (h : m.Safe code) (hrun : m.halted code = false) {fuel : ℕ}
    (ih : ∀ next : Machine, next.Safe code → next.halted code = false →
      KeepsTo code next fuel (tracedDash code code.program.codes fuel next)) :
    KeepsTo code m (fuel + 1)
      (match m.step code with
        | (m, .ok _) => tracedDash code code.program.codes fuel m
        | (m, .error fault) => .stop (some (m, .error fault))) := by
  have hend (hmove : m.move code = none) : m ∈ eval (Machine.move code) m :=
    mem_eval.mpr ⟨.refl, hmove⟩
  rcases h.step_cases hrun with ⟨next, hmove, hsafe, -⟩ | ⟨hmove, rest, failure, hstep⟩ |
    ⟨hmove, value, rest, -, -, hstep⟩
  · have hreach : Reaches (Machine.move code) m next := .single hmove
    have hclock := steps_of_move hmove
    rw [step_of_move hmove, arrive]
    by_cases hhalted : next.halted code = true
    · rw [if_pos hhalted]
      have hlast : next ∈ eval (Machine.move code) m :=
        mem_eval.mpr ⟨hreach, move_of_halted hhalted⟩
      have hnoted : next.noteHalted.halted code = true := hhalted
      exact .of_halted hlast hnoted (conclude_of_halted hhalted) _
    · rw [if_neg hhalted]
      exact (ih next hsafe (by simpa using hhalted)).of_reaches hreach (by omega)
  · rw [hstep]
    refine .of_halted (hend hmove) (halted_of_fail _ failure) ?_ _
    rw [conclude, if_neg (by simp [hrun]), hstep]
    rfl
  · rw [hstep]
    refine ⟨by simp, .inr ⟨m, hend hmove, ?_⟩⟩
    rw [conclude, if_neg (by simp [hrun]), hstep]
    rfl

/-- A run by sweeps from a safe machine keeps to the moves. -/
theorem Safe.keepsTo_tracedDash (h : m.Safe code) (hrun : m.halted code = false) (fuel : ℕ) :
    KeepsTo code m fuel (tracedDash code code.program.codes fuel m) := by
  induction fuel generalizing m with
  | zero => exact ⟨by simp [tracedDash], .inl ⟨rfl, m, .refl, by omega⟩⟩
  | succ fuel ih =>
    have hfailure : m.failure = none := by
      unfold halted at hrun
      simpa using (Bool.or_eq_false_iff.mp hrun).1
    obtain ⟨hinRange, hresult⟩ := h.sweepFrom_spec hfailure fuel 0
    unfold sweepFrom at hinRange hresult
    rw [tracedDash, if_neg (by simp [hrun])]
    refine KeepsTo.afterAll ?_ hinRange
    rcases hresult with ⟨hnone, last, hreach, hsteps⟩ | ⟨last, stop, hreach, hquiet, hstop, hsome⟩
    · rw [hnone]
      exact ⟨by simp, .inl ⟨rfl, last, hreach, by omega⟩⟩
    · have hle := steps_le_of_reaches hreach
      have hlast := (h.reaches hreach).1
      have hlastFailure := hquiet.failure_eq.trans hfailure
      rw [hsome]
      dsimp only [swept]
      rw [land_swept hquiet hle]
      cases stop with
      | finished =>
        have hhalted : last.halted code = true := by
          unfold halted
          have hend : (code.program.size : ℤ) ≤ last.pc := hstop
          rw [decide_eq_true hend, Bool.or_true]
        have hnoted : last.noteHalted.halted code = true := hhalted
        exact .of_halted (mem_eval.mpr ⟨hreach, move_of_halted hhalted⟩) hnoted
          (conclude_of_halted hhalted) _
      | leftEnd =>
        obtain ⟨hmove, hconclude⟩ := conclude_of_fails
          (hlast.running_of_get? hlastFailure hstop.1) hstop.1 (if_pos hstop.2)
        exact .of_halted (mem_eval.mpr ⟨hreach, hmove⟩) (halted_of_fail _ _) hconclude _
      | rightEnd =>
        obtain ⟨hmove, hconclude⟩ := conclude_of_fails
          (hlast.running_of_get? hlastFailure hstop.1) hstop.1 (if_pos hstop.2)
        exact .of_halted (mem_eval.mpr ⟨hreach, hmove⟩) (halted_of_fail _ _) hconclude _
      | write =>
        have hrunLast := hlast.running_of_get? hlastFailure hstop
        exact (hlast.keepsTo_step hrunLast fun next ↦ ih).of_reaches hreach (by omega)
      | read =>
        have hrunLast := hlast.running_of_get? hlastFailure hstop
        exact (hlast.keepsTo_step hrunLast fun next ↦ ih).of_reaches hreach (by omega)

/-- Every array access of a run by sweeps from a safe machine is in range, and none of its jumps
goes to a missing partner. -/
theorem Safe.tracedDash_inRange (h : m.Safe code) (fuel : ℕ) :
    ∀ access ∈ (tracedDash code code.program.codes fuel m).accesses, access.InRange := by
  by_cases hhalted : m.halted code = true
  · rw [tracedDash_of_halted hhalted]
    simp
  · exact (h.keepsTo_tracedDash (by simpa using hhalted) fuel).inRange

/-- A run by sweeps that is not over ends where the moves end. -/
theorem Safe.dash_eq_some_iff_of_running {outcome : Machine × Except Fault Unit} (h : m.Safe code)
    (hrun : m.halted code = false) :
    (∃ fuel, m.dash code code.program.codes fuel = some outcome) ↔
      ∃ last ∈ eval (Machine.move code) m, outcome = last.conclude code := by
  constructor
  · rintro ⟨fuel, hdash⟩
    rw [← tracedDash_result] at hdash
    rcases (h.keepsTo_tracedDash hrun fuel).ends with ⟨hnone, -⟩ | ⟨last, hlast, hsome⟩
    · rw [hnone] at hdash
      cases hdash
    · rw [hsome] at hdash
      exact ⟨last, hlast, (Option.some.inj hdash).symm⟩
  · rintro ⟨last, hlast, rfl⟩
    -- Cut off only after more moves than there are, the run has to end, and it ends at `last`.
    have hkeeps := h.keepsTo_tracedDash hrun (last.steps - m.steps + 2)
    rcases hkeeps.ends with ⟨-, other, hother, hle⟩ | ⟨other, hother, hsome⟩
    · obtain ⟨hreach, hend⟩ := mem_eval.mp hlast
      have hback : Reaches (Machine.move code) other last := by
        rcases reaches_total hother hreach with hforth | hback
        · exact hforth
        · rw [(eval_maximal hlast).mp hback]
          exact .refl
      have hmono := steps_le_of_reaches hback
      have hstart := steps_le_of_reaches hreach
      omega
    · rw [Part.mem_unique hlast hother]
      exact ⟨_, by rw [← tracedDash_result, hsome]⟩

/-- Sweeping until the run is over is another way to carry it out. -/
theorem Safe.dash_eq_some_iff {outcome : Machine × Except Fault Unit} (h : m.Safe code) :
    (∃ fuel, m.dash code code.program.codes fuel = some outcome) ↔ m.Ends code outcome := by
  by_cases hhalted : m.halted code = true
  · rw [ends_of_halted hhalted]
    constructor
    · rintro ⟨fuel, hdash⟩
      cases fuel with
      | zero => cases hdash
      | succ fuel =>
        rw [dash, if_pos hhalted] at hdash
        exact (Option.some.inj hdash).symm
    · intro houtcome
      exact ⟨1, by rw [dash, if_pos hhalted, houtcome]⟩
  · have hrun : m.halted code = false := by simpa using hhalted
    rw [ends_of_running hrun, h.dash_eq_some_iff_of_running hrun]

/-- A run ends in the same way by sweeps and step by step. -/
theorem Safe.run_eq_some_iff {outcome : Machine × Except Fault Unit} (h : m.Safe code)
    (quick : Bool) :
    (∃ fuel, m.run quick code fuel = some outcome) ↔ m.Ends code outcome := by
  cases quick with
  | true => exact h.dash_eq_some_iff
  | false => exact walk_eq_some_iff

end Machine

end TapeMachine
