import TapeMachine.Machine
import TapeMachine.Proofs.Matching
import Mathlib.Computability.StateTransition

/-!
The machine as a transition system. What a command does to tape, pointer, input and output depends
on nothing else (`Memory.work`); the position and the counters follow from it (`execute_eq_settle`).
A command that is carried out is a move (`Machine.move`), and a run step by step ends exactly where
the moves end, with the answer of the command that makes no move (`walk_eq_some_iff`). Each move
counts one step, so `steps` is the clock of every run (`steps_le_of_reaches`).

A machine is safe when its index is the one of its own program and its pointer and position are in
range (`Machine.Safe`). In a safe machine every command can be fetched and every bracket has its
partner, so commands keep it safe (`Safe.move`, `Safe.step`), and the one fault left is an input
value that is no byte (`Safe.fault_of_step`).
-/

set_option autoImplicit false
set_option relaxedAutoImplicit false

namespace TapeMachine

open StateTransition

/-! ### Characters of commands -/

/-- The character that stands for a command. -/
def Command.symbol? : Command → Option Char
  | .moveRight => some '>'
  | .moveLeft => some '<'
  | .increment => some '+'
  | .decrement => some '-'
  | .write => some '.'
  | .read => some ','
  | .loopStart => some '['
  | .loopEnd => some ']'
  | .comment => none

theorem Command.eq_of_symbol? {command : Command} {c symbol : Char} (hc : ofChar c = command)
    (hsymbol : command.symbol? = some symbol) : c = symbol := by
  subst hc
  unfold ofChar at hsymbol
  split_ifs at hsymbol <;> cases hsymbol <;> assumption

/-! ### What commands work on -/

/-- What commands work on: tape and pointer, the answers still to come and the bytes written. -/
structure Memory where
  tape : Tape
  pointer : ℤ
  input : Feed
  output : Array UInt8
  deriving DecidableEq, Repr

/-- What becomes of a command: it is carried out, it asks for a jump to the partner of the current
bracket, it fails, or it faults. -/
inductive Work where
  | done (memory : Memory)
  | jump
  | fails (memory : Memory) (failure : Failure)
  | faults (memory : Memory) (fault : Fault)

/-- The memory that a command leaves behind. -/
def Work.memory (before : Memory) : Work → Memory
  | .done s => s
  | .jump => before
  | .fails s _ => s
  | .faults s _ => s

namespace Memory

def cell (s : Memory) : Except Fault UInt8 := s.tape.cell s.pointer

/-- Puts a value into the current cell. -/
def deposit (s : Memory) (value : ℤ) : Work :=
  match Tape.target s.tape.size s.pointer value with
  | .ok (place, byte) => .done { s with tape := s.tape.setIfInBounds place byte }
  | .error fault => .faults s fault

/-- Goes on with the value of the current cell. -/
def withCell (s : Memory) (use : UInt8 → Work) : Work :=
  match s.cell with
  | .ok cell => use cell
  | .error fault => .faults s fault

/-- What a command does. -/
def work (s : Memory) : Command → Work
  | .comment => .done s
  | .moveLeft =>
    if s.pointer = 0 then .fails s (.outOfBounds s.pointer .left)
    else .done { s with pointer := s.pointer - 1 }
  | .moveRight =>
    if s.pointer + 1 = s.tape.size then .fails s (.outOfBounds s.pointer .right)
    else .done { s with pointer := s.pointer + 1 }
  | .read =>
    match s.input with
    | [] => .fails s (.inputExhausted s.pointer)
    | none :: rest => .fails { s with input := rest } (.inputExhausted s.pointer)
    | some value :: rest => { s with input := rest }.deposit value
  | .increment => s.withCell fun cell ↦ s.deposit ((cell.toNat + 1) % 256 : ℕ)
  | .decrement => s.withCell fun cell ↦ s.deposit ((cell.toNat + 255) % 256 : ℕ)
  | .write => s.withCell fun cell ↦ .done { s with output := s.output.push cell }
  | .loopStart => s.withCell fun cell ↦ if cell = 0 then .jump else .done s
  | .loopEnd => s.withCell fun cell ↦ if cell = 0 then .done s else .jump

/-- The pointer is on the tape. -/
def InRange (s : Memory) : Prop := 0 ≤ s.pointer ∧ s.pointer < s.tape.size

/-- The place of the current cell, when the pointer is on the tape. -/
theorem InRange.exists_place {s : Memory} (h : s.InRange) :
    ∃ place : ℕ, s.pointer = place ∧ place < s.tape.size := by
  obtain ⟨place, hpointer⟩ := Int.eq_ofNat_of_zero_le h.1
  refine ⟨place, hpointer, ?_⟩
  have hlt := h.2
  omega

theorem cell_eq {s : Memory} {place : ℕ} (hpointer : s.pointer = place)
    (hplace : place < s.tape.size) : s.cell = .ok s.tape[place] := by
  unfold cell
  rw [hpointer, Tape.cell_natCast hplace]

theorem withCell_eq {s : Memory} {place : ℕ} (hpointer : s.pointer = place)
    (hplace : place < s.tape.size) (use : UInt8 → Work) :
    s.withCell use = use s.tape[place] := by
  unfold withCell
  rw [cell_eq hpointer hplace]

/-- A byte can be put into the current cell. -/
theorem deposit_eq {s : Memory} {place : ℕ} (hpointer : s.pointer = place)
    (hplace : place < s.tape.size) {value : ℤ} (hvalue : 0 ≤ value ∧ value < 256) :
    s.deposit value =
      .done { s with tape := s.tape.setIfInBounds place (UInt8.ofNat value.toNat) } := by
  obtain ⟨number, rfl⟩ := Int.eq_ofNat_of_zero_le hvalue.1
  unfold deposit
  rw [hpointer, Tape.target_natCast hplace (by omega), Int.toNat_natCast]

/-- A value that is no byte cannot be put into a cell. -/
theorem deposit_eq_faults {s : Memory} (h : s.InRange) {value : ℤ}
    (hvalue : ¬(0 ≤ value ∧ value < 256)) : s.deposit value = .faults s (.ofByte value) := by
  obtain ⟨place, hpointer, hplace⟩ := h.exists_place
  unfold deposit Tape.target
  rw [hpointer, slot?_natCast, if_pos hplace]
  simp only [if_neg hvalue]

/-- Counting up modulo 256 is addition on bytes. -/
theorem work_increment {s : Memory} {place : ℕ} (hpointer : s.pointer = place)
    (hplace : place < s.tape.size) :
    s.work .increment =
      .done { s with tape := s.tape.setIfInBounds place (s.tape[place] + 1) } := by
  have hbyte (cell : UInt8) : UInt8.ofNat ((cell.toNat + 1) % 256) = cell + 1 := by
    apply UInt8.toNat_inj.mp
    rw [UInt8.toNat_ofNat', UInt8.toNat_add, UInt8.toNat_one]
    omega
  simp only [work]
  rw [withCell_eq hpointer hplace, deposit_eq hpointer hplace (by omega), Int.toNat_natCast, hbyte]

/-- Counting down modulo 256 is subtraction on bytes. -/
theorem work_decrement {s : Memory} {place : ℕ} (hpointer : s.pointer = place)
    (hplace : place < s.tape.size) :
    s.work .decrement =
      .done { s with tape := s.tape.setIfInBounds place (s.tape[place] - 1) } := by
  have hbyte (cell : UInt8) : UInt8.ofNat ((cell.toNat + 255) % 256) = cell - 1 := by
    apply UInt8.toNat_inj.mp
    rw [UInt8.toNat_ofNat', UInt8.toNat_sub, UInt8.toNat_one]
    omega
  simp only [work]
  rw [withCell_eq hpointer hplace, deposit_eq hpointer hplace (by omega), Int.toNat_natCast, hbyte]

/-- How a command can end when the pointer is on the tape. The pointer stays there, and only an
input value that is no byte faults. -/
theorem work_cases {s : Memory} (h : s.InRange) (command : Command) :
    (∃ next, s.work command = .done next ∧ next.InRange ∧ next.tape.size = s.tape.size) ∨
    (s.work command = .jump ∧ (command = .loopStart ∨ command = .loopEnd)) ∨
    (∃ rest failure, s.work command = .fails { s with input := rest } failure) ∨
    (∃ value rest, s.work command = .faults { s with input := rest } (.ofByte value) ∧
      command = .read ∧ s.input = some value :: rest ∧ ¬(0 ≤ value ∧ value < 256)) := by
  obtain ⟨place, hpointer, hplace⟩ := h.exists_place
  have hwith (use : UInt8 → Work) := withCell_eq hpointer hplace use
  have hkept (byte : UInt8) (rest : Feed) : InRange
      { s with input := rest, tape := s.tape.setIfInBounds place byte } := by
    refine ⟨h.1, ?_⟩
    simpa only [Array.size_setIfInBounds] using h.2
  cases command with
  | comment => exact .inl ⟨s, rfl, h, rfl⟩
  | moveLeft =>
    by_cases hleft : s.pointer = 0
    · exact .inr (.inr (.inl ⟨s.input, .outOfBounds s.pointer .left, if_pos hleft⟩))
    · refine .inl ⟨{ s with pointer := s.pointer - 1 }, if_neg hleft, ?_, rfl⟩
      unfold InRange at h ⊢
      dsimp only
      omega
  | moveRight =>
    by_cases hright : s.pointer + 1 = s.tape.size
    · exact .inr (.inr (.inl ⟨s.input, .outOfBounds s.pointer .right, if_pos hright⟩))
    · refine .inl ⟨{ s with pointer := s.pointer + 1 }, if_neg hright, ?_, rfl⟩
      unfold InRange at h ⊢
      dsimp only
      omega
  | read =>
    cases hinput : s.input with
    | nil =>
      refine .inr (.inr (.inl ⟨[], .inputExhausted s.pointer, ?_⟩))
      simp only [work, hinput]
      rw [← hinput]
    | cons answer rest =>
      cases answer with
      | none =>
        refine .inr (.inr (.inl ⟨rest, .inputExhausted s.pointer, ?_⟩))
        simp only [work, hinput]
      | some value =>
        have hwork : s.work .read = { s with input := rest }.deposit value := by
          simp only [work, hinput]
        by_cases hvalue : 0 ≤ value ∧ value < 256
        · have hdone := deposit_eq (s := { s with input := rest }) hpointer hplace hvalue
          exact .inl ⟨_, hwork.trans hdone, hkept _ rest, Array.size_setIfInBounds⟩
        · refine .inr (.inr (.inr ⟨value, rest, ?_, rfl, rfl, hvalue⟩))
          exact hwork.trans (deposit_eq_faults (s := { s with input := rest }) h hvalue)
  | increment =>
    exact .inl ⟨_, work_increment hpointer hplace, hkept _ s.input, Array.size_setIfInBounds⟩
  | decrement =>
    exact .inl ⟨_, work_decrement hpointer hplace, hkept _ s.input, Array.size_setIfInBounds⟩
  | write => exact .inl ⟨_, hwith _, h, rfl⟩
  | loopStart =>
    by_cases hzero : s.tape[place] = 0
    · exact .inr (.inl ⟨(hwith _).trans (if_pos hzero), .inl rfl⟩)
    · exact .inl ⟨s, (hwith _).trans (if_neg hzero), h, rfl⟩
  | loopEnd =>
    by_cases hzero : s.tape[place] = 0
    · exact .inl ⟨s, (hwith _).trans (if_pos hzero), h, rfl⟩
    · exact .inr (.inl ⟨(hwith _).trans (if_neg hzero), .inr rfl⟩)

theorem deposit_input (s : Memory) (value : ℤ) : ((s.deposit value).memory s).input = s.input := by
  unfold deposit
  cases Tape.target s.tape.size s.pointer value <;> rfl

theorem withCell_input {s : Memory} {use : UInt8 → Work}
    (h : ∀ cell, ((use cell).memory s).input = s.input) :
    ((s.withCell use).memory s).input = s.input := by
  unfold withCell
  cases s.cell with
  | ok cell => exact h cell
  | error fault => rfl

/-- Commands that do not read leave the input alone. -/
theorem work_input_of_ne_read (s : Memory) {command : Command} (hread : command ≠ .read) :
    ((s.work command).memory s).input = s.input := by
  cases command with
  | comment => rfl
  | moveLeft =>
    unfold work
    split_ifs <;> rfl
  | moveRight =>
    unfold work
    split_ifs <;> rfl
  | read => exact absurd rfl hread
  | increment => exact withCell_input fun _ ↦ deposit_input s _
  | decrement => exact withCell_input fun _ ↦ deposit_input s _
  | write => exact withCell_input fun _ ↦ rfl
  | loopStart => exact withCell_input fun _ ↦ by split_ifs <;> rfl
  | loopEnd => exact withCell_input fun _ ↦ by split_ifs <;> rfl

/-- A command takes answers from the input, and puts none back. -/
theorem work_input (s : Memory) (command : Command) :
    ((s.work command).memory s).input <:+ s.input := by
  by_cases hread : command = .read
  · subst hread
    obtain ⟨tape, pointer, input, output⟩ := s
    cases input with
    | nil => exact List.suffix_refl _
    | cons answer rest =>
      cases answer with
      | none => exact List.suffix_cons _ _
      | some value =>
        simp only [work, deposit]
        cases Tape.target tape.size pointer value with
        | ok found => exact List.suffix_cons _ _
        | error fault => exact List.suffix_cons _ _
  · rw [work_input_of_ne_read s hread]

end Memory

/-! ### Moves -/

namespace Machine

/-- What the commands of a machine work on. -/
def memory (m : Machine) : Memory := ⟨m.tape, m.pointer, m.input, m.output⟩

/-- The machine with another memory. -/
def setMemory (m : Machine) (s : Memory) : Machine :=
  { m with tape := s.tape, pointer := s.pointer, input := s.input, output := s.output }

/-- The machine after a command that has been carried out, at its next position. -/
def goOn (m : Machine) (s : Memory) (next : ℤ) : Machine :=
  { m.setMemory s with pc := next, steps := m.steps + 1 }

/-- What a step answers, given what becomes of its command. -/
def settle (code : Code) (m : Machine) : Work → Machine × Except Fault Bool
  | .done s => (m.setMemory s).proceed code (m.pc + 1)
  | .jump => m.jump code
  | .fails s failure => (m.setMemory s).fail failure
  | .faults s fault => (m.setMemory s, .error fault)

theorem store_eq_settle (code : Code) (m : Machine) (s : Memory) (value : ℤ) :
    (m.setMemory s).store code value = m.settle code (s.deposit value) := by
  have htarget : Tape.target (m.setMemory s).tape.size (m.setMemory s).pointer value =
      Tape.target s.tape.size s.pointer value := rfl
  unfold Machine.store Memory.deposit
  rw [htarget]
  cases Tape.target s.tape.size s.pointer value <;> rfl

theorem cell_eq_settle (code : Code) (m : Machine) {answer : UInt8 → Machine × Except Fault Bool}
    {use : UInt8 → Work} (h : ∀ cell, answer cell = m.settle code (use cell)) :
    (match m.cell with
      | .ok cell => answer cell
      | .error fault => (m, .error fault)) = m.settle code (m.memory.withCell use) := by
  have hcell : m.memory.cell = m.cell := rfl
  unfold Memory.withCell
  rw [hcell]
  cases m.cell with
  | ok cell => exact h cell
  | error fault => rfl

/-- A step does what its command does to the memory, and the rest follows. -/
theorem execute_eq_settle (code : Code) (m : Machine) (command : Command) :
    m.execute code command = m.settle code (m.memory.work command) := by
  cases command with
  | comment => rfl
  | moveLeft =>
    by_cases hleft : m.pointer = 0
    · have hmemory : m.memory.pointer = 0 := hleft
      simp only [execute, Memory.work, if_pos hleft, if_pos hmemory]
      rfl
    · have hmemory : m.memory.pointer ≠ 0 := hleft
      simp only [execute, Memory.work, if_neg hleft, if_neg hmemory]
      rfl
  | moveRight =>
    by_cases hright : m.pointer + 1 = m.tape.size
    · have hmemory : m.memory.pointer + 1 = m.memory.tape.size := hright
      simp only [execute, Memory.work, if_pos hright, if_pos hmemory]
      rfl
    · have hmemory : m.memory.pointer + 1 ≠ m.memory.tape.size := hright
      simp only [execute, Memory.work, if_neg hright, if_neg hmemory]
      rfl
  | read =>
    obtain ⟨tape, pointer, pc, steps, failure, input, output, journal⟩ := m
    cases input with
    | nil => rfl
    | cons answer rest =>
      cases answer with
      | none => rfl
      | some value => exact store_eq_settle code _ ⟨tape, pointer, rest, output⟩ value
  | increment =>
    exact cell_eq_settle code m fun cell ↦ store_eq_settle code m m.memory _
  | decrement =>
    exact cell_eq_settle code m fun cell ↦ store_eq_settle code m m.memory _
  | write => exact cell_eq_settle code m fun _ ↦ rfl
  | loopStart =>
    refine cell_eq_settle code m fun cell ↦ ?_
    by_cases hzero : cell = 0
    · rw [if_pos hzero, if_pos hzero]
      rfl
    · rw [if_neg hzero, if_neg hzero]
      rfl
  | loopEnd =>
    refine cell_eq_settle code m fun cell ↦ ?_
    by_cases hzero : cell = 0
    · rw [if_pos hzero, if_pos hzero]
      rfl
    · rw [if_neg hzero, if_neg hzero]
      rfl

/-- A step leaves the memory that its command leaves. -/
theorem settle_memory (code : Code) (m : Machine) (work : Work) :
    (m.settle code work).1.memory = work.memory m.memory := by
  have hproceed (after : Machine) (next : ℤ) :
      (after.proceed code next).1.memory = after.memory := by
    unfold proceed
    dsimp only
    split_ifs <;> rfl
  cases work with
  | done s => exact hproceed _ _
  | jump =>
    unfold settle jump
    cases code.index.partner? m.pc with
    | none => rfl
    | some other => exact hproceed _ _
  | fails s failure => rfl
  | faults s fault => rfl

theorem step_input (code : Code) (m : Machine) : (m.step code).1.input <:+ m.input := by
  unfold step
  split_ifs
  · exact List.suffix_refl _
  · cases code.program.get? m.pc with
    | none => exact List.suffix_refl _
    | some c =>
      dsimp only
      rw [execute_eq_settle]
      change (m.settle code _).1.memory.input <:+ m.memory.input
      rw [settle_memory]
      exact m.memory.work_input (Command.ofChar c)

/-- Notes down that the run has come to the end of the code. -/
def noteHalted (m : Machine) : Machine :=
  { m with journal := m.journal.push (.halted m.steps) }

/-- What a step answers after a command that has been carried out. -/
def arrive (code : Code) (m : Machine) : Machine × Except Fault Bool :=
  if m.halted code then (m.noteHalted, .ok false) else (m, .ok true)

/-- The machine after the command at the current position has been carried out. There is none if
the run is over, and none if the command fails or faults. -/
def move (code : Code) (m : Machine) : Option Machine :=
  if m.halted code then none
  else
    match code.program.get? m.pc with
    | none => none
    | some c =>
      match m.memory.work (Command.ofChar c) with
      | .done s => some (m.goOn s (m.pc + 1))
      | .jump => (code.index.partner? m.pc).map fun other ↦ m.goOn m.memory (other + 1)
      | .fails _ _ => none
      | .faults _ _ => none

variable {code : Code} {start m n next last : Machine}

theorem pc_lt_of_running (hrun : m.halted code = false) : m.pc < code.program.size := by
  by_contra hend
  have hle : (code.program.size : ℤ) ≤ m.pc := Int.not_lt.mp hend
  simp [halted, hle] at hrun

theorem get?_natCast {position : ℕ} {c : Char}
    (hc : code.program.chars.toList[position]? = some c) :
    code.program.get? position = some c := by
  rw [Program.get?, entry?_natCast, ← Array.getElem?_toList, hc]

theorem move_of_halted (h : m.halted code = true) : m.move code = none := if_pos h

theorem running_of_move (h : m.move code = some next) : m.halted code = false := by
  by_contra hhalted
  rw [move_of_halted (by simpa using hhalted)] at h
  cases h

theorem step_of_halted (h : m.halted code = true) : m.step code = (m, .ok false) := if_pos h

theorem step_eq_settle {c : Char} (hrun : m.halted code = false)
    (hc : code.program.get? m.pc = some c) :
    m.step code = m.settle code (m.memory.work (Command.ofChar c)) := by
  simp only [step, hrun, hc, Bool.false_eq_true, if_false, execute_eq_settle]

theorem move_eq {c : Char} (hrun : m.halted code = false)
    (hc : code.program.get? m.pc = some c) :
    m.move code =
      match m.memory.work (Command.ofChar c) with
      | .done s => some (m.goOn s (m.pc + 1))
      | .jump => (code.index.partner? m.pc).map fun other ↦ m.goOn m.memory (other + 1)
      | .fails _ _ => none
      | .faults _ _ => none := by
  simp only [move, hrun, hc, Bool.false_eq_true, if_false]

/-- A step that makes a move answers with the machine after it. -/
theorem step_of_move (h : m.move code = some next) : m.step code = next.arrive code := by
  have hrun := running_of_move h
  cases hc : code.program.get? m.pc with
  | none =>
    simp only [move, hrun, hc, Bool.false_eq_true, if_false] at h
    cases h
  | some c =>
    rw [step_eq_settle hrun hc]
    rw [move_eq hrun hc] at h
    cases hwork : m.memory.work (Command.ofChar c) with
    | done s =>
      rw [hwork] at h
      cases h
      rfl
    | jump =>
      rw [hwork, Option.map_eq_some_iff] at h
      obtain ⟨other, hother, rfl⟩ := h
      simp only [settle, jump, hother]
      rfl
    | fails s failure =>
      rw [hwork] at h
      cases h
    | faults s fault =>
      rw [hwork] at h
      cases h

/-- A step that makes a move leaves the memory of that move. -/
theorem memory_step_of_move (h : m.move code = some next) :
    (m.step code).1.memory = next.memory := by
  rw [step_of_move h, arrive]
  split_ifs <;> rfl

/-- A step that makes no move does not go on. -/
theorem step_of_not_move (h : m.move code = none) : (m.step code).2 ≠ .ok true := by
  by_cases hhalted : m.halted code = true
  · rw [step_of_halted hhalted]
    simp
  · have hrun : m.halted code = false := by simpa using hhalted
    cases hc : code.program.get? m.pc with
    | none => simp [step, hrun, hc]
    | some c =>
      rw [step_eq_settle hrun hc]
      rw [move_eq hrun hc] at h
      cases hwork : m.memory.work (Command.ofChar c) with
      | done s =>
        rw [hwork] at h
        cases h
      | jump =>
        rw [hwork, Option.map_eq_none_iff] at h
        simp [settle, jump, h]
      | fails s failure => simp [settle, fail]
      | faults s fault => simp [settle]

/-- The end of a run that makes no further move: at the end of the code this is noted down, and
otherwise it is the answer of the command that is not carried out. -/
def conclude (code : Code) (m : Machine) : Machine × Except Fault Unit :=
  if m.halted code then (m.noteHalted, .ok ())
  else ((m.step code).1, (m.step code).2.map fun _ ↦ ())

theorem conclude_of_halted (h : m.halted code = true) :
    m.conclude code = (m.noteHalted, .ok ()) := if_pos h

/-- A run step by step that makes no move ends at once. -/
theorem walk_of_not_move (hrun : m.halted code = false) (h : m.move code = none) (fuel : ℕ) :
    m.walk code (fuel + 1) = some (m.conclude code) := by
  have hanswer := step_of_not_move h
  simp only [walk, conclude, hrun, Bool.false_eq_true, if_false]
  generalize m.step code = result at hanswer ⊢
  obtain ⟨after, answer⟩ := result
  cases answer with
  | error fault => rfl
  | ok goesOn =>
    cases goesOn with
    | false => rfl
    | true => exact absurd rfl hanswer

theorem walk_of_move (h : m.move code = some next) (fuel : ℕ) :
    m.walk code (fuel + 1) =
      if next.halted code then some (next.conclude code) else next.walk code fuel := by
  simp only [walk, step_of_move h, arrive]
  by_cases hhalted : next.halted code = true
  · rw [if_pos hhalted, if_pos hhalted, conclude_of_halted hhalted]
  · rw [if_neg hhalted, if_neg hhalted]

theorem walk_of_halted (h : m.halted code = true) (fuel : ℕ) :
    m.walk code (fuel + 1) = some (m, .ok ()) := by
  simp only [walk, step_of_halted h]

/-- How a run from a machine ends, whatever way it is carried out: at once if it is over, and
otherwise where the moves end. -/
def Ends (code : Code) (m : Machine) (outcome : Machine × Except Fault Unit) : Prop :=
  if m.halted code then outcome = (m, .ok ())
  else ∃ last ∈ eval (move code) m, outcome = last.conclude code

theorem ends_of_halted {outcome : Machine × Except Fault Unit} (h : m.halted code = true) :
    m.Ends code outcome ↔ outcome = (m, .ok ()) := by
  unfold Ends
  rw [if_pos h]

theorem ends_of_running {outcome : Machine × Except Fault Unit} (h : m.halted code = false) :
    m.Ends code outcome ↔ ∃ last ∈ eval (move code) m, outcome = last.conclude code := by
  unfold Ends
  rw [if_neg (by simp [h])]

/-- A run that is not over ends step by step exactly where the moves end. -/
theorem walk_eq_some_iff_of_running {outcome : Machine × Except Fault Unit}
    (hrun : m.halted code = false) :
    (∃ fuel, m.walk code fuel = some outcome) ↔
      ∃ last ∈ eval (move code) m, outcome = last.conclude code := by
  constructor
  · rintro ⟨fuel, hwalk⟩
    induction fuel generalizing m with
    | zero => cases hwalk
    | succ fuel ih =>
      cases hmove : m.move code with
      | none =>
        rw [walk_of_not_move hrun hmove] at hwalk
        cases hwalk
        exact ⟨m, mem_eval.mpr ⟨.refl, hmove⟩, rfl⟩
      | some next =>
        rw [walk_of_move hmove] at hwalk
        have heval : eval (move code) m = eval (move code) next :=
          reaches_eval (Relation.ReflTransGen.single hmove)
        rw [heval]
        by_cases hhalted : next.halted code = true
        · rw [if_pos hhalted] at hwalk
          cases hwalk
          exact ⟨next, mem_eval.mpr ⟨.refl, move_of_halted hhalted⟩, rfl⟩
        · rw [if_neg hhalted] at hwalk
          exact ih (by simpa using hhalted) hwalk
  · rintro ⟨last, hlast, rfl⟩
    revert hrun
    refine evalInduction hlast fun m hlast ih hrun ↦ ?_
    cases hmove : m.move code with
    | none =>
      obtain rfl : last = m := (eval_maximal (mem_eval.mpr ⟨.refl, hmove⟩)).mp (mem_eval.mp hlast).1
      exact ⟨1, walk_of_not_move hrun hmove 0⟩
    | some next =>
      have heval : eval (move code) m = eval (move code) next :=
        reaches_eval (Relation.ReflTransGen.single hmove)
      by_cases hhalted : next.halted code = true
      · have hnext := mem_eval.mpr ⟨.refl, move_of_halted hhalted⟩
        rw [heval] at hlast
        obtain rfl : last = next := Part.mem_unique hlast hnext
        exact ⟨1, by rw [walk_of_move hmove, if_pos hhalted]⟩
      · obtain ⟨fuel, hfuel⟩ := ih next hmove (by simpa using hhalted)
        exact ⟨fuel + 1, by rw [walk_of_move hmove, if_neg hhalted, hfuel]⟩

/-- Stepping until the run is over is one way to carry it out. -/
theorem walk_eq_some_iff {outcome : Machine × Except Fault Unit} :
    (∃ fuel, m.walk code fuel = some outcome) ↔ m.Ends code outcome := by
  by_cases hhalted : m.halted code = true
  · rw [ends_of_halted hhalted]
    constructor
    · rintro ⟨fuel, hwalk⟩
      cases fuel with
      | zero => cases hwalk
      | succ fuel =>
        rw [walk_of_halted hhalted] at hwalk
        exact (Option.some.inj hwalk).symm
    · intro houtcome
      exact ⟨1, by rw [walk_of_halted hhalted, houtcome]⟩
  · have hrun : m.halted code = false := by simpa using hhalted
    rw [ends_of_running hrun, walk_eq_some_iff_of_running hrun]

theorem Ends.unique {first second : Machine × Except Fault Unit} (hfirst : m.Ends code first)
    (hsecond : m.Ends code second) : first = second := by
  by_cases hhalted : m.halted code = true
  · rw [(ends_of_halted hhalted).mp hfirst, (ends_of_halted hhalted).mp hsecond]
  · have hrun : m.halted code = false := by simpa using hhalted
    obtain ⟨last, hlast, rfl⟩ := (ends_of_running hrun).mp hfirst
    obtain ⟨other, hother, rfl⟩ := (ends_of_running hrun).mp hsecond
    rw [Part.mem_unique hlast hother]

theorem steps_of_move (h : m.move code = some next) : next.steps = m.steps + 1 := by
  unfold move at h
  split_ifs at h
  split at h
  · cases h
  · split at h
    · cases h
      rfl
    · obtain ⟨other, -, rfl⟩ := Option.map_eq_some_iff.mp h
      rfl
    · cases h
    · cases h

/-- Moves never turn back the clock. -/
theorem steps_le_of_reaches (h : Reaches (move code) m last) : m.steps ≤ last.steps := by
  induction h with
  | refl => exact Nat.le_refl _
  | tail _ hmove ih =>
    rw [steps_of_move hmove]
    omega

/-- The machine after a number of steps. -/
def after (code : Code) (number : ℕ) (m : Machine) : Machine :=
  (fun m ↦ (m.step code).1)^[number] m

theorem steps_sub_of_move (h : Reaches (move code) start n) (hmove : n.move code = some next) :
    next.steps - start.steps = n.steps - start.steps + 1 := by
  have hle := steps_le_of_reaches h
  rw [steps_of_move hmove]
  omega

/-- As long as a run goes on, its machine is found by counting steps. -/
theorem after_of_reaches (h : Reaches (move code) start n) (hrun : n.halted code = false) :
    start.after code (n.steps - start.steps) = n := by
  induction h with
  | refl =>
    rw [Nat.sub_self]
    rfl
  | @tail middle next hreach hmove ih =>
    rw [steps_sub_of_move hreach hmove, after, Function.iterate_succ_apply']
    change ((start.after code (middle.steps - start.steps)).step code).1 = next
    rw [ih (running_of_move hmove), step_of_move hmove, arrive, if_neg (by simp [hrun])]

end Machine

/-! ### Safe machines -/

/-- The machine can carry out its code: the index belongs to the program, the pointer is on the
tape, and the position is in the program or right behind it. -/
structure Machine.Safe (code : Code) (m : Machine) : Prop where
  built : BracketIndex.build code.program = .ok code.index
  inRange : m.memory.InRange
  pc_nonneg : 0 ≤ m.pc
  pc_le : m.pc ≤ code.program.size

namespace Machine.Safe

open Matching

variable {code : Code} {m next last : Machine}

/-- A safe machine whose run is not over has a command to carry out. -/
theorem fetch (h : m.Safe code) (hrun : m.halted code = false) :
    ∃ (position : ℕ) (c : Char), m.pc = position ∧
      code.program.chars.toList[position]? = some c ∧ code.program.get? m.pc = some c := by
  obtain ⟨position, hposition⟩ := Int.eq_ofNat_of_zero_le h.pc_nonneg
  have hlt : position < code.program.chars.size := by
    have hend := pc_lt_of_running hrun
    rw [hposition] at hend
    exact Int.ofNat_lt.mp hend
  refine ⟨position, code.program.chars[position], hposition, ?_, ?_⟩
  · rw [Array.getElem?_toList, Array.getElem?_eq_getElem hlt]
  · rw [hposition, Program.get?, entry?_natCast, Array.getElem?_eq_getElem hlt]

/-- The bracket that a command jumps from has a partner in the program. -/
theorem exists_partner (h : m.Safe code) {position : ℕ} {c : Char} (hposition : m.pc = position)
    (hc : code.program.chars.toList[position]? = some c)
    (hbracket : Command.ofChar c = .loopStart ∨ Command.ofChar c = .loopEnd) :
    ∃ other : ℕ, other < code.program.size ∧ code.index.partner? m.pc = some (other : ℤ) := by
  rw [hposition]
  have hsize : code.program.chars.toList.length = code.program.size := Array.length_toList
  rcases hbracket with hopen | hclose
  · obtain rfl : c = '[' := Command.eq_of_symbol? hopen rfl
    obtain ⟨other, hpair⟩ := exists_closing h.built hc
    exact ⟨other, hsize ▸ hpair.closing_lt_length, partner?_opening h.built hpair⟩
  · obtain rfl : c = ']' := Command.eq_of_symbol? hclose rfl
    obtain ⟨other, hpair⟩ := exists_opening h.built hc
    exact ⟨other, hsize ▸ hpair.lt.trans hpair.closing_lt_length, partner?_closing h.built hpair⟩

/-- A machine that goes on from a safe one, at a position of the program or right behind it. -/
theorem goOn (h : m.Safe code) {s : Memory} (hs : s.InRange) {position : ℤ} (hpos : 0 ≤ position)
    (hle : position ≤ code.program.size) : (m.goOn s position).Safe code :=
  ⟨h.built, hs, hpos, hle⟩

/-- How a step of a safe machine can end: it makes a move, it fails and has changed
nothing but the input, or the value it has read is no byte. -/
theorem step_cases (h : m.Safe code) (hrun : m.halted code = false) :
    (∃ next, m.move code = some next ∧ next.Safe code ∧ next.tape.size = m.tape.size) ∨
    (m.move code = none ∧ ∃ rest failure,
      m.step code = { m with input := rest }.fail failure) ∨
    (m.move code = none ∧ ∃ value rest, m.input = some value :: rest ∧
      ¬(0 ≤ value ∧ value < 256) ∧
      m.step code = ({ m with input := rest }, .error (.ofByte value))) := by
  obtain ⟨position, c, hposition, hc, hget⟩ := h.fetch hrun
  have hlt : position < code.program.size := by
    have := (List.getElem?_eq_some_iff.mp hc).1
    rwa [Array.length_toList] at this
  have hstep := step_eq_settle hrun hget
  have hmove := move_eq hrun hget
  rcases Memory.work_cases h.inRange (Command.ofChar c) with
    ⟨s, hwork, hs, hsize⟩ | ⟨hwork, hbracket⟩ | ⟨rest, failure, hwork⟩ |
      ⟨value, rest, hwork, -, hinput, hvalue⟩
  · rw [hwork] at hmove
    exact .inl ⟨_, hmove, h.goOn hs (by omega) (by omega), hsize⟩
  · obtain ⟨other, hother, hpartner⟩ := h.exists_partner hposition hc hbracket
    rw [hwork, hpartner] at hmove
    exact .inl ⟨_, hmove, h.goOn h.inRange (by omega) (by omega), rfl⟩
  · rw [hwork] at hmove hstep
    exact .inr (.inl ⟨hmove, rest, failure, hstep⟩)
  · rw [hwork] at hmove hstep
    exact .inr (.inr ⟨hmove, value, rest, hinput, hvalue, hstep⟩)

theorem move (h : m.Safe code) (hmove : m.move code = some next) :
    next.Safe code ∧ next.tape.size = m.tape.size := by
  have hrun := running_of_move hmove
  rcases h.step_cases hrun with ⟨other, hother, hsafe⟩ | ⟨hnone, -⟩ | ⟨hnone, -⟩
  · rw [hother] at hmove
    cases hmove
    exact hsafe
  · rw [hnone] at hmove
    cases hmove
  · rw [hnone] at hmove
    cases hmove

/-- Whatever a step answers, a safe machine stays safe and keeps the length of its tape. -/
theorem step (h : m.Safe code) :
    (m.step code).1.Safe code ∧ (m.step code).1.tape.size = m.tape.size := by
  by_cases hhalted : m.halted code = true
  · rw [step_of_halted hhalted]
    exact ⟨h, rfl⟩
  · rcases h.step_cases (by simpa using hhalted) with ⟨next, hmove, hsafe, hsize⟩ |
      ⟨-, rest, failure, hstep⟩ | ⟨-, value, rest, -, -, hstep⟩
    · rw [step_of_move hmove]
      unfold arrive
      split_ifs
      · exact ⟨⟨hsafe.built, hsafe.inRange, hsafe.pc_nonneg, hsafe.pc_le⟩, hsize⟩
      · exact ⟨hsafe, hsize⟩
    · rw [hstep]
      exact ⟨⟨h.built, h.inRange, h.pc_nonneg, h.pc_le⟩, rfl⟩
    · rw [hstep]
      exact ⟨⟨h.built, h.inRange, h.pc_nonneg, h.pc_le⟩, rfl⟩

/-- The only fault of a safe machine is an input value that is no byte. -/
theorem fault_of_step (h : m.Safe code) {fault : Fault}
    (hfault : (m.step code).2 = .error fault) :
    ∃ value rest, m.input = some value :: rest ∧ ¬(0 ≤ value ∧ value < 256) ∧
      fault = .ofByte value := by
  by_cases hhalted : m.halted code = true
  · rw [step_of_halted hhalted] at hfault
    cases hfault
  · rcases h.step_cases (by simpa using hhalted) with ⟨next, hmove, -, -⟩ |
      ⟨-, rest, failure, hstep⟩ | ⟨-, value, rest, hinput, hvalue, hstep⟩
    · rw [step_of_move hmove] at hfault
      unfold arrive at hfault
      split_ifs at hfault
    · rw [hstep] at hfault
      cases hfault
    · rw [hstep] at hfault
      cases hfault
      exact ⟨value, rest, hinput, hvalue, rfl⟩

/-- Moves keep a machine safe and keep the length of its tape. -/
theorem reaches (h : m.Safe code) (hreach : Reaches (Machine.move code) m last) :
    last.Safe code ∧ last.tape.size = m.tape.size := by
  induction hreach with
  | refl => exact ⟨h, rfl⟩
  | tail _ hmove ih =>
    have hnext := ih.1.move hmove
    exact ⟨hnext.1, hnext.2.trans ih.2⟩

/-- However a run from a safe machine ends, it leaves a safe machine with a tape of the same
length. -/
theorem ends (h : m.Safe code) {outcome : Machine × Except Fault Unit}
    (hends : m.Ends code outcome) :
    outcome.1.Safe code ∧ outcome.1.tape.size = m.tape.size := by
  by_cases hhalted : m.halted code = true
  · rw [(ends_of_halted hhalted).mp hends]
    exact ⟨h, rfl⟩
  · obtain ⟨last, hlast, rfl⟩ := (ends_of_running (by simpa using hhalted)).mp hends
    obtain ⟨hsafe, hsize⟩ := h.reaches (mem_eval.mp hlast).1
    unfold conclude
    split_ifs
    · exact ⟨⟨hsafe.built, hsafe.inRange, hsafe.pc_nonneg, hsafe.pc_le⟩, hsize⟩
    · exact ⟨hsafe.step.1, hsafe.step.2.trans hsize⟩

end Machine.Safe

end TapeMachine
