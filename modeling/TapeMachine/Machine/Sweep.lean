import TapeMachine.Machine

/-!
The quick way to run. A sweep carries out commands on the bare tape until it meets one that reads
or writes, one that would leave the tape, or the end of the code. Between sweeps the machine steps
once for the reading or writing command.
-/

set_option autoImplicit false
set_option relaxedAutoImplicit false

namespace TapeMachine

/-- Why a sweep stopped. -/
inductive Stop where
  | finished
  | write
  | read
  | leftEnd
  | rightEnd
  deriving DecidableEq, Repr

/-- The number of a stop. -/
def Stop.code : Stop → Nat
  | .finished => 0
  | .write => 1
  | .read => 2
  | .leftEnd => 3
  | .rightEnd => 4

/-- All stops, by number. -/
def Stop.all : List Stop := [.finished, .write, .read, .leftEnd, .rightEnd]

/-- Where a sweep stopped, and after how many commands. -/
structure Landing where
  pc : Int
  pointer : Int
  stop : Stop
  steps : Nat
  deriving DecidableEq, Repr

/-- What a sweep leaves behind: the tape, and where it stopped unless a fault cut it short. -/
structure Swept where
  tape : Tape
  landing : Except Fault Landing

/-- Carries out commands from `pc` on, at most `fuel` of them. The stopping command is not carried
out. -/
def sweep (codes : Array Nat) (index : BracketIndex) :
    Nat → Tape → Int → Int → Nat → Option Swept
  | 0, _, _, _, _ => none
  | fuel + 1, tape, pc, pointer, steps =>
    if (codes.size : Int) ≤ pc then some ⟨tape, .ok ⟨pc, pointer, .finished, steps⟩⟩
    else
      match entry? codes pc with
      | none => some ⟨tape, .error (.ofIndex pc codes.size)⟩
      | some code =>
        match Command.ofCode code with
        | .moveRight =>
          if pointer + 1 = tape.size then some ⟨tape, .ok ⟨pc, pointer, .rightEnd, steps⟩⟩
          else sweep codes index fuel tape (pc + 1) (pointer + 1) (steps + 1)
        | .moveLeft =>
          if pointer = 0 then some ⟨tape, .ok ⟨pc, pointer, .leftEnd, steps⟩⟩
          else sweep codes index fuel tape (pc + 1) (pointer - 1) (steps + 1)
        | .increment =>
          match slot? tape.size pointer with
          | some place =>
            sweep codes index fuel (tape.modify place (· + 1)) (pc + 1) pointer (steps + 1)
          | none => some ⟨tape, .error (.ofIndex pointer tape.size)⟩
        | .decrement =>
          match slot? tape.size pointer with
          | some place =>
            sweep codes index fuel (tape.modify place (· - 1)) (pc + 1) pointer (steps + 1)
          | none => some ⟨tape, .error (.ofIndex pointer tape.size)⟩
        | .write => some ⟨tape, .ok ⟨pc, pointer, .write, steps⟩⟩
        | .read => some ⟨tape, .ok ⟨pc, pointer, .read, steps⟩⟩
        | .loopStart =>
          match tape.cell pointer with
          | .error fault => some ⟨tape, .error fault⟩
          | .ok cell =>
            if cell = 0 then
              match index.jumpTarget pc with
              | .error fault => some ⟨tape, .error fault⟩
              | .ok next => sweep codes index fuel tape next pointer (steps + 1)
            else sweep codes index fuel tape (pc + 1) pointer (steps + 1)
        | .loopEnd =>
          match tape.cell pointer with
          | .error fault => some ⟨tape, .error fault⟩
          | .ok cell =>
            if cell = 0 then sweep codes index fuel tape (pc + 1) pointer (steps + 1)
            else
              match index.jumpTarget pc with
              | .error fault => some ⟨tape, .error fault⟩
              | .ok next => sweep codes index fuel tape next pointer (steps + 1)
        | .comment => sweep codes index fuel tape (pc + 1) pointer (steps + 1)

namespace Machine

/-- The machine where a sweep from its state has landed. -/
def land (m : Machine) (landing : Landing) : Machine :=
  { m with
    pc := landing.pc
    pointer := landing.pointer
    steps := m.steps + landing.steps }

/-- Runs by sweeps until the run is over. Both the number of sweeps and the length of each are
bounded by `fuel`. A fault in a sweep leaves the machine where the sweep began, with what the sweep
has done to the tape. -/
def dash (code : Code) (codes : Array Nat) : Nat → Machine → Option (Machine × Except Fault Unit)
  | 0, _ => none
  | fuel + 1, m =>
    if m.halted code then some (m, .ok ())
    else
      -- The sweep owns the tape and changes it in place.
      let tape := m.tape
      let m := { m with tape := #[] }
      match sweep codes code.index fuel tape m.pc m.pointer 0 with
      | none => none
      | some ⟨tape, .error fault⟩ => some ({ m with tape := tape }, .error fault)
      | some ⟨tape, .ok landing⟩ =>
        let m := { m with tape := tape }.land landing
        match landing.stop with
        | .finished =>
          dash code codes fuel { m with journal := m.journal.push (.halted m.steps) }
        | .leftEnd => dash code codes fuel (m.fail (.outOfBounds m.pointer .left)).1
        | .rightEnd => dash code codes fuel (m.fail (.outOfBounds m.pointer .right)).1
        | .write | .read =>
          match m.step code with
          | (m, .ok _) => dash code codes fuel m
          | (m, .error fault) => some (m, .error fault)

/-- Runs the code from the machine's state, by sweeps or step by step. -/
def run (quick : Bool) (code : Code) (fuel : Nat) (m : Machine) :
    Option (Machine × Except Fault Unit) :=
  if quick then m.dash code code.program.codes fuel else m.walk code fuel

end Machine

end TapeMachine
