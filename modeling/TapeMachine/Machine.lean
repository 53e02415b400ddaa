import TapeMachine.Brackets
import TapeMachine.Feed
import TapeMachine.Journal
import TapeMachine.Tape

/-!
The machine: a tape of bytes, a pointer into it, a position in the code, the bytes still to be read
and the bytes written so far. `step` carries out one command; `walk` repeats it until the run ends.
A run that needs more than the given number of steps has no result.

Pointer and position are integers. One that counts from the end of the tape or of the code is as
good as any other, and one beside them is a fault as soon as it is used.
-/

set_option autoImplicit false
set_option relaxedAutoImplicit false

namespace TapeMachine

/-- A machine in the middle of a run. `input` holds the answers that are still to come, `output` the
bytes written so far. -/
structure Machine where
  tape : Tape
  pointer : Int
  pc : Int
  steps : Nat
  failure : Option Failure
  input : Feed
  output : Array UInt8
  journal : Array Event
  deriving DecidableEq, Repr

namespace Machine

/-- The run is over: it has failed, or the position is past the end of the code. -/
def halted (code : Code) (m : Machine) : Bool :=
  m.failure.isSome || (code.program.size : Int) ≤ m.pc

/-- Ends the run with a failure. Nothing else changes. -/
def fail (m : Machine) (failure : Failure) : Machine × Except Fault Bool :=
  ({ m with failure := some failure, journal := m.journal.push (.failed m.pc failure) }, .ok false)

/-- Goes on at position `next` after a command that has been carried out. -/
def proceed (code : Code) (m : Machine) (next : Int) : Machine × Except Fault Bool :=
  let m := { m with pc := next, steps := m.steps + 1 }
  if m.halted code then ({ m with journal := m.journal.push (.halted m.steps) }, .ok false)
  else (m, .ok true)

/-- The value of the current cell. -/
def cell (m : Machine) : Except Fault UInt8 := m.tape.cell m.pointer

/-- Stores a value in the current cell and goes on with the next command. -/
def store (code : Code) (m : Machine) (value : Int) : Machine × Except Fault Bool :=
  match Tape.target m.tape.size m.pointer value with
  | .ok (place, byte) =>
    let m := { m with tape := m.tape.setIfInBounds place byte }
    m.proceed code (m.pc + 1)
  | .error fault => (m, .error fault)

/-- Goes on just past the partner of the current bracket. -/
def jump (code : Code) (m : Machine) : Machine × Except Fault Bool :=
  match code.index.partner? m.pc with
  | some other => m.proceed code (other + 1)
  | none => (m, .error (.noPartner m.pc))

/-- A jump looks its bracket up in the index, and what the lookup lacks is the fault of the jump. -/
theorem jump_eq_get (code : Code) (m : Machine) :
    m.jump code =
      match code.index.get m.pc with
      | .ok other => m.proceed code (other + 1)
      | .error fault => (m, .error fault) := by
  unfold jump BracketIndex.get
  cases code.index.partner? m.pc <;> rfl

/-- Carries out one command. -/
def execute (code : Code) (m : Machine) : Command → Machine × Except Fault Bool
  | .comment => m.proceed code (m.pc + 1)
  | .moveLeft =>
    if m.pointer = 0 then m.fail (.outOfBounds m.pointer .left)
    else
      let m := { m with pointer := m.pointer - 1 }
      m.proceed code (m.pc + 1)
  | .moveRight =>
    if m.pointer + 1 = m.tape.size then m.fail (.outOfBounds m.pointer .right)
    else
      let m := { m with pointer := m.pointer + 1 }
      m.proceed code (m.pc + 1)
  | .read =>
    match m.input with
    | [] => m.fail (.inputExhausted m.pointer)
    | none :: rest =>
      let m := { m with input := rest }
      m.fail (.inputExhausted m.pointer)
    | some value :: rest =>
      let m := { m with input := rest }
      m.store code value
  | .increment =>
    match m.cell with
    | .ok cell => m.store code ((cell.toNat + 1) % 256 : Nat)
    | .error fault => (m, .error fault)
  | .decrement =>
    match m.cell with
    | .ok cell => m.store code ((cell.toNat + 255) % 256 : Nat)
    | .error fault => (m, .error fault)
  | .write =>
    match m.cell with
    | .ok cell =>
      let m := { m with output := m.output.push cell }
      m.proceed code (m.pc + 1)
    | .error fault => (m, .error fault)
  | .loopStart =>
    match m.cell with
    | .ok cell => if cell = 0 then m.jump code else m.proceed code (m.pc + 1)
    | .error fault => (m, .error fault)
  | .loopEnd =>
    match m.cell with
    | .ok cell => if cell = 0 then m.proceed code (m.pc + 1) else m.jump code
    | .error fault => (m, .error fault)

/-- Carries out the command at the current position, unless the run is over. The answer tells
whether the run goes on. -/
def step (code : Code) (m : Machine) : Machine × Except Fault Bool :=
  if m.halted code then (m, .ok false)
  else
    match code.program.get? m.pc with
    | some c => m.execute code (Command.ofChar c)
    | none => (m, .error (.ofPosition m.pc))

/-- Steps until the run is over, at most `fuel` times. -/
def walk (code : Code) : Nat → Machine → Option (Machine × Except Fault Unit)
  | 0, _ => none
  | fuel + 1, m =>
    match m.step code with
    | (m, .ok true) => walk code fuel m
    | (m, .ok false) => some (m, .ok ())
    | (m, .error fault) => some (m, .error fault)

end Machine

end TapeMachine
