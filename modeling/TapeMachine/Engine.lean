import TapeMachine.Error
import TapeMachine.Machine.Sweep
import TapeMachine.Devices

/-!
The engine: a tape and pointer that outlive a run, the code that is loaded, and the source and sink
it talks to. A session is an engine together with the devices and the journal of what it did.
-/

set_option autoImplicit false
set_option relaxedAutoImplicit false

namespace TapeMachine

/-- An engine between two calls. -/
structure Engine where
  config : Config
  tape : Tape
  pointer : Int
  pc : Int
  steps : Nat
  failure : Option Failure
  loaded : Option Code
  source : Source
  sink : Sink
  deriving DecidableEq, Repr

/-- An engine with the devices that its handles refer to, and its journal. -/
structure Session where
  engine : Engine
  devices : Devices
  journal : Array Event
  deriving DecidableEq, Repr

/-- How a run ended. -/
structure RunResult where
  failure : Option Failure
  pc : Int
  pointer : Int
  steps : Nat
  deriving DecidableEq, Repr

namespace Engine

/-- Nothing is loaded, or the run of what is loaded is over. -/
def halted (e : Engine) : Bool :=
  match e.loaded with
  | none => true
  | some code => e.failure.isSome || (code.program.size : Int) ≤ e.pc

/-- The value of the current cell. -/
def cell (e : Engine) : Except Fault UInt8 := e.tape.cell e.pointer

/-- Puts values into cells, each given by its index, one after another. The first one that cannot be
stored is a fault; those before it have been stored. -/
def fill (e : Engine) : List (Int × Int) → Engine × Except Fault Unit
  | [] => (e, .ok ())
  | (index, value) :: rest =>
    match Tape.target e.tape.size index value with
    | .ok (place, byte) => fill { e with tape := e.tape.setIfInBounds place byte } rest
    | .error fault => (e, .error fault)

/-- Clears the tape and returns to the start of the code. Code, source and sink stay. -/
def reset (e : Engine) : Engine :=
  { e with
    tape := Tape.clear e.tape.size
    pointer := 0
    pc := 0
    steps := 0
    failure := none }

/-- Returns to the start of the code. The tape and pointer are cleared unless they are to be
kept. -/
def rewind (e : Engine) : Engine :=
  if e.config.keepTape then { e with pc := 0, steps := 0, failure := none } else e.reset

/-- The result of the run that has just ended. -/
def result (e : Engine) : RunResult := ⟨e.failure, e.pc, e.pointer, e.steps⟩

end Engine

namespace Session

/-- A new engine: a clear tape, nothing loaded, an empty source and an empty buffer. -/
def new (config : Config) (devices : Devices) : Session :=
  let (devices, source) := devices.bytesSource []
  let (devices, sink) := devices.openSink .none
  { engine :=
      { config := config
        tape := Tape.clear config.tapeSize
        pointer := 0
        pc := 0
        steps := 0
        failure := none
        loaded := none
        source := source
        sink := sink }
    devices := devices
    journal := #[] }

def note (s : Session) (events : List Event) : Session :=
  { s with journal := s.journal ++ events }

/-- The machine that runs for the engine: its tape and registers, what its source still has to
deliver, and what its sink has received. -/
def machine (s : Session) : Machine :=
  { tape := s.engine.tape
    pointer := s.engine.pointer
    pc := s.engine.pc
    steps := s.engine.steps
    failure := s.engine.failure
    input := s.devices.pending s.engine.source
    output := (s.devices.received s.engine.sink.drain).bytes
    journal := s.journal }

/-- The session after a machine has run for its engine. -/
def absorb (s : Session) (m : Machine) : Session :=
  { engine :=
      { s.engine with
        tape := m.tape
        pointer := m.pointer
        pc := m.pc
        steps := m.steps
        failure := m.failure }
    devices := (s.devices.setPending s.engine.source m.input).setWritten s.engine.sink m.output
    journal := m.journal }

def reset (s : Session) : Session := { s with engine := s.engine.reset }

/-- Turns away a program whose brackets do not pair. The engine has no code afterwards; tape,
pointer, counters, source and sink stay. -/
def reject (s : Session) (failure : Failure) : Session :=
  let s := { s with engine := { s.engine with loaded := none, failure := some failure } }
  s.note (Event.ofScan failure ++ [.rejected failure])

/-- Connects the engine to a source and a sink. The source comes first, and a text that does not
fit into bytes leaves both as they were. -/
def connect (s : Session) (input : Input) (output : Output) : Session × Except Error Unit :=
  match s.devices.openSource input with
  | .error cause => (s, .error (.source cause))
  | .ok (devices, source) =>
    let (devices, sink) := devices.openSink output
    let engine := { s.engine with source := source, sink := sink }
    ({ s with engine := engine, devices := devices }, .ok ())

/-- Installs code to be executed from its start. -/
def install (s : Session) (code : Code) : Session :=
  { s with engine := { s.engine.rewind with loaded := some code } }

/-- Loads a program and connects the engine. An argument that is no program changes nothing, a
program whose brackets do not pair is rejected. -/
def load (s : Session) (listing : Listing) (input : Input) (output : Output) :
    Session × Except Error (Except Failure Code) :=
  match listing.toProgram with
  | .error cause => (s, .error (.program cause))
  | .ok program =>
    match Code.compile program with
    | .error failure => (s.reject failure, .ok (.error failure))
    | .ok code =>
      match (s.install code).connect input output with
      | (s, .error cause) => (s, .error cause)
      | (s, .ok ()) =>
        (s.note [.loaded code.program.size code.index.size], .ok (.ok code))

/-- Carries out one command of the loaded code. The answer tells whether the run goes on. -/
def step (s : Session) : Session × Except Error Bool :=
  match s.engine.loaded with
  | none => (s, .ok false)
  | some code =>
    match s.machine.step code with
    | (m, .ok goesOn) => (s.absorb m, .ok goesOn)
    | (m, .error fault) => (s.absorb m, .error (.fault fault))

/-- Loads a program and runs it to its end. There is no result if `fuel` does not suffice. -/
def run (fuel : Nat) (s : Session) (listing : Listing) (input : Input) (output : Output) :
    Option (Session × Except Error RunResult) :=
  match s.load listing input output with
  | (s, .error cause) => some (s, .error cause)
  | (s, .ok (.error failure)) => some (s, .ok ⟨some failure, 0, s.engine.pointer, 0⟩)
  | (s, .ok (.ok code)) =>
    match s.machine.run s.engine.config.quick code fuel with
    | none => none
    | some (m, .ok ()) =>
      let s := s.absorb m
      some (s, .ok s.engine.result)
    | some (m, .error fault) => some (s.absorb m, .error (.fault fault))

end Session

end TapeMachine
