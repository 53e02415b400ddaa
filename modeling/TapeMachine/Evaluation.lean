import TapeMachine.Directory
import TapeMachine.Engine

/-!
One program, one input, one answer: running a program text or a program file on a new engine.
-/

set_option autoImplicit false
set_option relaxedAutoImplicit false

namespace TapeMachine

/-- What a caller may say about a run. What is left out has its usual value. -/
structure RunOptions where
  tapeSize : Argument
  quick : Option Bool

/-- Everything a run leaves behind: the bytes written, how it ended, and the tape. -/
structure Evaluation where
  output : Array UInt8
  result : RunResult
  tape : Tape
  deriving DecidableEq, Repr

/-- The settings for a run. -/
def RunOptions.config (options : RunOptions) : Except ConfigError Config :=
  let size :=
    match options.tapeSize with
    | .none => .int Config.defaultTapeSize
    | size => size
  Config.make size false (options.quick.getD true)

namespace Evaluation

/-- The bytes written, one character each. -/
def text (e : Evaluation) : String :=
  String.ofList (Text.decodeLatin1 e.output.toList)

/-- Runs a program on a new engine with checked settings, writing to a buffer. -/
def onEngine (fuel : Nat) (config : Config) (listing : Listing) (input : Input) :
    Option (Except Error Evaluation) :=
  let (devices, drain) := Devices.empty.addDrain
  match (Session.new config devices).run fuel listing input (.sink ⟨.buffer, drain⟩) with
  | none => none
  | some (_, .error cause) => some (.error cause)
  | some (s, .ok result) =>
    some (.ok ⟨(s.devices.received drain).bytes, result, s.engine.tape⟩)

/-- Runs a program on a new engine. The settings are checked first. -/
def ofListing (fuel : Nat) (listing : Listing) (input : Input) (options : RunOptions) :
    Option (Except Error Evaluation) :=
  match options.config with
  | .error cause => some (.error (.config cause))
  | .ok config => onEngine fuel config listing input

/-- Runs the program in a file. The file is read before anything else is looked at. -/
def ofFile (fuel : Nat) (directory : Directory) (path encoding : String) (input : Input)
    (options : RunOptions) : Option (Except Error Evaluation) :=
  match directory.readText (Directory.normalize path) encoding with
  | .error cause => some (.error cause)
  | .ok text => ofListing fuel (.given (.text text)) input options

end Evaluation

end TapeMachine
