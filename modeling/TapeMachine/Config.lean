import TapeMachine.Argument

/-!
The settings of an engine, and the checks they pass.
-/

set_option autoImplicit false
set_option relaxedAutoImplicit false

namespace TapeMachine

/-- How an engine is set up: the number of its cells, whether a load keeps the tape of the run
before, and whether runs go by sweeps. A tape has at least one cell. -/
structure Config where
  tapeSize : Nat
  tapeSize_pos : 0 < tapeSize
  keepTape : Bool
  quick : Bool
  deriving DecidableEq, Repr

/-- Why a setting is refused. -/
inductive ConfigError where
  | notInteger (written : String)
  | notPositive (value : Int)
  deriving DecidableEq, Repr

def ConfigError.message : ConfigError → String
  | .notInteger written => "tape_size must be an integer, got " ++ written
  | .notPositive value => "tape_size must be positive, got " ++ toString value

namespace Config

def defaultTapeSize : Nat := 30000

/-- Checks the number of cells: an integer that is at least one. Truth values are no integers. -/
def make (tapeSize : Argument) (keepTape quick : Bool) : Except ConfigError Config :=
  match tapeSize with
  | .int value =>
    if h : 0 < value.toNat then .ok ⟨value.toNat, h, keepTape, quick⟩
    else .error (.notPositive value)
  | other => .error (.notInteger other.write)

/-- The settings of an engine for which nothing was said. -/
def standard : Config := ⟨defaultTapeSize, by decide, false, true⟩

/-- The same settings with another number of cells. -/
def withTapeSize (config : Config) (tapeSize : Argument) : Except ConfigError Config :=
  make tapeSize config.keepTape config.quick

/-- The settings with their names. -/
def write (config : Config) : String :=
  "EngineConfig(tape_size=" ++ toString config.tapeSize ++ ", persist_state=" ++
    Argument.writeBool config.keepTape ++ ", use_jit=" ++ Argument.writeBool config.quick ++ ")"

end Config

end TapeMachine
