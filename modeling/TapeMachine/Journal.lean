import TapeMachine.Failure

/-!
The journal: what an engine notes down while it loads and runs programs, and how each note reads
in a debug log.
-/

set_option autoImplicit false
set_option relaxedAutoImplicit false

namespace TapeMachine

/-- One note of the journal. -/
inductive Event where
  | unmatchedClose (position : Int)
  | unclosedOpens (count : Nat)
  | rejected (failure : Failure)
  | loaded (chars loops : Nat)
  | halted (steps : Nat)
  | failed (pc : Int) (failure : Failure)
  | timed (steps : Nat)
  deriving DecidableEq, Repr

namespace Event

/-- The notes that a bracket scan leaves on a failure. -/
def ofScan : Failure → List Event
  | .unmatchedClose position => [.unmatchedClose position]
  | .unclosedOpens positions => [.unclosedOpens positions.length]
  | _ => []

/-- The channel of the debug log that a note belongs to. -/
def channel : Event → String
  | .unmatchedClose _ => "bftape.brackets"
  | .unclosedOpens _ => "bftape.brackets"
  | .timed _ => "bftape.cli"
  | _ => "bftape.engine"

/-- The text of a note; `elapsed` is the time in milliseconds that a run took. -/
def describe (elapsed : String) : Event → String
  | .unmatchedClose position => "unmatched ']' at " ++ toString position
  | .unclosedOpens count => toString count ++ " unclosed '[' after scan"
  | .rejected failure => "rejected program: " ++ failure.message
  | .loaded chars loops =>
    "loaded program: " ++ toString chars ++ " chars, " ++ toString loops ++ " loops"
  | .halted steps => "halted after " ++ toString steps ++ " steps"
  | .failed pc failure => "run failed at pc=" ++ toString pc ++ ": " ++ failure.message
  | .timed steps => "execution took " ++ elapsed ++ " ms (" ++ toString steps ++ " steps)"

/-- The line of the debug log for a note. -/
def logLine (elapsed : String) (event : Event) : String :=
  "DEBUG " ++ event.channel ++ ": " ++ event.describe elapsed ++ "\n"

end Event

end TapeMachine
