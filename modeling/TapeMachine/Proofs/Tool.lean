import TapeMachine.CommandLine
import TapeMachine.Evaluation
import TapeMachine.Proofs.Handles

/-!
The command line tool evaluates programs. Whatever way its options choose a program and what it
reads, the tool runs the program on a new engine, as an evaluation does, from other handles and into
other ones. New engines with the same settings run a program text alike
(`Session.new_runs_alike`), so the tool has the bytes and the result of the evaluation at hand. It
shows the bytes, and it reports the failure, if there is one (`CommandLine.Outcome.Shows`).

What comes before the run is told from the options alone: `CommandLine.Options.Obtains` says which
program text they lead to, and `CommandLine.Options.bytesRead` what it is given to read.
-/

set_option autoImplicit false
set_option relaxedAutoImplicit false

namespace TapeMachine

/-! ### Runs on new engines -/

/-- There is one sink, and it has received nothing. -/
def Devices.Blank (devices : Devices) : Prop := devices.drains = #[⟨#[], 0⟩]

theorem Devices.blank_addDrain {devices : Devices} (h : devices.drains = #[]) :
    devices.addDrain.1.Blank := by
  rw [Blank, addDrain, h]
  rfl

namespace Session

variable {config : Config} {devices others : Devices} {code : Code} {listing : Listing}
  {input taken : Input} {data : List UInt8} {source : Source} {feed : Feed} {sink : Sink}
  {kind : SinkKind} {next : Session} {fuel : ℕ} {answer : Except Error RunResult} {text : String}

/-- A new engine has a sink of its own, behind the one that there was. -/
theorem drains_new (h : devices.Blank) (config : Config) :
    (Session.new config devices).devices.drains = #[⟨#[], 0⟩, ⟨#[], 0⟩] := by
  change devices.drains.push ⟨#[], 0⟩ = _
  rw [h]
  rfl

end Session

/-! ### From the options to the run -/

theorem Evaluation.onEngine_eq (fuel : ℕ) (config : Config) (listing : Listing) (input : Input) :
    onEngine fuel config listing input =
      ((Session.new config Devices.empty.addDrain.1).run fuel listing input
        (.sink ⟨.buffer, 0⟩)).map fun ended ↦ ended.2.map fun result ↦
          ⟨(ended.1.devices.received 0).bytes, result, ended.1.engine.tape⟩ := by
  have hdrain : Devices.empty.addDrain.2 = 0 := rfl
  simp only [onEngine, hdrain]
  rcases (Session.new config Devices.empty.addDrain.1).run fuel listing input
    (.sink ⟨.buffer, 0⟩) with - | ⟨s, cause | result⟩ <;> rfl

namespace CommandLine

namespace Options

/-- The options have values of the kinds that are wanted: the demonstration program, if one is
named, is among those that there are, what is to be read is text, and the tape shall have `size`
cells. -/
structure Plain (options : Options) (size : ℤ) : Prop where
  demo : options.demo = .absent ∨
    ∃ name text, options.demo = .value name ∧ Bundled.demo? name = some text
  input : options.inputText ≠ .blank
  cells : options.tapeSize = .value size ∨
    options.tapeSize = .absent ∧ size = Config.defaultTapeSize

variable {options : Options} {readFile : String → Except FileError (List UInt8)}
  {stdin : List UInt8} {text : String} {size : ℤ} {config : Config}

theorem Plain.config_eq (h : options.Plain size) :
    options.config = Config.make (.int size) false !options.stepwise := by
  rcases h.cells with hsize | ⟨hsize, rfl⟩ <;> simp [config, hsize]

end Options

variable {options : Options} {readFile : String → Except FileError (List UInt8)}
  {stdin data : List UInt8} {text : String} {size : ℤ} {devices : Devices} {source : Source}

/-- The tool shows an evaluation of the program text: it prints the bytes written, and it ends with
exit code 0 and no word, or with exit code 1 and the report on the failure. -/
def Outcome.Shows (text : String) (outcome : Outcome) (e : Evaluation) : Prop :=
  outcome.stdout = e.output ∧
    match e.result.failure with
    | none => outcome.exit = .ok 0 ∧ ∀ elapsed, outcome.stderr elapsed = ""
    | some failure => outcome.exit = .ok 1 ∧
      ∀ elapsed, outcome.stderr elapsed = failure.report text.toList ++ "\n"

end CommandLine

end TapeMachine
