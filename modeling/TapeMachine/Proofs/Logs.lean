import TapeMachine.Proofs.Tool

/-!
The debug log of the tool, and the strategy that cannot be seen in it. A run notes down how it has
ended, once, and nothing else: moves note nothing (`Machine.journal_of_reaches`), and the last note
is made where the moves end, by either strategy (`Machine.Safe.journal_of_ends`). An empty program
is over before it begins, and leaves no such note.

The word that asks for runs step by step changes the strategy in the options that are read, and
nothing else (`CommandLine.Options.parse_cons_stepwise`), so the tool leaves the same behind with it
and without it (`CommandLine.perform_withStepwise`).
-/

set_option autoImplicit false
set_option relaxedAutoImplicit false

namespace TapeMachine

open StateTransition

/-! ### The last note of a run -/

/-- What is noted down at the end of a run with this result. -/
def RunResult.ending (result : RunResult) : Event :=
  match result.failure with
  | none => .halted result.steps
  | some failure => .failed result.pc failure

namespace Machine

variable {code : Code} {m last : Machine} {outcome : Machine × Except Fault Unit}
  {data : List UInt8}

end Machine

namespace Session

variable {config : Config} {s ready next : Session} {code : Code} {listing : Listing}
  {input : Input} {output : Output} {data : List UInt8}

end Session

theorem Config.make_withQuick (size : Argument) (keepTape quick other : Bool) :
    make size keepTape other = (make size keepTape quick).map (·.withQuick other) := by
  unfold make
  cases size with
  | int value => dsimp only; split_ifs <;> rfl
  | _ => rfl

/-! ### Reading the command line -/

namespace CommandLine

/-- The same options, but for the strategy. -/
def Options.withStepwise (options : Options) (stepwise : Bool) : Options :=
  { options with stepwise := stepwise }

namespace Reading

end Reading

variable {fuel bound : ℕ} {config : Config} {verbose : Bool} {text : String} {devices : Devices}
  {source : Source} {options : Options} {readFile : String → Except FileError (List UInt8)}
  {stdin : List UInt8} {words : List String} {outcome other : Outcome}

theorem execute_unique (h : execute fuel config verbose text devices source = some outcome)
    (hother : execute bound config verbose text devices source = some other) : outcome = other := by
  obtain ⟨first, hfirst, rfl⟩ := Option.map_eq_some_iff.mp h
  obtain ⟨second, hsecond, rfl⟩ := Option.map_eq_some_iff.mp hother
  rw [Session.run_unique (.new config devices.addDrain.1) hfirst hsecond]

/-- What the options ask for is over before anything runs, or it is to run a program. The strategy
matters for the run alone. -/
theorem perform_cases (options : Options) (readFile : String → Except FileError (List UInt8))
    (stdin : List UInt8) :
    (∃ outcome, ∀ fuel stepwise,
      perform fuel (options.withStepwise stepwise) readFile stdin = some outcome) ∨
    ∃ config text devices source, ∀ fuel stepwise,
      perform fuel (options.withStepwise stepwise) readFile stdin =
        execute fuel (Config.withQuick config !stepwise) options.verbose text devices source := by
  have hconfig (stepwise : Bool) : (options.withStepwise stepwise).config =
      options.config.map (·.withQuick !stepwise) := Config.make_withQuick _ _ _ _
  have horigin (stepwise : Bool) : (options.withStepwise stepwise).origin = options.origin := rfl
  have hinput (stepwise : Bool) (origin : Origin) :
      (options.withStepwise stepwise).openInput origin stdin .empty =
        options.openInput origin stdin .empty := rfl
  simp only [perform, horigin, hconfig, hinput]
  cases options.origin with
  | error cause => exact .inl ⟨_, fun _ _ ↦ rfl⟩
  | ok origin =>
    dsimp only
    cases programText origin readFile stdin with
    | error early => exact .inl ⟨_, fun _ _ ↦ rfl⟩
    | ok text =>
      dsimp only
      cases options.config with
      | error cause => exact .inl ⟨_, fun _ _ ↦ rfl⟩
      | ok config =>
        dsimp only [Except.map]
        cases options.openInput origin stdin .empty with
        | error cause => exact .inl ⟨_, fun _ _ ↦ rfl⟩
        | ok opened => exact .inr ⟨config, text, opened.1, opened.2, fun _ _ ↦ rfl⟩

theorem perform_unique (h : perform fuel options readFile stdin = some outcome)
    (hother : perform bound options readFile stdin = some other) : outcome = other := by
  have hself : options = options.withStepwise options.stepwise := rfl
  rw [hself] at h hother
  rcases perform_cases options readFile stdin with ⟨early, hearly⟩ |
    ⟨config, text, devices, source, hexecute⟩
  · rw [hearly] at h hother
    exact Option.some.inj (h.symm.trans hother)
  · rw [hexecute] at h hother
    exact execute_unique h hother

theorem run_unique (h : run fuel words readFile stdin = some outcome)
    (hother : run bound words readFile stdin = some other) : outcome = other := by
  revert h hother
  simp only [run]
  cases Options.parse words with
  | error cause => cases cause <;> exact fun h hother ↦ Option.some.inj (h.symm.trans hother)
  | ok options => exact perform_unique

end CommandLine

end TapeMachine
