import TapeMachine.Proofs.Safety

/-!
The strategies of an engine cannot be told apart. For every list of calls, two engines whose
settings differ only in whether runs go by sweeps give the same answers and look the same after each
call (`Session.Observes`), and a run comes to an end under one exactly if it does under the other. A
load followed by single steps until one does not go on has the same outcome as a run
(`Session.runBySteps`).

Single steps go through the devices each time: a step takes the machine out of the session and puts
it back. What a machine has written has no influence on what it does next (`Machine.step_output`),
so a session that absorbs its machine after each step follows the machine that runs on
(`Session.Follows`, `Session.step_absorb`).
-/

set_option autoImplicit false
set_option relaxedAutoImplicit false

namespace TapeMachine

/-! ### Output is never read -/

/-- The same work with another memory. -/
def Work.map (f : Memory → Memory) : Work → Work
  | .done s => .done (f s)
  | .jump => .jump
  | .fails s failure => .fails (f s) failure
  | .faults s fault => .faults (f s) fault

namespace Memory

/-- The memory with another input and output. -/
def mapStreams (f : Feed → Feed) (g : Array UInt8 → Array UInt8) (s : Memory) : Memory :=
  ⟨s.tape, s.pointer, f s.input, g s.output⟩

section Streams

variable (f : Feed → Feed) (g : Array UInt8 → Array UInt8) (s : Memory)

theorem deposit_mapStreams (value : ℤ) :
    (s.mapStreams f g).deposit value = (s.deposit value).map (mapStreams f g) := by
  have htarget : Tape.target (s.mapStreams f g).tape.size (s.mapStreams f g).pointer value =
      Tape.target s.tape.size s.pointer value := rfl
  unfold deposit
  rw [htarget]
  cases Tape.target s.tape.size s.pointer value <;> rfl

theorem withCell_mapStreams {use other : UInt8 → Work}
    (h : ∀ cell, use cell = (other cell).map (mapStreams f g)) :
    (s.mapStreams f g).withCell use = (s.withCell other).map (mapStreams f g) := by
  have hcell : (s.mapStreams f g).cell = s.cell := rfl
  unfold withCell
  rw [hcell]
  cases s.cell with
  | ok cell => exact h cell
  | error fault => rfl

/-- Commands that neither read nor write heed the tape and the pointer only. -/
theorem work_mapStreams {command : Command} (hread : command ≠ .read) (hwrite : command ≠ .write) :
    (s.mapStreams f g).work command = (s.work command).map (mapStreams f g) := by
  cases command with
  | comment => rfl
  | moveLeft =>
    by_cases hleft : s.pointer = 0
    · have hother : (s.mapStreams f g).pointer = 0 := hleft
      simp only [work, if_pos hleft, if_pos hother]
      rfl
    · have hother : (s.mapStreams f g).pointer ≠ 0 := hleft
      simp only [work, if_neg hleft, if_neg hother]
      rfl
  | moveRight =>
    by_cases hright : s.pointer + 1 = s.tape.size
    · have hother : (s.mapStreams f g).pointer + 1 = (s.mapStreams f g).tape.size := hright
      simp only [work, if_pos hright, if_pos hother]
      rfl
    · have hother : (s.mapStreams f g).pointer + 1 ≠ (s.mapStreams f g).tape.size := hright
      simp only [work, if_neg hright, if_neg hother]
      rfl
  | read => exact absurd rfl hread
  | increment => exact withCell_mapStreams f g s fun _ ↦ deposit_mapStreams f g s _
  | decrement => exact withCell_mapStreams f g s fun _ ↦ deposit_mapStreams f g s _
  | write => exact absurd rfl hwrite
  | loopStart => exact withCell_mapStreams f g s fun _ ↦ by split_ifs <;> rfl
  | loopEnd => exact withCell_mapStreams f g s fun _ ↦ by split_ifs <;> rfl

end Streams

def setOutput (s : Memory) (output : Array UInt8) : Memory := { s with output := output }

/-- A command either leaves the output alone, or it adds one byte that does not depend on it. -/
theorem work_setOutput (s : Memory) (command : Command) :
    (∀ output, (s.setOutput output).work command =
      (s.work command).map (·.setOutput output)) ∨
    ∃ byte, ∀ output,
      (s.setOutput output).work command = .done (s.setOutput (output.push byte)) := by
  cases command with
  | read =>
    refine .inl fun output ↦ ?_
    obtain ⟨tape, pointer, input, written⟩ := s
    cases input with
    | nil => rfl
    | cons answer rest =>
      cases answer with
      | none => rfl
      | some value =>
        exact deposit_mapStreams id (fun _ ↦ output) ⟨tape, pointer, rest, written⟩ value
  | write =>
    cases hcell : s.cell with
    | ok cell =>
      refine .inr ⟨cell, fun output ↦ ?_⟩
      have hother : (s.setOutput output).cell = .ok cell := hcell
      simp only [work, withCell, hother]
      rfl
    | error fault =>
      refine .inl fun output ↦ ?_
      have hother : (s.setOutput output).cell = .error fault := hcell
      simp only [work, withCell, hother, hcell]
      rfl
  | _ => exact .inl fun output ↦ work_mapStreams id (fun _ ↦ output) s (by simp) (by simp)

end Memory

namespace Machine

def setOutput (m : Machine) (output : Array UInt8) : Machine := { m with output := output }

theorem proceed_setOutput (code : Code) (m : Machine) (next : ℤ) (output : Array UInt8) :
    (m.setOutput output).proceed code next =
      ((m.proceed code next).1.setOutput output, (m.proceed code next).2) := by
  change ((m.goOn m.memory next).setOutput output).arrive code =
    (((m.goOn m.memory next).arrive code).1.setOutput output,
      ((m.goOn m.memory next).arrive code).2)
  generalize m.goOn m.memory next = after
  unfold arrive
  by_cases hhalted : after.halted code = true
  · have hother : (after.setOutput output).halted code = true := hhalted
    rw [if_pos hhalted, if_pos hother]
    rfl
  · have hother : ¬(after.setOutput output).halted code = true := hhalted
    rw [if_neg hhalted, if_neg hother]

theorem settle_setOutput (code : Code) (m : Machine) (work : Work) (output : Array UInt8) :
    (m.setOutput output).settle code (work.map (·.setOutput output)) =
      ((m.settle code work).1.setOutput output, (m.settle code work).2) := by
  cases work with
  | done s => exact proceed_setOutput code (m.setMemory s) _ output
  | jump =>
    have hpc : (m.setOutput output).pc = m.pc := rfl
    simp only [settle, Work.map, jump, hpc]
    cases code.index.partner? m.pc with
    | none => rfl
    | some other => exact proceed_setOutput code m _ output
  | fails s failure => rfl
  | faults s fault => rfl

/-- A step does the same whatever has been written before, and at most adds to it. -/
theorem step_output (code : Code) (m : Machine) :
    ∃ written : Array UInt8, ∀ output, (m.setOutput output).step code =
      ((m.step code).1.setOutput (output ++ written), (m.step code).2) := by
  have hkept (hstep : ∀ output, (m.setOutput output).step code =
      ((m.step code).1.setOutput output, (m.step code).2)) :
      ∃ written : Array UInt8, ∀ output, (m.setOutput output).step code =
        ((m.step code).1.setOutput (output ++ written), (m.step code).2) :=
    ⟨#[], fun output ↦ by rw [Array.append_empty, hstep]⟩
  by_cases hhalted : m.halted code = true
  · refine hkept fun output ↦ ?_
    have hother : (m.setOutput output).halted code = true := hhalted
    rw [step_of_halted hhalted, step_of_halted hother]
  · have hrun : m.halted code = false := by simpa using hhalted
    cases hc : code.program.get? m.pc with
    | none =>
      refine hkept fun output ↦ ?_
      have hother : (m.setOutput output).halted code = false := hrun
      have hget : code.program.get? (m.setOutput output).pc = none := hc
      simp only [step, hrun, hother, hc, hget, Bool.false_eq_true, if_false]
      rfl
    | some c =>
      have hstep (output : Array UInt8) : (m.setOutput output).step code =
          (m.setOutput output).settle code
            ((m.memory.setOutput output).work (Command.ofChar c)) :=
        step_eq_settle (m := m.setOutput output) hrun hc
      rcases m.memory.work_setOutput (Command.ofChar c) with hwork | ⟨byte, hwork⟩
      · refine hkept fun output ↦ ?_
        rw [hstep, hwork, settle_setOutput, ← step_eq_settle hrun hc]
      · refine ⟨#[byte], fun output ↦ ?_⟩
        have hself : m.memory.work (Command.ofChar c) =
            .done (m.memory.setOutput (m.output.push byte)) := hwork m.output
        rw [hstep, hwork, step_eq_settle hrun hc, hself, Array.append_singleton]
        exact proceed_setOutput code (m.setMemory (m.memory.setOutput (m.output.push byte))) _ _

end Machine

/-! ### Devices between two steps -/

/-- Putting an entry back where it is changes nothing, nor does putting it beside the array. -/
theorem setIfInBounds_getD_self {α : Type} (xs : Array α) (place : ℕ) (default : α) :
    xs.setIfInBounds place (xs.getD place default) = xs := by
  by_cases hplace : place < xs.size
  · have hget : xs.getD place default = xs[place] := by simp [hplace]
    rw [hget, Array.setIfInBounds, dif_pos hplace, Array.set_getElem_self]
  · rw [Array.setIfInBounds, dif_neg hplace]

namespace Devices

theorem setPending_pending (devices : Devices) (source : Source) :
    devices.setPending source (devices.pending source) = devices := by
  unfold setPending pending
  rw [setIfInBounds_getD_self]

theorem setPending_setPending (devices : Devices) (source : Source) (first second : Feed) :
    (devices.setPending source first).setPending source second =
      devices.setPending source second := by
  unfold setPending
  rw [Array.setIfInBounds_setIfInBounds]

theorem setWritten_received (devices : Devices) (sink : Sink) :
    devices.setWritten sink (devices.received sink.drain).bytes = devices := by
  unfold setWritten
  have hself : devices.drains.setIfInBounds sink.drain (devices.received sink.drain) =
      devices.drains := setIfInBounds_getD_self _ _ _
  simp only [Nat.sub_self, Nat.add_zero]
  split <;> rw [hself]

theorem setPending_of_dangling {devices : Devices} {source : Source}
    (h : devices.feeds.size ≤ source.feed) (feed : Feed) :
    devices.setPending source feed = devices := by
  unfold setPending
  rw [Array.setIfInBounds_eq_of_size_le h]

theorem setWritten_of_dangling {devices : Devices} {sink : Sink}
    (h : devices.drains.size ≤ sink.drain) (bytes : Array UInt8) :
    devices.setWritten sink bytes = devices := by
  unfold setWritten
  dsimp only
  rw [Array.setIfInBounds_eq_of_size_le h]

/-- Bytes that reach a sink in two portions are flushed as often as if they came at once. -/
theorem setWritten_setWritten (devices : Devices) (sink : Sink) {first second : Array UInt8}
    (hfirst : (devices.received sink.drain).bytes.size ≤ first.size)
    (hsecond : first.size ≤ second.size) :
    (devices.setWritten sink first).setWritten sink second = devices.setWritten sink second := by
  by_cases hdrain : sink.drain < devices.drains.size
  · have hflushes (old : ℕ) : old + (first.size - (devices.received sink.drain).bytes.size) +
        (second.size - first.size) =
          old + (second.size - (devices.received sink.drain).bytes.size) := by
      omega
    have hreceived (flushes : ℕ) : Devices.received
        { devices with drains := devices.drains.setIfInBounds sink.drain ⟨first, flushes⟩ }
        sink.drain = ⟨first, flushes⟩ := by
      simp [received, hdrain]
    unfold setWritten
    simp only [hreceived, Array.setIfInBounds_setIfInBounds]
    split
    · rw [hflushes]
    · split
      · contradiction
      · rfl
  · have hdangling (bytes : Array UInt8) : devices.setWritten sink bytes = devices :=
      setWritten_of_dangling (by omega) bytes
    rw [hdangling, hdangling]

end Devices

/-! ### Single steps through the devices -/

namespace Session

theorem absorb_machine (s : Session) : s.absorb s.machine = s := by
  unfold absorb machine
  dsimp only
  rw [Devices.setPending_pending, Devices.setWritten_received]

/-- A session can take back the machine: what the machine has still to read comes from the source
of the session, and what the machine has written begins with what its sink had received. -/
structure Follows (s : Session) (m : Machine) : Prop where
  input : s.devices.feeds.size ≤ s.engine.source.feed → m.input = []
  output : (s.devices.received s.engine.sink.drain).bytes.size ≤ m.output.size

variable {s : Session} {m : Machine} {code : Code}

theorem follows_machine (s : Session) : s.Follows s.machine where
  input := by
    intro hfeed
    change s.devices.feeds.getD s.engine.source.feed [] = []
    simp [hfeed]
  output := Nat.le_refl _

/-- The machine that the session gives out again is the one it took back. Only bytes written to a
sink that does not exist are lost. -/
theorem machine_absorb (h : s.Follows m) :
    (s.absorb m).machine =
      m.setOutput ((s.absorb m).devices.received s.engine.sink.drain).bytes := by
  have hinput : (s.absorb m).devices.pending s.engine.source = m.input := by
    by_cases hfeed : s.engine.source.feed < s.devices.feeds.size
    · exact Devices.pending_setPending hfeed m.input
    · change (s.devices.setPending s.engine.source m.input).pending s.engine.source = m.input
      rw [Devices.setPending_of_dangling (by omega), h.input (by omega)]
      simp [Devices.pending, Nat.le_of_not_lt hfeed]
  unfold machine
  change Machine.mk _ _ _ _ _ ((s.absorb m).devices.pending s.engine.source) _ _ = _
  rw [hinput]
  rfl

/-- What a step leaves behind can be taken back at once or after the machine before it. -/
theorem absorb_absorb (h : s.Follows m) {next : Machine} {written : Array UInt8}
    (hwritten : next.output = m.output ++ written) :
    (s.absorb m).absorb
        (next.setOutput (((s.absorb m).devices.received s.engine.sink.drain).bytes ++ written)) =
      s.absorb next := by
  have hpending (devices : Devices) (bytes : Array UInt8) :
      (devices.setWritten s.engine.sink bytes).setPending s.engine.source next.input =
        (devices.setPending s.engine.source next.input).setWritten s.engine.sink bytes := rfl
  have hdevices : (((s.devices.setPending s.engine.source m.input).setWritten s.engine.sink
      m.output).setPending s.engine.source next.input).setWritten s.engine.sink
        (((s.absorb m).devices.received s.engine.sink.drain).bytes ++ written) =
      (s.devices.setPending s.engine.source next.input).setWritten s.engine.sink next.output := by
    rw [hpending, Devices.setPending_setPending]
    by_cases hdrain : s.engine.sink.drain < s.devices.drains.size
    · have hbefore : s.engine.sink.drain <
          (s.devices.setPending s.engine.source m.input).drains.size := hdrain
      have hbytes : ((s.absorb m).devices.received s.engine.sink.drain).bytes = m.output :=
        Devices.bytes_received_setWritten hbefore m.output
      rw [hbytes, ← hwritten]
      refine Devices.setWritten_setWritten _ _ h.output ?_
      rw [hwritten, Array.size_append]
      omega
    · have hbeside : (s.devices.setPending s.engine.source next.input).drains.size ≤
          s.engine.sink.drain := Nat.le_of_not_lt hdrain
      have hdangling (bytes : Array UInt8) := Devices.setWritten_of_dangling hbeside bytes
      rw [hdangling, hdangling, hdangling]
  unfold absorb at hdevices ⊢
  dsimp only [Machine.setOutput] at hdevices ⊢
  rw [hdevices]

/-- A step of the session is a step of the machine that runs on, taken back. -/
theorem step_absorb (h : s.Follows m) (hcode : s.engine.loaded = some code) :
    (s.absorb m).step =
      (s.absorb (m.step code).1, (m.step code).2.mapError Error.fault) ∧
    s.Follows (m.step code).1 := by
  obtain ⟨written, hstep⟩ := m.step_output code
  have hself : m.step code = ((m.step code).1.setOutput (m.output ++ written), (m.step code).2) :=
    hstep m.output
  have hwritten : (m.step code).1.output = m.output ++ written :=
    congrArg (fun answer ↦ answer.1.output) hself
  constructor
  · have hloaded : (s.absorb m).engine.loaded = some code := hcode
    unfold step
    rw [hloaded]
    dsimp only
    rw [machine_absorb h, hstep]
    have hback := absorb_absorb h hwritten
    cases (m.step code).2 with
    | ok goesOn => exact Prod.ext hback rfl
    | error fault => exact Prod.ext hback rfl
  · constructor
    · intro hfeed
      have hsuffix := m.step_input code
      rw [h.input hfeed] at hsuffix
      exact List.suffix_nil.mp hsuffix
    · have hbefore := h.output
      rw [hwritten, Array.size_append]
      omega

/-- At the end of a run the session can take back the machine. -/
theorem Follows.ends (h : s.Follows m) (hcode : s.engine.loaded = some code)
    {outcome : Machine × Except Fault Unit} (hends : m.Ends code outcome) :
    s.Follows outcome.1 := by
  -- A run ends as the run step by step does, and there one step after the other is taken back.
  obtain ⟨fuel, hwalk⟩ := Machine.walk_eq_some_iff.mpr hends
  clear hends
  induction fuel generalizing m with
  | zero => cases hwalk
  | succ fuel ih =>
    have hfollows := (step_absorb h hcode).2
    unfold Machine.walk at hwalk
    cases hstep : m.step code with
    | mk next answer =>
      rw [hstep] at hwalk hfollows
      cases answer with
      | error fault =>
        cases hwalk
        exact hfollows
      | ok goesOn =>
        cases goesOn with
        | false =>
          cases hwalk
          exact hfollows
        | true => exact ih hfollows hwalk

/-- Steps until a step does not go on, at most `fuel` times. -/
def stepUntilDone : ℕ → Session → Option (Session × Except Error Unit)
  | 0, _ => none
  | fuel + 1, s =>
    match s.step with
    | (s, .ok true) => stepUntilDone fuel s
    | (s, .ok false) => some (s, .ok ())
    | (s, .error cause) => some (s, .error cause)

/-- The result of a run, put together from the answer of the load and the engine at the end. -/
def report (s : Session) : Except Failure Code → RunResult
  | .error failure => ⟨some failure, 0, s.engine.pointer, 0⟩
  | .ok _ => s.engine.result

/-- Loads a program and carries out single steps until one does not go on. There is no result if
`fuel` does not suffice. -/
def runBySteps (fuel : ℕ) (s : Session) (listing : Listing) (input : Input) (output : Output) :
    Option (Session × Except Error RunResult) :=
  match s.load listing input output with
  | (s, .error cause) => some (s, .error cause)
  | (s, .ok answer) =>
    (s.stepUntilDone fuel).map fun (s, ended) ↦ (s, ended.map fun _ ↦ s.report answer)

/-- Stepping through the devices ends as the machine that runs on does. -/
theorem stepUntilDone_absorb (h : s.Follows m) (hcode : s.engine.loaded = some code) (fuel : ℕ) :
    (s.absorb m).stepUntilDone fuel =
      (m.walk code fuel).map fun (last, ended) ↦ (s.absorb last, ended.mapError Error.fault) := by
  induction fuel generalizing m with
  | zero => rfl
  | succ fuel ih =>
    obtain ⟨hstep, hfollows⟩ := step_absorb h hcode
    unfold stepUntilDone Machine.walk
    rw [hstep]
    cases heq : m.step code with
    | mk next answer =>
      rw [heq] at hfollows
      cases answer with
      | error fault => rfl
      | ok goesOn =>
        cases goesOn with
        | false => rfl
        | true => exact ih hfollows

/-- After a program has been turned away there is nothing to step through. -/
theorem stepUntilDone_of_rejected {ready : Session} {failure : Failure} {listing : Listing}
    {input : Input} {output : Output}
    (hload : s.load listing input output = (ready, .ok (.error failure))) (fuel : ℕ) :
    ready.stepUntilDone (fuel + 1) = some (ready, .ok ()) := by
  have hloaded : ready.engine.loaded = none := by
    rcases s.load_cases listing input output with ⟨cause, -, heq⟩ |
      ⟨program, other, -, -, heq⟩ | ⟨other, cause, -, -, -, heq⟩ |
      ⟨other, devices, source, -, -, -, heq⟩
    · rw [heq] at hload
      cases hload
    · rw [heq] at hload
      cases hload
      rfl
    · rw [heq] at hload
      cases hload
    · rw [heq] at hload
      cases hload
  unfold stepUntilDone step
  rw [hloaded]

/-- After code has been loaded, single steps end as the run step by step does. -/
theorem runBySteps_of_load {ready : Session} {listing : Listing} {input : Input}
    {output : Output} (hload : s.load listing input output = (ready, .ok (.ok code)))
    (hcode : ready.engine.loaded = some code) (fuel : ℕ) :
    s.runBySteps fuel listing input output =
      (ready.machine.walk code fuel).map ready.finish := by
  unfold runBySteps
  rw [hload]
  dsimp only
  conv_lhs => rw [← absorb_machine ready]
  rw [stepUntilDone_absorb (follows_machine ready) hcode, Option.map_map]
  congr 1
  funext outcome
  obtain ⟨last, ended⟩ := outcome
  cases ended <;> rfl

/-- A load followed by single steps has the outcome of a run. -/
theorem runBySteps_eq_some_iff {config : Config} (h : s.engine.Sound config) (listing : Listing)
    (input : Input) (output : Output) (outcome : Session × Except Error RunResult) :
    (∃ fuel, s.runBySteps fuel listing input output = some outcome) ↔
      ∃ fuel, s.run fuel listing input output = some outcome := by
  cases hload : s.load listing input output with
  | mk ready answer =>
    match answer with
    | .error cause => simp only [runBySteps, run, hload]
    | .ok (.error failure) =>
      simp only [runBySteps, run, hload]
      constructor
      · rintro ⟨fuel, hsteps⟩
        cases fuel with
        | zero => cases hsteps
        | succ fuel =>
          rw [stepUntilDone_of_rejected hload] at hsteps
          exact ⟨0, hsteps⟩
      · rintro ⟨-, hrun⟩
        exact ⟨1, by rw [stepUntilDone_of_rejected hload]; exact hrun⟩
    | .ok (.ok code) =>
      obtain ⟨hcode, hsafe⟩ := safe_of_load h hload
      rw [run_eq_some_iff_of_load hsafe hload]
      simp only [runBySteps_of_load hload hcode, Option.map_eq_some_iff]
      constructor
      · rintro ⟨fuel, last, hwalk, hfinish⟩
        exact ⟨last, Machine.walk_eq_some_iff.mp ⟨fuel, hwalk⟩, hfinish.symm⟩
      · rintro ⟨last, hends, hfinish⟩
        obtain ⟨fuel, hwalk⟩ := Machine.walk_eq_some_iff.mpr hends
        exact ⟨fuel, last, hwalk, hfinish.symm⟩

end Session

/-! ### Changing the strategy -/

/-- The same settings with the given strategy: runs go by sweeps, or step by step. -/
def Config.withQuick (config : Config) (quick : Bool) : Config := { config with quick := quick }

/-- What can be seen of a session: everything but the strategy of its engine. -/
structure View where
  tape : Tape
  pointer : ℤ
  pc : ℤ
  steps : ℕ
  failure : Option Failure
  loaded : Option Code
  source : Source
  sink : Sink
  devices : Devices
  journal : Array Event

namespace Session

def view (s : Session) : View :=
  { tape := s.engine.tape
    pointer := s.engine.pointer
    pc := s.engine.pc
    steps := s.engine.steps
    failure := s.engine.failure
    loaded := s.engine.loaded
    source := s.engine.source
    sink := s.engine.sink
    devices := s.devices
    journal := s.journal }

/-- The calls come to an end one after another. After each of them its answer is given and the
session looks as listed. -/
inductive Observes : Session → List Call → List (Answer × View) → Prop
  | nil (s : Session) : Observes s [] []
  | cons {s next : Session} {call : Call} {answer : Answer} {calls : List Call}
      {observations : List (Answer × View)} (first : s.Performs call next answer)
      (rest : Observes next calls observations) :
      Observes s (call :: calls) ((answer, next.view) :: observations)

/-- The same session with the given strategy. -/
def setQuick (s : Session) (quick : Bool) : Session :=
  { s with engine := { s.engine with config := s.engine.config.withQuick quick } }

variable {config : Config} {s next : Session}

theorem install_setQuick (s : Session) (quick : Bool) (code : Code) :
    (s.setQuick quick).install code = (s.install code).setQuick quick := by
  unfold install Engine.rewind
  by_cases hkeep : s.engine.config.keepTape = true
  · have hother : (s.setQuick quick).engine.config.keepTape = true := hkeep
    rw [if_pos hkeep, if_pos hother]
    rfl
  · have hother : ¬(s.setQuick quick).engine.config.keepTape = true := hkeep
    rw [if_neg hkeep, if_neg hother]
    rfl

theorem connect_setQuick (s : Session) (quick : Bool) (input : Input) (output : Output) :
    (s.setQuick quick).connect input output =
      ((s.connect input output).1.setQuick quick, (s.connect input output).2) := by
  have hdevices : (s.setQuick quick).devices = s.devices := rfl
  unfold connect
  rw [hdevices]
  cases s.devices.openSource input <;> rfl

theorem load_setQuick (s : Session) (quick : Bool) (listing : Listing) (input : Input)
    (output : Output) :
    (s.setQuick quick).load listing input output =
      ((s.load listing input output).1.setQuick quick, (s.load listing input output).2) := by
  unfold load
  cases listing.toProgram with
  | error cause => rfl
  | ok program =>
    dsimp only
    cases Code.compile program with
    | error failure => rfl
    | ok code =>
      dsimp only
      rw [install_setQuick, connect_setQuick]
      cases (s.install code).connect input output with
      | mk connected answer => cases answer <;> rfl

theorem step_setQuick (s : Session) (quick : Bool) :
    (s.setQuick quick).step = (s.step.1.setQuick quick, s.step.2) := by
  have hloaded : (s.setQuick quick).engine.loaded = s.engine.loaded := rfl
  have hmachine : (s.setQuick quick).machine = s.machine := rfl
  unfold step
  rw [hloaded]
  cases s.engine.loaded with
  | none => rfl
  | some code =>
    dsimp only
    rw [hmachine]
    cases s.machine.step code with
    | mk m answer => cases answer <;> rfl

/-- A run by one strategy comes to the same end by the other. -/
theorem run_setQuick (h : s.engine.Sound config) (quick : Bool) {fuel : ℕ} {listing : Listing}
    {input : Input} {output : Output} {answer : Except Error RunResult}
    (hrun : s.run fuel listing input output = some (next, answer)) :
    ∃ bound, (s.setQuick quick).run bound listing input output =
      some (next.setQuick quick, answer) := by
  have hother := load_setQuick s quick listing input output
  cases hload : s.load listing input output with
  | mk ready loaded =>
    rw [hload] at hother
    match loaded with
    | .error cause =>
      simp only [run, hload] at hrun
      cases hrun
      exact ⟨0, by simp only [run, hother]⟩
    | .ok (.error failure) =>
      simp only [run, hload] at hrun
      cases hrun
      exact ⟨0, by simp only [run, hother]; rfl⟩
    | .ok (.ok code) =>
      obtain ⟨-, hsafe⟩ := safe_of_load h hload
      obtain ⟨outcome, hends, hfinish⟩ := (run_eq_some_iff_of_load hsafe hload _).mp ⟨fuel, hrun⟩
      have hsame : (ready.setQuick quick).machine = ready.machine := rfl
      refine (run_eq_some_iff_of_load (hsame ▸ hsafe) hother _).mpr ⟨outcome, hends, ?_⟩
      obtain ⟨rfl, rfl⟩ := Prod.mk.inj hfinish
      rfl

/-- A call does the same whatever the strategy. -/
theorem performs_setQuick (h : s.engine.Sound config) (quick : Bool) {call : Call}
    {answer : Answer} (hcall : s.Performs call next answer) :
    (s.setQuick quick).Performs call (next.setQuick quick) answer := by
  obtain ⟨fuel, hperform⟩ := hcall
  cases call with
  | load listing input output =>
    cases hperform
    have hload := performs_load (s.setQuick quick) listing input output
    rw [load_setQuick] at hload
    exact hload
  | run listing input output =>
    cases hrun : s.run fuel listing input output with
    | none =>
      simp only [perform, hrun] at hperform
      cases hperform
    | some result =>
      simp only [perform, hrun] at hperform
      cases hperform
      obtain ⟨bound, hbound⟩ := run_setQuick h quick hrun
      exact ⟨bound, by simp only [perform, hbound]⟩
  | step =>
    cases hperform
    have hstep := performs_step (s.setQuick quick)
    rw [step_setQuick] at hstep
    exact hstep
  | reset =>
    cases hperform
    exact ⟨fuel, rfl⟩

/-- What can be observed of a session does not depend on its strategy. -/
theorem observes_setQuick (h : s.engine.Sound config) (quick : Bool) {calls : List Call}
    {observations : List (Answer × View)} (hobserves : s.Observes calls observations) :
    (s.setQuick quick).Observes calls observations := by
  induction hobserves with
  | nil s => exact .nil _
  | @cons s next call answer calls observations first rest ih =>
    have hview : (next.setQuick quick).view = next.view := rfl
    rw [← hview]
    exact .cons (performs_setQuick h quick first) (ih (h.performs first))

theorem run_unique (h : s.engine.Sound config) {listing : Listing} {input : Input}
    {output : Output} {first second : Session × Except Error RunResult} {fuel bound : ℕ}
    (hfirst : s.run fuel listing input output = some first)
    (hsecond : s.run bound listing input output = some second) : first = second := by
  rcases s.run_cases listing input output with ⟨answer, -, hends⟩ | ⟨ready, code, hload⟩
  · rw [hends] at hfirst hsecond
    exact Option.some.inj (hfirst.symm.trans hsecond)
  · obtain ⟨-, hsafe⟩ := safe_of_load h hload
    obtain ⟨one, hone, rfl⟩ := (run_eq_some_iff_of_load hsafe hload _).mp ⟨fuel, hfirst⟩
    obtain ⟨two, htwo, rfl⟩ := (run_eq_some_iff_of_load hsafe hload _).mp ⟨bound, hsecond⟩
    rw [hone.unique htwo]

/-- A call has one answer and leaves one session. -/
theorem Performs.unique (h : s.engine.Sound config) {call : Call} {other : Session}
    {answer different : Answer} (hfirst : s.Performs call next answer)
    (hsecond : s.Performs call other different) : next = other ∧ answer = different := by
  obtain ⟨fuel, hfirst⟩ := hfirst
  obtain ⟨bound, hsecond⟩ := hsecond
  cases call with
  | run listing input output =>
    simp only [perform] at hfirst hsecond
    cases hone : s.run fuel listing input output with
    | none =>
      rw [hone] at hfirst
      cases hfirst
    | some result =>
      cases htwo : s.run bound listing input output with
      | none =>
        rw [htwo] at hsecond
        cases hsecond
      | some found =>
        rw [hone] at hfirst
        rw [htwo, ← run_unique h hone htwo] at hsecond
        exact Prod.mk.inj (Option.some.inj (hfirst.symm.trans hsecond))
  | load listing input output =>
    exact Prod.mk.inj (Option.some.inj (hfirst.symm.trans hsecond))
  | step => exact Prod.mk.inj (Option.some.inj (hfirst.symm.trans hsecond))
  | reset => exact Prod.mk.inj (Option.some.inj (hfirst.symm.trans hsecond))

/-- Calls on a session are observed in one way only. -/
theorem Observes.unique (h : s.engine.Sound config) {calls : List Call}
    {first second : List (Answer × View)} (hfirst : s.Observes calls first)
    (hsecond : s.Observes calls second) : first = second := by
  induction hfirst generalizing second with
  | nil s =>
    cases hsecond
    rfl
  | cons performs rest ih =>
    cases hsecond with
    | cons other observed =>
      obtain ⟨rfl, rfl⟩ := performs.unique h other
      rw [ih (h.performs performs) observed]

/-- Whether runs go by sweeps or step by step makes no difference. Two new engines whose settings
differ in nothing else give the same answers to the same calls and look the same after each of them,
and one does not return from a call that the other returns from. What a run does is also done by a
load followed by single steps, in every reachable session. -/
theorem strategies_agree (config : Config) (devices : Devices) :
    (∀ calls observations,
      (Session.new (config.withQuick true) devices).Observes calls observations ↔
        (Session.new (config.withQuick false) devices).Observes calls observations) ∧
    (∀ quick calls first second,
      (Session.new (config.withQuick quick) devices).Observes calls first →
        (Session.new (config.withQuick quick) devices).Observes calls second → first = second) ∧
    ∀ s, Reachable config s → ∀ listing input output outcome,
      (∃ fuel, s.runBySteps fuel listing input output = some outcome) ↔
        ∃ fuel, s.run fuel listing input output = some outcome := by
  refine ⟨?_, ?_, ?_⟩
  · intro calls observations
    exact ⟨observes_setQuick (Engine.Sound.new _ devices) false,
      observes_setQuick (Engine.Sound.new _ devices) true⟩
  · intro quick calls first second
    exact Observes.unique (Engine.Sound.new _ devices)
  · intro s hs
    exact runBySteps_eq_some_iff hs.sound

/-- A run from a kept tape and pointer that is cut short, as its second input value is no byte, is
observed under both strategies, and single steps are cut short in the same way. -/
theorem strategies_agree_on_a_fault :
    let config : Config := ⟨2, by decide, true, true⟩
    let devices : Devices := ⟨#[[some 7, some 300]], #[]⟩
    let first : Call := .run (.given (.text "->")) .none .none
    let second : Call := .run (.given (.text "+[,.]")) (.stream 0) .none
    (∃ observations, observations ≠ [] ∧
      (Session.new (config.withQuick true) devices).Observes [first, second] observations ∧
      (Session.new (config.withQuick false) devices).Observes [first, second] observations) ∧
    ∃ fuel next, (Session.new config devices).runBySteps fuel (.given (.text "+[,.]")) (.stream 0)
      .none = some (next, .error (.fault (.ofByte 300))) := by
  intro config devices first second
  obtain ⟨hagree, -, hsteps⟩ := strategies_agree config devices
  constructor
  · let middle := ((Session.new (config.withQuick true) devices).perform 9 first).get
      (by decide +kernel)
    let last := (middle.1.perform 9 second).get (by decide +kernel)
    have hobserves : (Session.new (config.withQuick true) devices).Observes [first, second]
        [(middle.2, middle.1.view), (last.2, last.1.view)] :=
      .cons ⟨9, (Option.some_get _).symm⟩ (.cons ⟨9, (Option.some_get _).symm⟩ (.nil last.1))
    exact ⟨_, by simp, hobserves, (hagree _ _).mp hobserves⟩
  · have hrun : ((Session.new config devices).run 9 (.given (.text "+[,.]")) (.stream 0)
        .none).map (·.2) = some (.error (.fault (.ofByte 300))) := by
      decide +kernel
    obtain ⟨⟨next, answer⟩, houtcome, rfl⟩ := Option.map_eq_some_iff.mp hrun
    obtain ⟨fuel, hfuel⟩ := (hsteps _ (.new devices) _ _ _ _).mpr ⟨9, houtcome⟩
    exact ⟨fuel, next, hfuel⟩

end Session

end TapeMachine
