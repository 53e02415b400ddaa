import TapeMachine.Proofs.Isolation
import TapeMachine.Proofs.Strategies

/-!
How runs end. Only three commands can fail, and one that fails changes nothing but the input
(`Memory.Fails`, `fails_of_work`). So a run comes to the end of its code, or it stops before a
command that fails there, or it stops at an input value that is no byte (`Safe.ends_cases`). The
machine before the last command is reached by moves, and a session that takes single steps comes to
it after as many steps as the run has counted (`Session.after_of_reaches`).

A run over bytes has no faults, so it ends in one of four ways (`Exit`). Each of them leaves an
engine that is halted, and a step of a halted engine does nothing (`Session.step_of_halted`).
-/

set_option autoImplicit false
set_option relaxedAutoImplicit false

namespace TapeMachine

open StateTransition

/-! ### Commands that fail -/

namespace Memory

/-- The command fails in this memory: it would move over an end of the tape, or there is no answer
to read. An answer that says so is used up. -/
inductive Fails (s : Memory) : Command → Memory → Failure → Prop
  | leftEnd (h : s.pointer = 0) : Fails s .moveLeft s (.outOfBounds s.pointer .left)
  | rightEnd (h : s.pointer + 1 = s.tape.size) :
      Fails s .moveRight s (.outOfBounds s.pointer .right)
  | exhausted (h : s.input = []) : Fails s .read s (.inputExhausted s.pointer)
  | missing (rest : Feed) (h : s.input = none :: rest) :
      Fails s .read { s with input := rest } (.inputExhausted s.pointer)

variable {s next : Memory} {command : Command} {failure : Failure}

theorem deposit_ne_fails (s : Memory) (value : ℤ) : s.deposit value ≠ .fails next failure := by
  unfold deposit
  cases Tape.target s.tape.size s.pointer value <;> simp

theorem withCell_ne_fails {use : UInt8 → Work} (h : ∀ cell, use cell ≠ .fails next failure) :
    s.withCell use ≠ .fails next failure := by
  unfold withCell
  cases s.cell with
  | ok cell => exact h cell
  | error fault => simp

/-- No other command fails. -/
theorem fails_of_work (h : s.work command = .fails next failure) :
    s.Fails command next failure := by
  cases command with
  | comment => cases h
  | moveLeft =>
    simp only [work] at h
    split_ifs at h with hleft
    cases h
    exact .leftEnd hleft
  | moveRight =>
    simp only [work] at h
    split_ifs at h with hright
    cases h
    exact .rightEnd hright
  | read =>
    cases hinput : s.input with
    | nil =>
      simp only [work, hinput] at h
      cases h
      exact .exhausted hinput
    | cons answer rest =>
      cases answer with
      | none =>
        simp only [work, hinput] at h
        cases h
        exact .missing rest hinput
      | some value =>
        simp only [work, hinput] at h
        exact absurd h (deposit_ne_fails _ value)
  | increment => exact absurd h (withCell_ne_fails fun _ ↦ deposit_ne_fails s _)
  | decrement => exact absurd h (withCell_ne_fails fun _ ↦ deposit_ne_fails s _)
  | write => exact absurd h (withCell_ne_fails fun _ ↦ by simp)
  | loopStart => exact absurd h (withCell_ne_fails fun _ ↦ by split_ifs <;> simp)
  | loopEnd => exact absurd h (withCell_ne_fails fun _ ↦ by split_ifs <;> simp)

/-- A command that fails changes nothing, unless it uses up an answer that says there is none. -/
theorem Fails.memory_eq (h : s.Fails command next failure)
    (hkept : none ∉ s.input ∨ ∀ pointer, failure ≠ .inputExhausted pointer) : next = s := by
  cases h with
  | leftEnd => rfl
  | rightEnd => rfl
  | exhausted => rfl
  | missing rest hmissing =>
    rcases hkept with hinput | hfailure
    · simp [hmissing] at hinput
    · exact absurd rfl (hfailure s.pointer)

end Memory

/-! ### The last machine of a run -/

namespace Feed

theorem none_notMem_ofBytes (bytes : List UInt8) : none ∉ ofBytes bytes := by
  simp [ofBytes]

theorem isByte_of_mem_ofBytes {bytes : List UInt8} {value : ℤ} (h : some value ∈ ofBytes bytes) :
    0 ≤ value ∧ value < 256 := by
  simp only [ofBytes, List.mem_map, Option.some.injEq] at h
  obtain ⟨byte, -, rfl⟩ := h
  have hlt := byte.toNat_lt
  omega

end Feed

namespace Machine

variable {code : Code} {m next last : Machine} {outcome : Machine × Except Fault Unit}

/-- A move carries out the command at the position: it gives the machine the memory that the command
leaves behind and another position, and counts one step. -/
theorem exists_work_of_move (h : m.move code = some next) :
    ∃ c s position, code.program.get? m.pc = some c ∧ next = m.goOn s position ∧
      (m.memory.work (Command.ofChar c) = .done s ∨
        m.memory.work (Command.ofChar c) = .jump ∧ s = m.memory) := by
  unfold move at h
  split_ifs at h
  split at h
  · cases h
  · rename_i c hget
    split at h
    · rename_i s hwork
      cases h
      exact ⟨c, s, _, hget, rfl, .inl hwork⟩
    · rename_i hwork
      obtain ⟨other, -, rfl⟩ := Option.map_eq_some_iff.mp h
      exact ⟨c, _, _, hget, rfl, .inr ⟨hwork, rfl⟩⟩
    · cases h
    · cases h

theorem failure_of_reaches (h : Reaches (move code) m last) : last.failure = m.failure := by
  induction h with
  | refl => rfl
  | tail _ hmove ih =>
    obtain ⟨c, s, position, -, rfl, -⟩ := exists_work_of_move hmove
    exact ih

/-- Moves take answers from the input, and put none back. -/
theorem input_of_reaches (h : Reaches (move code) m last) : last.input <:+ m.input := by
  induction h with
  | refl => exact List.suffix_refl _
  | @tail middle next _ hmove ih =>
    have hstep := middle.step_input code
    have hnext : (middle.step code).1.input = next.input :=
      congrArg Memory.input (memory_step_of_move hmove)
    rw [hnext] at hstep
    exact hstep.trans ih

theorem Safe.pc_eq_of_halted (h : m.Safe code) (hfailure : m.failure = none)
    (hhalted : m.halted code = true) : m.pc = code.program.size := by
  have hover : (code.program.size : ℤ) ≤ m.pc := by simpa [halted, hfailure] using hhalted
  exact Int.le_antisymm h.pc_le hover

/-- How a run can end: at the end of the code, before a command that fails, or at a reading whose
value is no byte. -/
theorem Safe.ends_cases (h : m.Safe code) (hfailure : m.failure = none)
    (hends : m.Ends code outcome) :
    ∃ last, Reaches (Machine.move code) m last ∧
      ((last.pc = code.program.size ∧ verdict outcome = ⟨last.memory, none, .ok ()⟩ ∧
        outcome.1.pc = last.pc ∧ outcome.1.steps = last.steps) ∨
      (last.halted code = false ∧ ∃ c s failure, code.program.get? last.pc = some c ∧
        last.memory.Fails (Command.ofChar c) s failure ∧
        last.step code = (last.setMemory s).fail failure ∧
        outcome = (((last.setMemory s).fail failure).1, .ok ())) ∨
      (last.halted code = false ∧ ∃ value rest, last.input = some value :: rest ∧
        ¬(0 ≤ value ∧ value < 256) ∧
        outcome = ({ last with input := rest }, .error (.ofByte value)))) := by
  by_cases hover : m.halted code = true
  · rw [(ends_of_halted hover).mp hends]
    refine ⟨m, .refl, .inl ⟨h.pc_eq_of_halted hfailure hover, ?_, rfl, rfl⟩⟩
    rw [← hfailure]
    rfl
  obtain ⟨last, hlast, rfl⟩ := (ends_of_running (by simpa using hover)).mp hends
  obtain ⟨hreach, hmove⟩ := mem_eval.mp hlast
  have hsafe := (h.reaches hreach).1
  have hnone := (failure_of_reaches hreach).trans hfailure
  refine ⟨last, hreach, ?_⟩
  by_cases hhalted : last.halted code = true
  · refine .inl ⟨hsafe.pc_eq_of_halted hnone hhalted, ?_, conclude_registers hmove⟩
    rw [verdict_of_halted hhalted, hnone]
  have hrun : last.halted code = false := by simpa using hhalted
  obtain ⟨position, c, hposition, hc, hget⟩ := hsafe.fetch hrun
  have hstep := step_eq_settle hrun hget
  rw [move_eq hrun hget] at hmove
  rw [conclude, if_neg hhalted]
  rcases Memory.work_cases hsafe.inRange (Command.ofChar c) with
    ⟨s, hwork, -⟩ | ⟨hwork, hbracket⟩ | ⟨rest, failure, hwork⟩ |
      ⟨value, rest, hwork, -, hinput, hvalue⟩
  · simp [hwork] at hmove
  · obtain ⟨other, -, hpartner⟩ := hsafe.exists_partner hposition hc hbracket
    simp [hwork, hpartner] at hmove
  · rw [hwork] at hstep
    rw [hstep]
    exact .inr (.inl ⟨hrun, c, _, failure, hget, Memory.fails_of_work hwork, rfl, rfl⟩)
  · rw [hwork] at hstep
    rw [hstep]
    exact .inr (.inr ⟨hrun, value, rest, hinput, hvalue, rfl⟩)

/-- A run over bytes has no faults, and a command that fails in it changes nothing: the memory at
the end is that of the last machine. -/
theorem Safe.ends_cases_of_bytes {data : List UInt8} (h : m.Safe code)
    (hfailure : m.failure = none) (hinput : m.input = .ofBytes data)
    (hends : m.Ends code outcome) :
    outcome.2 = .ok () ∧ ∃ last, Reaches (Machine.move code) m last ∧
      outcome.1.memory = last.memory ∧ outcome.1.steps = last.steps ∧
      ((outcome.1.failure = none ∧ outcome.1.pc = code.program.size) ∨
      ∃ c failure, last.halted code = false ∧ none ∉ last.input ∧
        code.program.get? last.pc = some c ∧
        last.memory.Fails (Command.ofChar c) last.memory failure ∧
        last.step code = last.fail failure ∧ outcome.1 = (last.fail failure).1) := by
  obtain ⟨last, hreach, hend⟩ := h.ends_cases hfailure hends
  have hsuffix := input_of_reaches hreach
  rw [hinput] at hsuffix
  rcases hend with ⟨hpc, hverdict, hsame, hsteps⟩ |
    ⟨hrun, c, s, failure, hget, hfails, hstep, rfl⟩ | ⟨-, value, rest, hvalue, hbyte, -⟩
  · exact ⟨congrArg Verdict.answer hverdict, last, hreach, congrArg Verdict.memory hverdict, hsteps,
      .inl ⟨congrArg Verdict.failure hverdict, hsame.trans hpc⟩⟩
  · have hbytes : none ∉ last.input :=
      fun hmem ↦ Feed.none_notMem_ofBytes data (hsuffix.subset hmem)
    obtain rfl := hfails.memory_eq (.inl hbytes)
    exact ⟨rfl, last, hreach, rfl, rfl, .inr ⟨c, failure, hrun, hbytes, hget, hfails, hstep, rfl⟩⟩
  · have hmem : some value ∈ last.input := by simp [hvalue]
    exact absurd (Feed.isByte_of_mem_ofBytes (hsuffix.subset hmem)) hbyte

end Machine

/-! ### Single steps of a session -/

namespace Session

variable {s ready : Session} {code : Code} {m last : Machine}

/-- The session after a number of single steps. -/
def after (number : ℕ) (s : Session) : Session := (fun s ↦ s.step.1)^[number] s

/-- What the source of the engine has still to deliver. -/
def unread (s : Session) : Feed := s.devices.pending s.engine.source

/-- Single steps of the session are steps of the machine that runs on, taken back. -/
theorem after_absorb (h : s.Follows m) (hcode : s.engine.loaded = some code) (number : ℕ) :
    (s.absorb m).after number = s.absorb (m.after code number) ∧
      s.Follows (m.after code number) := by
  induction number with
  | zero => exact ⟨rfl, h⟩
  | succ number ih =>
    obtain ⟨hafter, hfollows⟩ := ih
    obtain ⟨hstep, hnext⟩ := step_absorb hfollows hcode
    unfold after Machine.after at hafter ⊢
    rw [Function.iterate_succ_apply', Function.iterate_succ_apply', hafter]
    exact ⟨congrArg Prod.fst hstep, hnext⟩

/-- As long as a run goes on, single steps lead to its machines. -/
theorem after_of_reaches (hcode : s.engine.loaded = some code)
    (hreach : Reaches (Machine.move code) s.machine last) (hrun : last.halted code = false) :
    s.after (last.steps - s.engine.steps) = s.absorb last ∧ s.Follows last := by
  have hlast : s.machine.after code (last.steps - s.engine.steps) = last :=
    Machine.after_of_reaches hreach hrun
  have hafter := after_absorb (follows_machine s) hcode (last.steps - s.engine.steps)
  rwa [absorb_machine, hlast] at hafter

/-- A step of an engine that is halted does nothing. -/
theorem step_of_halted (h : s.engine.halted = true) : s.step = (s, .ok false) := by
  unfold step
  cases hcode : s.engine.loaded with
  | none => rfl
  | some code =>
    have hhalted : s.machine.halted code = true := by
      simp only [Engine.halted, hcode] at h
      exact h
    dsimp only
    rw [Machine.step_of_halted hhalted]
    exact Prod.ext s.absorb_machine rfl

theorem after_of_halted (h : s.engine.halted = true) (number : ℕ) : s.after number = s := by
  unfold after
  rw [Function.iterate_fixed (congrArg Prod.fst (step_of_halted h))]

/-- A session with a sink to write to gives out again the machine that it took back. -/
theorem machine_absorb_of_drain (h : s.Follows m)
    (hdrain : s.engine.sink.drain < s.devices.drains.size) : (s.absorb m).machine = m := by
  have hbefore : s.engine.sink.drain <
      (s.devices.setPending s.engine.source m.input).drains.size := hdrain
  have hbytes : ((s.absorb m).devices.received s.engine.sink.drain).bytes = m.output :=
    Devices.bytes_received_setWritten hbefore m.output
  rw [machine_absorb h, hbytes]
  rfl

theorem unread_absorb (h : s.Follows m) : (s.absorb m).unread = m.input :=
  congrArg Machine.input (machine_absorb h)

theorem written_absorb (h : s.Follows m) (hdrain : s.engine.sink.drain < s.devices.drains.size) :
    (s.absorb m).written = m.output :=
  congrArg Machine.output (machine_absorb_of_drain h hdrain)

end Session

/-! ### The four ways out -/

/-- The ways in which a run over bytes can end. -/
inductive Exit where
  | finished
  | leftEnd
  | rightEnd
  | exhausted
  deriving DecidableEq, Repr

/-- The run of the program on a tape of `size` cells has left the session in this way: at the end of
the program, or with a failure that names the pointer, before the command that fails there. -/
def Exit.Describes (program : Program) (size : ℕ) (s : Session) : Exit → Prop
  | .finished => s.engine.failure = none ∧ s.engine.pc = program.size
  | .leftEnd => s.engine.failure = some (.outOfBounds 0 .left) ∧
      program.get? s.engine.pc = some '<' ∧ s.engine.pointer = 0
  | .rightEnd => s.engine.failure = some (.outOfBounds (size - 1) .right) ∧
      program.get? s.engine.pc = some '>' ∧ s.engine.pointer = size - 1
  | .exhausted => s.engine.failure = some (.inputExhausted s.engine.pointer) ∧
      program.get? s.engine.pc = some ',' ∧ s.unread = []

/-- The failure tells the ways out apart. -/
theorem Exit.Describes.unique {program : Program} {size : ℕ} {s : Session} {first second : Exit}
    (hfirst : first.Describes program size s) (hsecond : second.Describes program size s) :
    first = second := by
  cases first <;> cases second <;> simp_all [Exit.Describes]

namespace Session

variable {config : Config} {s ready next : Session} {code : Code} {listing : Listing}
  {input : Input} {output : Output} {last : Machine} {after : Memory} {c : Char}
  {failure : Failure}

/-- A command that fails leaves the session by the way that belongs to it. -/
theorem exists_exit_of_fails (hfollows : ready.Follows last)
    (hc : code.program.get? last.pc = some c)
    (hfails : last.memory.Fails (Command.ofChar c) after failure) (hinput : none ∉ last.input) :
    ∃ exit : Exit, exit.Describes code.program last.tape.size
      (ready.absorb (last.fail failure).1) := by
  have hunread : (ready.absorb (last.fail failure).1).unread = last.input :=
    unread_absorb ⟨hfollows.input, hfollows.output⟩
  generalize hcommand : Command.ofChar c = command at hfails
  cases hfails with
  | leftEnd hpointer =>
    obtain rfl : c = '<' := Command.eq_of_symbol? hcommand rfl
    exact ⟨.leftEnd, by rw [hpointer]; rfl, hc, hpointer⟩
  | rightEnd hpointer =>
    obtain rfl : c = '>' := Command.eq_of_symbol? hcommand rfl
    have hlast : last.memory.pointer = last.tape.size - 1 := eq_sub_of_add_eq hpointer
    exact ⟨.rightEnd, by rw [← hlast]; rfl, hc, hlast⟩
  | exhausted hempty =>
    obtain rfl : c = ',' := Command.eq_of_symbol? hcommand rfl
    exact ⟨.exhausted, rfl, hc, hunread.trans hempty⟩
  | missing rest hmissing =>
    have hmem : none ∈ last.memory.input := by simp [hmissing]
    exact absurd hmem hinput

/-- The failing command is the next step of a session that has taken as many steps as the run
counts, and the failure is all that it changes. -/
def FailsAfter (start next : Session) (failure : Failure) : Prop :=
  let before := start.after next.engine.steps
  before.engine.failure = none ∧ before.step = (next, .ok false) ∧
    next.engine = { before.engine with failure := some failure } ∧ next.devices = before.devices

theorem failsAfter_of_reaches (hcode : ready.engine.loaded = some code)
    (hsteps : ready.engine.steps = 0) (hfailure : ready.engine.failure = none)
    (hreach : Reaches (Machine.move code) ready.machine last) (hrun : last.halted code = false)
    (hstep : last.step code = last.fail failure) :
    ready.FailsAfter (ready.absorb (last.fail failure).1) failure := by
  obtain ⟨hafter, hfollows⟩ := after_of_reaches hcode hreach hrun
  rw [hsteps, Nat.sub_zero] at hafter
  have hnone : last.failure = none := (Machine.failure_of_reaches hreach).trans hfailure
  have hnext := (step_absorb hfollows hcode).1
  rw [hstep] at hnext
  have hclock : (ready.absorb (last.fail failure).1).engine.steps = last.steps := rfl
  unfold FailsAfter
  rw [hclock, hafter]
  exact ⟨hnone, hnext, rfl, rfl⟩

/-- A run that fails has stopped before a command that fails there and changes nothing. -/
theorem exists_last_of_run {fuel : ℕ} {result : RunResult} (hsafe : ready.machine.Safe code)
    (hfailure : ready.engine.failure = none)
    (hload : s.load listing input output = (ready, .ok (.ok code)))
    (hrun : s.run fuel listing input output = some (next, .ok result))
    (hfailed : result.failure = some failure)
    (hkept : none ∉ ready.machine.input ∨ ∀ pointer, failure ≠ .inputExhausted pointer) :
    ∃ last c, Reaches (Machine.move code) ready.machine last ∧ last.halted code = false ∧
      code.program.get? last.pc = some c ∧
      last.memory.Fails (Command.ofChar c) last.memory failure ∧
      next = ready.absorb (last.fail failure).1 ∧ result.steps = last.steps := by
  obtain ⟨outcome, hends, rfl, hanswer⟩ := ends_of_run hsafe hload hrun
  obtain ⟨-, rfl⟩ := finish_eq_ok_iff.mp hanswer.symm
  have houtcome : outcome.1.failure = some failure := hfailed
  obtain ⟨last, hreach, hend⟩ := hsafe.ends_cases hfailure hends
  rcases hend with ⟨-, hverdict, -⟩ | ⟨hrunning, c, s, cause, hget, hfails, -, rfl⟩ |
    ⟨-, value, rest, -, -, rfl⟩
  · have hnone : outcome.1.failure = none := congrArg Verdict.failure hverdict
    exact absurd (hnone.symm.trans houtcome) (by simp)
  · obtain rfl : cause = failure := Option.some.inj houtcome
    have hinput := (Machine.input_of_reaches hreach).subset
    obtain rfl := hfails.memory_eq (hkept.imp_left fun hnone hmem ↦ hnone (hinput hmem))
    exact ⟨last, c, hreach, hrunning, hget, hfails, rfl, rfl⟩
  · have hnone : last.failure = none := (Machine.failure_of_reaches hreach).trans hfailure
    exact absurd (hnone.symm.trans houtcome) (by simp)

/-- Runs over bytes, by either strategy and from every tape and pointer, end in exactly one of four
ways, and never with a fault. A run that fails leaves everything but the failure as it was just
before the command that fails. Whatever the end, further steps do not go on and change nothing, be
it in the engine or in any source or sink. -/
theorem runs_end_in_four_ways {config : Config} {s next : Session} {listing : Listing}
    {program : Program} {index : BracketIndex} {input : Input} {output : Output}
    {devices : Devices} {source : Source} {data : List UInt8} {fuel : ℕ}
    {answer : Except Error RunResult} (hs : s.engine.Sound config)
    (hlisting : listing.toProgram = .ok program) (hbuild : BracketIndex.build program = .ok index)
    (hopened : s.devices.openSource input = .ok (devices, source))
    (hbytes : devices.pending source = .ofBytes data)
    (hrun : s.run fuel listing input output = some (next, answer)) :
    answer = .ok next.engine.result ∧
    (∃! exit : Exit, exit.Describes program config.tapeSize next) ∧
    (∀ failure, next.engine.failure = some failure →
      (s.load listing input output).1.FailsAfter next failure) ∧
    ∀ number, next.after number = next ∧ (next.after number).step.2 = .ok false := by
  let code : Code := ⟨program, index⟩
  have hbuilt : BracketIndex.build code.program = .ok code.index := hbuild
  have hload := load_eq_start code hlisting hbuilt hopened output
  obtain ⟨hcode, hsafe⟩ := safe_of_load hs hload
  obtain ⟨-, hsteps, hfailure⟩ := registers_of_load hload
  have hinput : (s.start code devices source output).machine.input = .ofBytes data :=
    (congrArg Memory.input (s.start_memory code devices source output)).trans hbytes
  have hsize := (hs.start hbuilt devices source output).size_tape
  rw [hload]
  generalize s.start code devices source output = ready at *
  obtain ⟨outcome, hends, rfl, rfl⟩ := ends_of_run hsafe hload hrun
  obtain ⟨hanswer, last, hreach, -, -, hend⟩ :=
    hsafe.ends_cases_of_bytes hfailure hinput hends
  have hresult : (ready.finish outcome).2 = .ok (ready.finish outcome).1.engine.result :=
    finish_eq_ok_iff.mpr ⟨hanswer, rfl⟩
  have hfinished (hhalted : (ready.finish outcome).1.engine.halted = true) (number : ℕ) :
      (ready.finish outcome).1.after number = (ready.finish outcome).1 ∧
        ((ready.finish outcome).1.after number).step.2 = .ok false := by
    rw [after_of_halted hhalted, step_of_halted hhalted]
    exact ⟨rfl, rfl⟩
  rcases hend with ⟨hnone, hpc⟩ | ⟨c, failure, hrunning, hbytes, hget, hfails, hstep, hlast⟩
  · refine ⟨hresult, ?_, ?_, hfinished ?_⟩
    · exact ⟨.finished, ⟨hnone, hpc⟩, fun _ hother ↦ hother.unique ⟨hnone, hpc⟩⟩
    · intro failure hfailed
      exact absurd (hnone.symm.trans hfailed) (by simp)
    · simp [Engine.halted, finish, absorb, hcode, hpc]
  · have hnext : (ready.finish outcome).1 = ready.absorb (last.fail failure).1 := by
      rw [finish, hlast]
    have htape : last.tape.size = config.tapeSize := (hsafe.reaches hreach).2.trans hsize
    have hfollows := (after_of_reaches hcode hreach hrunning).2
    obtain ⟨exit, hexit⟩ := exists_exit_of_fails hfollows hget hfails hbytes
    rw [htape] at hexit
    rw [hnext] at hresult hfinished ⊢
    refine ⟨hresult, ⟨exit, hexit, fun _ hother ↦ hother.unique hexit⟩, ?_, hfinished ?_⟩
    · intro found hfound
      obtain rfl : failure = found := Option.some.inj hfound
      exact failsAfter_of_reaches hcode hsteps hfailure hreach hrunning hstep
    · simp [Engine.halted, absorb, Machine.fail, hcode]

/-- With one byte to read, `+[,.]` runs out of input in its second round, on a kept tape with one
cell. It has taken five steps, the next one fails at the comma, and three more do nothing. -/
theorem runs_end_in_four_ways_out_of_input :
    let s : Session :=
      { engine := ⟨⟨1, by decide, true, true⟩, #[254], 0, 0, 0, none, none, ⟨.bytes, 0⟩,
          ⟨.buffer, 0⟩⟩
        devices := .empty
        journal := #[] }
    let listing : Listing := .given (.text "+[,.]")
    s.engine.Sound s.engine.config ∧
    ∃ next, s.run 30 listing (.bytes [7]) .none =
        some (next, .ok ⟨some (.inputExhausted 0), 2, 0, 5⟩) ∧
      Exit.exhausted.Describes (Program.ofText "+[,.]") 1 next ∧
      (s.load listing (.bytes [7]) .none).1.FailsAfter next (.inputExhausted 0) ∧
      next.after 3 = next := by
  intro s listing
  have hs : s.engine.Sound s.engine.config :=
    .of_not_loaded rfl rfl rfl (by decide) (by decide)
  have hbuild : BracketIndex.build (Program.ofText "+[,.]") =
      .ok ⟨#[none, some 4, none, none, some 1]⟩ := by decide +kernel
  let ended := (s.run 30 listing (.bytes [7]) .none).get (by decide +kernel)
  have hrun : s.run 30 listing (.bytes [7]) .none =
      some (ended.1, .ok ⟨some (.inputExhausted 0), 2, 0, 5⟩) := by decide +kernel
  have hexhausted : ended.1.engine.failure = some (.inputExhausted 0) := by decide +kernel
  obtain ⟨devices, source, hopened, hbytes, -⟩ := s.offers_bytes [7]
  obtain ⟨-, ⟨exit, hexit, -⟩, hfails, hafter⟩ :=
    runs_end_in_four_ways hs rfl hbuild hopened hbytes hrun
  refine ⟨hs, ended.1, hrun, ?_, hfails _ hexhausted, (hafter 3).1⟩
  cases exit with
  | exhausted => exact hexit
  | finished => exact absurd (hexit.1.symm.trans hexhausted) (by simp)
  | leftEnd => exact absurd (hexit.1.symm.trans hexhausted) (by simp)
  | rightEnd => exact absurd (hexit.1.symm.trans hexhausted) (by simp)

end Session

end TapeMachine
