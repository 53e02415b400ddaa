import TapeMachine.Proofs.Endings

/-!
Runs inside larger memories. A memory can lie in a larger one: a tape in a longer tape, an input in
a longer input. An `Embedding` says how, and that every command does in the larger memory what it
does in the smaller one, unless it fails there for want of something that the larger memory has
(`averts`).

One law for single commands carries over to whole runs. Moves in the smaller memory are moves in
the larger one (`Embedding.reaches`), so both runs go side by side up to the last machine of the
smaller one; there they end alike, unless the larger memory averts the failure
(`Embedding.conclude_cases`). A run that has no end in the smaller memory has none in the larger one
(`Embedding.exists_last`). For two sessions that are ready to run the same code, one with the memory
of the other embedded in its own, this says how their runs compare (`Prepared.run`,
`Prepared.after`, `Prepared.exists_run`).
-/

set_option autoImplicit false
set_option relaxedAutoImplicit false

namespace TapeMachine

open StateTransition

/-! ### Larger memories -/

/-- The failure on a tape whose cells are counted from a place further to the left. -/
def Failure.shift (offset : ℕ) : Failure → Failure
  | .unmatchedClose position => .unmatchedClose position
  | .unclosedOpens positions => .unclosedOpens positions
  | .outOfBounds pointer direction => .outOfBounds (offset + pointer) direction
  | .inputExhausted pointer => .inputExhausted (offset + pointer)
  | .unspecified => .unspecified

/-- The same work in another memory, its cells counted from a place further to the left. -/
def Work.lift (memory : Memory → Memory) (offset : ℕ) : Work → Work
  | .done s => .done (memory s)
  | .jump => .jump
  | .fails s failure => .fails (memory s) (failure.shift offset)
  | .faults s fault => .faults (memory s) fault

/-- How a memory lies in a larger one, in which cells have `offset` cells before them that are not
its own. What a command does in the larger memory is what it does in the smaller one, unless it
fails there with a failure that the larger memory averts. -/
structure Embedding where
  memory : Memory → Memory
  offset : ℕ
  averts : Failure → Prop
  pointer_eq : ∀ s, (memory s).pointer = offset + s.pointer
  inRange : ∀ s, s.InRange → (memory s).InRange
  work : ∀ s, s.InRange → ∀ command,
    (memory s).work command = (s.work command).lift memory offset ∨
      ∃ failure, s.work command = .fails s failure ∧ averts failure

/-- The same result with the cells counted from a place further to the left. -/
def RunResult.shift (offset : ℕ) (result : RunResult) : RunResult :=
  ⟨result.failure.map (.shift offset), result.pc, offset + result.pointer, result.steps⟩

theorem Failure.shift_zero (failure : Failure) : failure.shift 0 = failure := by
  cases failure <;> simp [shift]

theorem Work.lift_zero (memory : Memory → Memory) (w : Work) : w.lift memory 0 = w.map memory := by
  cases w <;> simp [lift, map, Failure.shift_zero]

theorem RunResult.shift_zero (result : RunResult) : result.shift 0 = result := by
  obtain ⟨failure, pc, pointer, steps⟩ := result
  cases failure <;> simp [shift, Failure.shift_zero]

theorem RunResult.map_shift_zero (answer : Except Error RunResult) :
    answer.map (.shift 0) = answer := by
  cases answer with
  | ok result => exact congrArg Except.ok result.shift_zero
  | error cause => rfl

namespace Embedding

variable {x : Embedding} {code : Code} {m next last : Machine}

/-! ### Machines side by side -/

/-- The machine in the larger memory, with a journal of its own. -/
def machine (x : Embedding) (journal : Array Event) (m : Machine) : Machine :=
  { m.setMemory (x.memory m.memory) with journal := journal }

/-- What a verdict says about the larger memory. -/
def verdict (x : Embedding) (v : Verdict) : Verdict :=
  ⟨x.memory v.memory, v.failure.map (.shift x.offset), v.answer⟩

theorem safe (x : Embedding) (journal : Array Event) (h : m.Safe code) :
    (x.machine journal m).Safe code :=
  ⟨h.built, x.inRange _ h.inRange, h.pc_nonneg, h.pc_le⟩

/-- A command that is carried out is carried out in the larger memory. -/
theorem move (x : Embedding) (journal : Array Event) (h : m.Safe code)
    (hmove : m.move code = some next) :
    (x.machine journal m).move code = some (x.machine journal next) := by
  have hrun := Machine.running_of_move hmove
  obtain ⟨position, c, -, -, hget⟩ := h.fetch hrun
  have hlarger : (x.machine journal m).halted code = false := hrun
  have hchar : code.program.get? (x.machine journal m).pc = some c := hget
  have hmemory : (x.machine journal m).memory = x.memory m.memory := rfl
  rw [Machine.move_eq hrun hget] at hmove
  rw [Machine.move_eq hlarger hchar, hmemory]
  rcases x.work _ h.inRange (Command.ofChar c) with hwork | ⟨failure, hwork, -⟩
  · rw [hwork]
    cases hold : m.memory.work (Command.ofChar c) with
    | done s =>
      rw [hold] at hmove
      cases hmove
      rfl
    | jump =>
      rw [hold, Option.map_eq_some_iff] at hmove
      obtain ⟨other, hother, rfl⟩ := hmove
      have hpartner : code.index.partner? (x.machine journal m).pc = some other := hother
      simp only [Work.lift, hpartner]
      rfl
    | fails s failure => simp [hold] at hmove
    | faults s fault => simp [hold] at hmove
  · simp [hwork] at hmove

theorem reaches (x : Embedding) (journal : Array Event) (h : m.Safe code)
    (hreach : Reaches (Machine.move code) m last) :
    Reaches (Machine.move code) (x.machine journal m) (x.machine journal last) := by
  induction hreach with
  | refl => exact .refl
  | tail hreach hmove ih => exact ih.tail (x.move journal (h.reaches hreach).1 hmove)

/-- Where the moves end in the smaller memory they end in the larger one, with the same verdict on
it, or the larger memory averts the failure. -/
theorem conclude_cases (x : Embedding) (journal : Array Event) (h : m.Safe code)
    (hfailure : m.failure = none) (hmove : m.move code = none) :
    ((x.machine journal m).move code = none ∧
      Machine.verdict ((x.machine journal m).conclude code) =
        x.verdict (Machine.verdict (m.conclude code))) ∨
    ∃ failure, Machine.verdict (m.conclude code) = ⟨m.memory, some failure, .ok ()⟩ ∧
      x.averts failure := by
  by_cases hhalted : m.halted code = true
  · have hlarger : (x.machine journal m).halted code = true := hhalted
    refine .inl ⟨Machine.move_of_halted hlarger, ?_⟩
    rw [Machine.verdict_of_halted hhalted, Machine.verdict_of_halted hlarger]
    change Verdict.mk (x.memory m.memory) m.failure _ = x.verdict ⟨m.memory, m.failure, _⟩
    rw [hfailure]
    rfl
  have hrun : m.halted code = false := by simpa using hhalted
  have hlarger : (x.machine journal m).halted code = false := hrun
  obtain ⟨position, c, -, -, hget⟩ := h.fetch hrun
  have hchar : code.program.get? (x.machine journal m).pc = some c := hget
  have hmemory : (x.machine journal m).memory = x.memory m.memory := rfl
  rw [Machine.move_eq hrun hget] at hmove
  rcases x.work _ h.inRange (Command.ofChar c) with hwork | ⟨failure, hwork, haverts⟩
  · left
    cases hold : m.memory.work (Command.ofChar c) with
    | done s => simp [hold] at hmove
    | jump =>
      obtain ⟨other, hother⟩ := h.exists_partner_of_jump hrun hget hold
      simp [hold, hother] at hmove
    | fails s failure =>
      rw [hold, ← hmemory] at hwork
      rw [Machine.move_eq hlarger hchar, hwork, Machine.verdict_of_fails hlarger hchar hwork,
        Machine.verdict_of_fails hrun hget hold]
      exact ⟨rfl, rfl⟩
    | faults s fault =>
      rw [hold, ← hmemory] at hwork
      rw [Machine.move_eq hlarger hchar, hwork, Machine.verdict_of_faults hlarger hchar hwork,
        Machine.verdict_of_faults hrun hget hold]
      change _ ∧ Verdict.mk (x.memory s) m.failure _ = x.verdict ⟨s, m.failure, _⟩
      rw [hfailure]
      exact ⟨rfl, rfl⟩
  · exact .inr ⟨failure, Machine.verdict_of_fails hrun hget hwork, haverts⟩

/-- A run that comes to an end in the larger memory comes to one in the smaller memory. -/
theorem exists_last (x : Embedding) (journal : Array Event) (h : m.Safe code) {final : Machine}
    (hfinal : final ∈ eval (Machine.move code) (x.machine journal m)) :
    ∃ last, last ∈ eval (Machine.move code) m := by
  suffices hall : ∀ larger, final ∈ eval (Machine.move code) larger → ∀ m, m.Safe code →
      larger = x.machine journal m → ∃ last, last ∈ eval (Machine.move code) m from
    hall _ hfinal m h rfl
  intro larger hfinal
  refine evalInduction hfinal fun larger _ ih m h hlarger ↦ ?_
  cases hmove : m.move code with
  | none => exact ⟨m, mem_eval.mpr ⟨.refl, hmove⟩⟩
  | some next =>
    have hnext : larger.move code = some (x.machine journal next) := by
      rw [hlarger, x.move journal h hmove]
    obtain ⟨last, hlast⟩ := ih _ hnext next (h.move hmove).1 rfl
    have heval : eval (Machine.move code) m = eval (Machine.move code) next :=
      reaches_eval (.single hmove)
    exact ⟨last, heval ▸ hlast⟩

/-! ### Sessions side by side -/

/-- The second session is in the larger memory where the first one is in the smaller one, at the
same position and after as many steps. -/
structure Holds (x : Embedding) (s t : Session) : Prop where
  memory_eq : t.machine.memory = x.memory s.machine.memory
  pc_eq : t.engine.pc = s.engine.pc
  steps_eq : t.engine.steps = s.engine.steps

/-- Both sessions are ready to run the code from its start, the second one with the memory of the
first one inside its own, and both have a sink to write to. -/
structure Prepared (x : Embedding) (code : Code) (ready larger : Session) : Prop where
  loaded : ready.engine.loaded = some code
  loaded_larger : larger.engine.loaded = some code
  safe : ready.machine.Safe code
  steps_eq : ready.engine.steps = 0
  failure_eq : ready.engine.failure = none
  machine_eq : larger.machine = x.machine larger.journal ready.machine
  drain : ready.engine.sink.drain < ready.devices.drains.size
  drain_larger : larger.engine.sink.drain < larger.devices.drains.size

section Session

variable {config settings : Config} {s t ready larger : Session} {listing : Listing}
  {input taken : Input} {output given : Output} {feed supply : Feed}
  {outcome : Machine × Except Fault Unit}

/-- Sessions that are offered a source and a new sink are prepared, if the memory with which the
first run begins lies in the one with which the second begins. -/
theorem exists_prepared (x : Embedding) (code : Code) (hs : s.engine.Sound config)
    (ht : t.engine.Sound settings) (hlisting : listing.toProgram = .ok code.program)
    (hbuild : BracketIndex.build code.program = .ok code.index)
    (hoffers : s.Offers input output feed) (hoffered : t.Offers taken given supply)
    (hmemory : Memory.mk t.engine.rewind.tape t.engine.rewind.pointer supply #[] =
      x.memory ⟨s.engine.rewind.tape, s.engine.rewind.pointer, feed, #[]⟩) :
    ∃ ready larger, s.load listing input output = (ready, .ok (.ok code)) ∧
      t.load listing taken given = (larger, .ok (.ok code)) ∧ x.Prepared code ready larger := by
  obtain ⟨devices, source, hopened, hpending, hdrain, hfresh⟩ := hoffers
  obtain ⟨devices', source', hopened', hpending', hdrain', hfresh'⟩ := hoffered
  have hload := Session.load_eq_start code hlisting hbuild hopened output
  have hload' := Session.load_eq_start code hlisting hbuild hopened' given
  obtain ⟨hcode, hsafe⟩ := Session.safe_of_load hs hload
  obtain ⟨hpc, hsteps, hfailure⟩ := Session.registers_of_load hload
  obtain ⟨hpc', hsteps', hfailure'⟩ := Session.registers_of_load hload'
  refine ⟨_, _, hload, hload', hcode, (Session.safe_of_load ht hload').1, hsafe, hsteps, hfailure,
    ?_, hdrain, hdrain'⟩
  have hsame : (t.start code devices' source' given).machine.memory =
      x.memory (s.start code devices source output).machine.memory := by
    rw [Session.start_memory, Session.start_memory, hpending, hpending', hfresh, hfresh', hmemory]
  generalize s.start code devices source output = ready at *
  generalize t.start code devices' source' given = larger at *
  unfold machine
  rw [← hsame]
  change larger.machine = { larger.machine with
    pc := ready.engine.pc, steps := ready.engine.steps, failure := ready.engine.failure }
  rw [hpc, hsteps, hfailure, ← hpc', ← hsteps', ← hfailure']
  rfl

namespace Prepared

theorem safe_larger (h : x.Prepared code ready larger) : larger.machine.Safe code := by
  rw [h.machine_eq]
  exact x.safe larger.journal h.safe

/-- What two machines leave behind that hold each other is held by the sessions. -/
theorem holds_absorb (h : x.Prepared code ready larger) {n : Machine} (hm : ready.Follows m)
    (hn : larger.Follows n) (hmemory : n.memory = x.memory m.memory) (hpc : n.pc = m.pc)
    (hsteps : n.steps = m.steps) : x.Holds (ready.absorb m) (larger.absorb n) := by
  refine ⟨?_, hpc, hsteps⟩
  rw [Session.machine_absorb_of_drain hn h.drain_larger,
    Session.machine_absorb_of_drain hm h.drain]
  exact hmemory

/-- A run that ends in the smaller memory ends in the larger one, and the sessions show the same in
both of them, unless the larger memory averts a failure. -/
theorem ends_cases (h : x.Prepared code ready larger) (hends : ready.machine.Ends code outcome) :
    (∃ different, larger.machine.Ends code different ∧
      Machine.verdict different = x.verdict (Machine.verdict outcome) ∧
      x.Holds (ready.absorb outcome.1) (larger.absorb different.1)) ∨
    ∃ failure, outcome.2 = .ok () ∧ outcome.1.failure = some failure ∧ x.averts failure := by
  obtain ⟨last, hlast, hverdict, hpc, hsteps⟩ := hends.exists_last
  obtain ⟨hreach, hmove⟩ := mem_eval.mp hlast
  have hsafe := (h.safe.reaches hreach).1
  have hfailure := (Machine.failure_of_reaches hreach).trans h.failure_eq
  have hreachLarger := x.reaches larger.journal h.safe hreach
  rw [← h.machine_eq] at hreachLarger
  rcases x.conclude_cases larger.journal hsafe hfailure hmove with
    ⟨hmoveLarger, hsame⟩ | ⟨failure, hfails, haverts⟩
  · have hlastLarger := mem_eval.mpr ⟨hreachLarger, hmoveLarger⟩
    obtain ⟨different, hdifferent⟩ := Machine.exists_ends_of_mem_eval hlastLarger
    obtain ⟨ended, hended, hverdictLarger, hpcLarger, hstepsLarger⟩ := hdifferent.exists_last
    obtain rfl := Part.mem_unique hended hlastLarger
    have htotal : Machine.verdict different = x.verdict (Machine.verdict outcome) := by
      rw [hverdictLarger, hsame, hverdict]
    refine .inl ⟨different, hdifferent, htotal, ?_⟩
    exact h.holds_absorb ((Session.follows_machine ready).ends h.loaded hends)
      ((Session.follows_machine larger).ends h.loaded_larger hdifferent)
      (congrArg Verdict.memory htotal) (hpcLarger.trans hpc.symm) (hstepsLarger.trans hsteps.symm)
  · rw [hfails] at hverdict
    exact .inr ⟨failure, congrArg Verdict.answer hverdict, congrArg Verdict.failure hverdict,
      haverts⟩

/-- At a command that fails in the smaller memory, single steps in the larger one have come to the
same place, and nothing has failed there. -/
theorem after_of_fails (h : x.Prepared code ready larger)
    (hreach : Reaches (Machine.move code) ready.machine last) (hrun : last.halted code = false)
    (failure : Failure) :
    (larger.after last.steps).engine.failure = none ∧
      x.Holds (ready.absorb (last.fail failure).1) (larger.after last.steps) := by
  have hreachLarger := x.reaches larger.journal h.safe hreach
  rw [← h.machine_eq] at hreachLarger
  have hsteps : larger.engine.steps = 0 :=
    (congrArg Machine.steps h.machine_eq).trans h.steps_eq
  obtain ⟨-, hfollows⟩ := Session.after_of_reaches h.loaded hreach hrun
  obtain ⟨hafter, hfollowsLarger⟩ := Session.after_of_reaches h.loaded_larger hreachLarger hrun
  have hclock : (x.machine larger.journal last).steps - larger.engine.steps = last.steps := by
    rw [hsteps]
    rfl
  rw [hclock] at hafter
  rw [hafter]
  exact ⟨(Machine.failure_of_reaches hreach).trans h.failure_eq,
    h.holds_absorb ⟨hfollows.input, hfollows.output⟩ hfollowsLarger rfl rfl rfl⟩

/-- The answer of a run in the larger memory is the answer in the smaller one, counted from further
to the left. -/
theorem finish_shift {different : Machine × Except Fault Unit}
    (hverdict : Machine.verdict different = x.verdict (Machine.verdict outcome))
    (hholds : x.Holds (ready.absorb outcome.1) (larger.absorb different.1)) :
    (larger.finish different).2 = (ready.finish outcome).2.map (.shift x.offset) := by
  have hanswer : different.2 = outcome.2 := congrArg Verdict.answer hverdict
  have hpointer : different.1.pointer = x.offset + outcome.1.pointer :=
    (congrArg (fun v ↦ v.memory.pointer) hverdict).trans (x.pointer_eq _)
  have hfailure : different.1.failure = outcome.1.failure.map (.shift x.offset) :=
    congrArg Verdict.failure hverdict
  have hpc : different.1.pc = outcome.1.pc := hholds.pc_eq
  have hsteps : different.1.steps = outcome.1.steps := hholds.steps_eq
  unfold Session.finish
  rw [hanswer]
  cases outcome.2 with
  | ok _ =>
    simp only [Except.map, Engine.result, RunResult.shift, Session.absorb, hpointer, hfailure, hpc,
      hsteps]
  | error fault => rfl

/-- A run in the smaller memory is answered alike in the larger one, unless a failure is averted
there. -/
theorem run (h : x.Prepared code ready larger)
    (hload : s.load listing input output = (ready, .ok (.ok code)))
    (hlarger : t.load listing taken given = (larger, .ok (.ok code))) {fuel : ℕ} {next : Session}
    {answer : Except Error RunResult}
    (hrun : s.run fuel listing input output = some (next, answer)) :
    (∃ bound last, t.run bound listing taken given = some (last, answer.map (.shift x.offset)) ∧
      x.Holds next last) ∨
    ∃ result failure, answer = .ok result ∧ result.failure = some failure ∧ x.averts failure := by
  obtain ⟨outcome, hends, rfl, rfl⟩ := Session.ends_of_run h.safe hload hrun
  rcases h.ends_cases hends with ⟨different, hdifferent, hverdict, hholds⟩ |
    ⟨failure, hanswer, hfailure, haverts⟩
  · obtain ⟨bound, hbound⟩ :=
      (Session.run_eq_some_iff_of_load h.safe_larger hlarger _).mpr ⟨different, hdifferent, rfl⟩
    refine .inl ⟨bound, (larger.finish different).1, ?_, hholds⟩
    rw [hbound, ← finish_shift hverdict hholds]
  · exact .inr ⟨_, failure, Session.finish_eq_ok_iff.mpr ⟨hanswer, rfl⟩, hfailure, haverts⟩

/-- A run that fails in the smaller memory is, in the larger one, after as many steps at the same
place, and has not failed there. -/
theorem after (h : x.Prepared code ready larger)
    (hload : s.load listing input output = (ready, .ok (.ok code))) {fuel : ℕ} {next : Session}
    {result : RunResult} {failure : Failure}
    (hrun : s.run fuel listing input output = some (next, .ok result))
    (hfailed : result.failure = some failure)
    (hkept : none ∉ ready.machine.input ∨ ∀ pointer, failure ≠ .inputExhausted pointer) :
    (larger.after result.steps).engine.failure = none ∧
      x.Holds next (larger.after result.steps) := by
  obtain ⟨last, c, hreach, hrunning, -, -, rfl, hsteps⟩ :=
    Session.exists_last_of_run h.safe h.failure_eq hload hrun hfailed hkept
  rw [hsteps]
  exact h.after_of_fails hreach hrunning failure

/-- A run that ends in the larger memory ends in the smaller one. -/
theorem exists_run (h : x.Prepared code ready larger)
    (hload : s.load listing input output = (ready, .ok (.ok code)))
    (hlarger : t.load listing taken given = (larger, .ok (.ok code)))
    (hrun : ∃ bound answer, t.run bound listing taken given = some answer) :
    ∃ fuel answer, s.run fuel listing input output = some answer := by
  rw [Session.exists_run_iff_of_load h.safe hload]
  rw [Session.exists_run_iff_of_load h.safe_larger hlarger] at hrun
  obtain ⟨different, hends⟩ := hrun
  obtain ⟨final, hfinal, -⟩ := hends.exists_last
  rw [h.machine_eq] at hfinal
  obtain ⟨last, hlast⟩ := x.exists_last larger.journal h.safe hfinal
  exact Machine.exists_ends_of_mem_eval hlast

end Prepared

end Session

end Embedding

end TapeMachine
