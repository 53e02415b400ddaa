import TapeMachine.Proofs.Mirroring
import TapeMachine.Proofs.Safety

/-!
Nothing leaks from one run into the next. A run begins with a load, and a load sets position, clock
and failure anew and connects the engine to the source and sink of its arguments. What is left of
earlier calls is the tape and the pointer, and these only if the settings keep them; the journal is
written and never read. So two sessions whose engines rewind to the same tape and pointer run every
accepted program alike (`runsAlike_of_rewind`).
-/

set_option autoImplicit false
set_option relaxedAutoImplicit false

namespace TapeMachine

open StateTransition

theorem Code.within_self (code : Code) : code.Within 0 code := by
  unfold Code.Within Program.size
  rw [Nat.zero_add, ← Array.length_toList, List.take_length, List.drop_zero]

/-! ### What is left for a run -/

namespace Engine

variable {e other : Engine}

theorem rewind_of_keepTape (h : e.config.keepTape = true) :
    e.rewind = { e with pc := 0, steps := 0, failure := none } := if_pos h

theorem rewind_of_not_keepTape (h : e.config.keepTape = false) : e.rewind = e.reset :=
  if_neg (by simp [h])

end Engine

/-- The same result at another position and by another clock. -/
def RunResult.relocate (place : ℤ → ℤ) (clock : ℕ → ℕ) (result : RunResult) : RunResult :=
  ⟨result.failure, place result.pc, result.pointer, clock result.steps⟩

namespace Session

variable {config settings : Config} {s t ready other : Session} {a b code : Code}
  {listing listed : Listing} {input taken : Input} {output given : Output}
  {outcome different : Machine × Except Fault Unit}

/-- A run of the session begins at the first cell of a clear tape of this size. -/
def BeginsFresh (s : Session) (size : ℕ) : Prop :=
  s.engine.rewind.tape = Tape.clear size ∧ s.engine.rewind.pointer = 0

theorem beginsFresh_new (config : Config) (devices : Devices) :
    (Session.new config devices).BeginsFresh config.tapeSize := by
  unfold BeginsFresh Engine.rewind
  split_ifs
  · exact ⟨rfl, rfl⟩
  · simp [Session.new, Engine.reset, Tape.clear]

/-- The memory with which a run begins. -/
theorem start_memory (s : Session) (code : Code) (devices : Devices) (source : Source)
    (output : Output) :
    (s.start code devices source output).machine.memory =
      ⟨s.engine.rewind.tape, s.engine.rewind.pointer, devices.pending source,
        ((devices.openSink output).1.received (devices.openSink output).2.drain).bytes⟩ := by
  cases output <;> rfl

/-- Two sessions that are ready to run with the same memory, one of them code that begins with the
code of the other, run side by side. -/
theorem shadows_of_load (hs : s.engine.Sound config) (ht : t.engine.Sound settings)
    (hload : s.load listing input output = (ready, .ok (.ok a)))
    (hother : t.load listed taken given = (other, .ok (.ok b)))
    (hmemory : other.machine.memory = ready.machine.memory) :
    Machine.Shadows a 0 b 0 ready.machine other.machine := by
  obtain ⟨hpc, hsteps, hfailure⟩ := registers_of_load hload
  obtain ⟨hpcOther, hstepsOther, hfailureOther⟩ := registers_of_load hother
  refine ⟨(safe_of_load hs hload).2, (safe_of_load ht hother).2,
    ⟨hmemory, hfailure, hfailureOther⟩, ?_, ?_⟩
  · change other.engine.pc = 0 + ready.engine.pc
    omega
  · change other.engine.steps = 0 + ready.engine.steps
    omega

/-- A run that ends with the verdict of another one, elsewhere and by another clock, gives back the
same but for position and clock. -/
theorem finish_relocate (ready other : Session) (place : ℤ → ℤ) (clock : ℕ → ℕ)
    (h : Machine.verdict outcome = Machine.verdict different)
    (hpc : different.1.pc = place outcome.1.pc)
    (hsteps : different.1.steps = clock outcome.1.steps) :
    (other.finish different).2 = (ready.finish outcome).2.map (RunResult.relocate place clock) := by
  have hpointer : different.1.pointer = outcome.1.pointer :=
    congrArg (fun verdict ↦ verdict.memory.pointer) h.symm
  have hfailure : different.1.failure = outcome.1.failure := congrArg Verdict.failure h.symm
  have hanswer : different.2 = outcome.2 := congrArg Verdict.answer h.symm
  unfold finish
  rw [hanswer]
  cases outcome.2 with
  | ok _ =>
    simp [Except.map, Engine.result, RunResult.relocate, absorb, hpointer, hfailure, hpc, hsteps]
  | error fault => rfl

theorem finish_congr (h : Machine.verdict outcome = Machine.verdict different)
    (hpc : different.1.pc = outcome.1.pc) (hsteps : different.1.steps = outcome.1.steps) :
    (ready.finish outcome).2 = (other.finish different).2 := by
  rw [finish_relocate ready other id id h hpc hsteps]
  cases (ready.finish outcome).2 with
  | ok result => rfl
  | error cause => rfl

theorem finish_eq_ok_iff {result : RunResult} : (ready.finish outcome).2 = .ok result ↔
    outcome.2 = .ok () ∧ (ready.finish outcome).1.engine.result = result := by
  unfold finish
  cases outcome.2 with
  | ok _ => simp
  | error fault => simp

/-- The sessions have come to the same end, wherever in their code and by whatever clock: with the
same failure, pointer and tape, and with the same left in all sources and sinks. -/
structure SameEnd (s t : Session) : Prop where
  failure_eq : t.engine.failure = s.engine.failure
  pointer_eq : t.engine.pointer = s.engine.pointer
  tape_eq : t.engine.tape = s.engine.tape
  devices_eq : t.devices = s.devices

theorem sameEnd_finish (h : Machine.verdict outcome = Machine.verdict different)
    (hdevices : (other.finish different).1.devices = (ready.finish outcome).1.devices) :
    SameEnd (ready.finish outcome).1 (other.finish different).1 where
  failure_eq := congrArg Verdict.failure h.symm
  pointer_eq := congrArg (fun verdict ↦ verdict.memory.pointer) h.symm
  tape_eq := congrArg (fun verdict ↦ verdict.memory.tape) h.symm
  devices_eq := hdevices

/-- Runs that end with the same verdict leave the same in the devices. -/
theorem devices_finish (ready other : Session) (hdevices : other.devices = ready.devices)
    (hsource : other.engine.source = ready.engine.source)
    (hsink : other.engine.sink = ready.engine.sink)
    (h : Machine.verdict outcome = Machine.verdict different) :
    (other.finish different).1.devices = (ready.finish outcome).1.devices := by
  have hinput : different.1.input = outcome.1.input :=
    congrArg (fun verdict ↦ verdict.memory.input) h.symm
  have houtput : different.1.output = outcome.1.output :=
    congrArg (fun verdict ↦ verdict.memory.output) h.symm
  simp only [finish, absorb, hdevices, hsource, hsink, hinput, houtput]

/-! ### Runs from two sessions -/

/-- What the sink of the engine has received. -/
def written (s : Session) : Array UInt8 := (s.devices.received s.engine.sink.drain).bytes

theorem written_finish (hdrain : ready.engine.sink.drain < ready.devices.drains.size) :
    (ready.finish outcome).1.written = outcome.1.output := by
  have hbefore : ready.engine.sink.drain <
      (ready.devices.setPending ready.engine.source outcome.1.input).drains.size := hdrain
  exact Devices.bytes_received_setWritten hbefore outcome.1.output

/-- The input of a run delivers these answers, and its output is a sink that has received
nothing. -/
def Offers (s : Session) (input : Input) (output : Output) (feed : Feed) : Prop :=
  ∃ devices source, s.devices.openSource input = .ok (devices, source) ∧
    devices.pending source = feed ∧
    (devices.openSink output).2.drain < (devices.openSink output).1.drains.size ∧
    ((devices.openSink output).1.received (devices.openSink output).2.drain).bytes = #[]

/-- Bytes and a new buffer can be offered to any session. -/
theorem offers_bytes (s : Session) (data : List UInt8) :
    s.Offers (.bytes data) .none (.ofBytes data) := by
  refine ⟨_, _, rfl, ?_, ?_, ?_⟩
  · simp [Devices.pending]
  · simp [Devices.openSink, Devices.addDrain]
  · simp [Devices.openSink, Devices.addDrain, Devices.received]

/-- The two sessions run the program alike: where both are offered the same answers to read and a
sink that has received nothing, one run comes to an end exactly if the other does, and then they
give the same result, leave the same tape and have written the same bytes. -/
def RunsAlike (first second : Session) (listing : Listing) : Prop :=
  ∀ (feed : Feed) (input taken : Input) (output given : Output),
    first.Offers input output feed → second.Offers taken given feed →
    ((∃ fuel outcome, first.run fuel listing input output = some outcome) ↔
      ∃ fuel outcome, second.run fuel listing taken given = some outcome) ∧
    ∀ fuel bound next last answer result,
      first.run fuel listing input output = some (next, answer) →
      second.run bound listing taken given = some (last, result) →
      answer = result ∧ next.engine.tape = last.engine.tape ∧ next.written = last.written

/-- Nothing but the tape and pointer to which the engine rewinds has an influence on a run. -/
theorem runsAlike_of_rewind (code : Code) (hs : s.engine.Sound config)
    (ht : t.engine.Sound config) (hlisting : listing.toProgram = .ok code.program)
    (hbuild : BracketIndex.build code.program = .ok code.index)
    (htape : s.engine.rewind.tape = t.engine.rewind.tape)
    (hpointer : s.engine.rewind.pointer = t.engine.rewind.pointer) : s.RunsAlike t listing := by
  rintro feed input taken output given ⟨devices, source, hopened, hpending, hdrain, hfresh⟩
    ⟨devices', source', hopened', hpending', hdrain', hfresh'⟩
  have hload := load_eq_start code hlisting hbuild hopened output
  have hload' := load_eq_start code hlisting hbuild hopened' given
  have hshadows := shadows_of_load hs ht hload hload' (by
    rw [start_memory, start_memory, htape, hpointer, hpending, hpending', hfresh, hfresh'])
  have hsimulates := Machine.simulates_shadows code.within_self (Nat.zero_add _).symm 0
  constructor
  · rw [exists_run_iff_of_load hshadows.safe hload,
      exists_run_iff_of_load hshadows.safe_whole hload']
    exact hsimulates.ends_iff hshadows .refl
  · intro fuel bound next last answer result hrun hrun'
    obtain ⟨outcome, hends, rfl, rfl⟩ := ends_of_run hshadows.safe hload hrun
    obtain ⟨different, hends', rfl, rfl⟩ := ends_of_run hshadows.safe_whole hload' hrun'
    obtain ⟨hverdict, ended, ended', hrelated, hpc, hsteps, hpc', hsteps'⟩ :=
      hsimulates.outcomes hshadows .refl hends hends'
    have hpcs := hrelated.pc_eq
    have hclocks := hrelated.steps_eq
    have hmemory := congrArg Verdict.memory hverdict
    refine ⟨finish_congr hverdict (by omega) (by omega), congrArg Memory.tape hmemory, ?_⟩
    rw [written_finish hdrain, written_finish hdrain']
    exact congrArg Memory.output hmemory

/-- Nothing leaks between runs. If the settings do not keep the tape, all reachable sessions run an
accepted program alike, and like a new one. If they keep it, this is so for sessions with the same
tape and pointer, whatever else has happened to them. -/
theorem runs_leak_nothing {config : Config} {listing : Listing} {program : Program}
    {index : BracketIndex} (hlisting : listing.toProgram = .ok program)
    (hbuild : BracketIndex.build program = .ok index) :
    (config.keepTape = false → ∀ s, Reachable config s →
      (∀ t, Reachable config t → s.RunsAlike t listing) ∧
      ∀ devices, s.RunsAlike (Session.new config devices) listing) ∧
    (config.keepTape = true → ∀ s t, Reachable config s → Reachable config t →
      s.engine.tape = t.engine.tape → s.engine.pointer = t.engine.pointer →
      s.RunsAlike t listing) := by
  have halike {s t : Session} (hs : Reachable config s) (ht : Reachable config t)
      (htape : s.engine.rewind.tape = t.engine.rewind.tape)
      (hpointer : s.engine.rewind.pointer = t.engine.rewind.pointer) : s.RunsAlike t listing :=
    runsAlike_of_rewind ⟨program, index⟩ hs.sound ht.sound hlisting hbuild htape hpointer
  constructor
  · intro hkeep s hs
    have hall (t : Session) (ht : Reachable config t) : s.RunsAlike t listing := by
      have hrewind := Engine.rewind_of_not_keepTape (hs.sound.config_eq ▸ hkeep)
      have hrewind' := Engine.rewind_of_not_keepTape (ht.sound.config_eq ▸ hkeep)
      apply halike hs ht
      · rw [hrewind, hrewind']
        simp only [Engine.reset, hs.sound.size_tape, ht.sound.size_tape]
      · rw [hrewind, hrewind']
        rfl
    exact ⟨hall, fun devices ↦ hall _ (.new devices)⟩
  · intro hkeep s t hs ht htape hpointer
    have hrewind := Engine.rewind_of_keepTape (hs.sound.config_eq ▸ hkeep)
    have hrewind' := Engine.rewind_of_keepTape (ht.sound.config_eq ▸ hkeep)
    apply halike hs ht
    · rw [hrewind, hrewind']
      exact htape
    · rw [hrewind, hrewind']
      exact hpointer

/-- A session that has failed in the middle of a run and turned a program away afterwards runs
`,[.-]` like a new one: it writes the bytes 2 and 1 if it is given a 2. Where the tape is kept, it
is enough that the tapes and pointers are equal. -/
theorem runs_leak_nothing_after_failures :
    let clearing : Config := ⟨2, by decide, false, true⟩
    let keeping : Config := ⟨2, by decide, true, true⟩
    let listing : Listing := .given (.text ",[.-]")
    (∃ used fuel next, Reachable clearing used ∧ used.engine.tape = #[0, 1] ∧
      used.engine.failure = some (.unclosedOpens [0]) ∧
      used.run fuel listing (.bytes [2]) .none = some (next, .ok ⟨none, 5, 0, 8⟩) ∧
      next.written = #[2, 1]) ∧
    ∃ s t, Reachable keeping s ∧ Reachable keeping t ∧ s.engine.tape = #[1, 0] ∧
      s.engine.steps ≠ t.engine.steps ∧ s.RunsAlike t listing := by
  intro clearing keeping listing
  have hlisting : listing.toProgram = .ok (Program.ofText ",[.-]") := rfl
  have hbuild : BracketIndex.build (Program.ofText ",[.-]") =
      .ok ⟨#[none, some 4, none, none, some 1]⟩ := by decide +kernel
  constructor
  · let failed := ((Session.new clearing .empty).perform 9
      (.run (.given (.text ">+>")) .none .none)).get (by decide +kernel)
    have hfailed : Reachable clearing failed.1 :=
      .call (.new .empty) ⟨9, (Option.some_get _).symm⟩
    have hused := hfailed.call (performs_load failed.1 (.given (.text "[")) .none .none)
    let fresh := ((Session.new clearing .empty).run 30 listing (.bytes [2]) .none).get
      (by decide +kernel)
    have hfresh : (Session.new clearing .empty).run 30 listing (.bytes [2]) .none =
        some (fresh.1, .ok ⟨none, 5, 0, 8⟩) := by decide +kernel
    have hwritten : fresh.1.written = #[2, 1] := by decide +kernel
    obtain ⟨hends, halike⟩ := ((runs_leak_nothing hlisting hbuild).1 rfl _ hused).2 .empty _ _ _ _ _
      (offers_bytes _ [2]) (offers_bytes _ [2])
    obtain ⟨fuel, ⟨next, answer⟩, hnext⟩ := hends.mpr ⟨30, _, hfresh⟩
    obtain ⟨rfl, -, hsame⟩ := halike fuel 30 next _ answer _ hnext hfresh
    exact ⟨_, fuel, next, hused, by decide +kernel, by decide +kernel, hnext,
      hsame.trans hwritten⟩
  · let one := ((Session.new keeping .empty).perform 9
      (.run (.given (.text "+")) .none .none)).get (by decide +kernel)
    let two := ((Session.new keeping .empty).perform 9
      (.run (.given (.text "++-")) (.bytes [5]) .none)).get (by decide +kernel)
    have hone : Reachable keeping one.1 := .call (.new .empty) ⟨9, (Option.some_get _).symm⟩
    have htwo : Reachable keeping two.1 := .call (.new .empty) ⟨9, (Option.some_get _).symm⟩
    exact ⟨one.1, two.1, hone, htwo, by decide +kernel, by decide +kernel,
      (runs_leak_nothing hlisting hbuild).2 rfl _ _ hone htwo (by decide +kernel)
        (by decide +kernel)⟩

end Session

end TapeMachine
