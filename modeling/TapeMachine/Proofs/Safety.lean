import TapeMachine.Engine
import TapeMachine.Proofs.Sweeping

/-!
Safety of the engine. Calls on an engine are loads, runs, single steps and resets, in any order and
with any arguments (`Call`, `Session.Performs`); the sessions they lead to from a new one are the
reachable ones (`Session.Reachable`).

The invariant is `Engine.Sound`: the tape has its length, the pointer is on it, and code that is
loaded carries the index of its own program with a position inside it. Every call keeps it, also one
that is turned away, fails or is cut short (`Sound.load`, `Sound.step`, `Sound.run`, `Sound.reset`).
The machine that runs for a sound engine is safe (`Sound.safe`), so the only fault of a step is an
input value that is no byte, and no unchecked array access of a sweep is out of range.
-/

set_option autoImplicit false
set_option relaxedAutoImplicit false

namespace TapeMachine

/-! ### Calls -/

/-- A call on an engine. -/
inductive Call where
  | load (listing : Listing) (input : Input) (output : Output)
  | run (listing : Listing) (input : Input) (output : Output)
  | step
  | reset

/-- What a call gives back, or why it was cut short. -/
inductive Answer where
  | loaded (result : Except Error (Except Failure Code))
  | ran (result : Except Error RunResult)
  | stepped (result : Except Error Bool)
  | done

namespace Session

/-- Carries out a call. A run has no answer if `fuel` does not suffice. -/
def perform (fuel : ℕ) (s : Session) : Call → Option (Session × Answer)
  | .load listing input output =>
    let (s, result) := s.load listing input output
    some (s, .loaded result)
  | .run listing input output =>
    match s.run fuel listing input output with
    | none => none
    | some (s, result) => some (s, .ran result)
  | .step =>
    let (s, result) := s.step
    some (s, .stepped result)
  | .reset => some (s.reset, .done)

/-- The call comes to an end, with this answer, and leaves this session. -/
def Performs (s : Session) (call : Call) (next : Session) (answer : Answer) : Prop :=
  ∃ fuel, s.perform fuel call = some (next, answer)

theorem performs_load (s : Session) (listing : Listing) (input : Input) (output : Output) :
    s.Performs (.load listing input output) (s.load listing input output).1
      (.loaded (s.load listing input output).2) := ⟨0, rfl⟩

theorem performs_step (s : Session) : s.Performs .step s.step.1 (.stepped s.step.2) := ⟨0, rfl⟩

/-- The sessions that calls lead to from a new one with the given settings, whatever sources and
sinks there are. -/
inductive Reachable (config : Config) : Session → Prop
  | new (devices : Devices) : Reachable config (Session.new config devices)
  | call {s next : Session} {call : Call} {answer : Answer} (before : Reachable config s)
      (performs : s.Performs call next answer) : Reachable config next

end Session

/-! ### How loads and runs end -/

theorem Code.compile_eq_ok_iff {program : Program} {code : Code} :
    Code.compile program = .ok code ↔
      code.program = program ∧ BracketIndex.build program = .ok code.index := by
  unfold Code.compile
  cases BracketIndex.build program with
  | error failure => simp [bind, Except.bind]
  | ok index =>
    obtain ⟨codeProgram, codeIndex⟩ := code
    simp [bind, Except.bind, pure, Except.pure, eq_comm]

theorem Engine.rewind_registers (e : Engine) :
    e.rewind.pc = 0 ∧ e.rewind.steps = 0 ∧ e.rewind.failure = none := by
  unfold Engine.rewind
  split_ifs
  · exact ⟨rfl, rfl, rfl⟩
  · exact ⟨rfl, rfl, rfl⟩

namespace Session

/-- The session right after code has been loaded and connected. -/
def start (s : Session) (code : Code) (devices : Devices) (source : Source) (output : Output) :
    Session :=
  let (devices, sink) := devices.openSink output
  let engine := { (s.install code).engine with source := source, sink := sink }
  Session.note { s with engine := engine, devices := devices }
    [.loaded code.program.size code.index.size]

/-- How a load can end: the argument is no program, the program is turned away, its input cannot be
opened, or it is ready to run. -/
theorem load_cases (s : Session) (listing : Listing) (input : Input) (output : Output) :
    (∃ cause, listing.toProgram = .error cause ∧
      s.load listing input output = (s, .error (.program cause))) ∨
    (∃ program failure, listing.toProgram = .ok program ∧
      BracketIndex.build program = .error failure ∧
      s.load listing input output = (s.reject failure, .ok (.error failure))) ∨
    (∃ code cause, listing.toProgram = .ok code.program ∧
      BracketIndex.build code.program = .ok code.index ∧
      s.devices.openSource input = .error cause ∧
      s.load listing input output = (s.install code, .error (.source cause))) ∨
    (∃ code devices source, listing.toProgram = .ok code.program ∧
      BracketIndex.build code.program = .ok code.index ∧
      s.devices.openSource input = .ok (devices, source) ∧
      s.load listing input output = (s.start code devices source output, .ok (.ok code))) := by
  unfold load
  cases hprogram : listing.toProgram with
  | error cause => exact .inl ⟨cause, rfl, rfl⟩
  | ok program =>
    dsimp only
    cases hindex : BracketIndex.build program with
    | error failure =>
      have hcompile : Code.compile program = .error failure := by
        unfold Code.compile
        rw [hindex]
        rfl
      rw [hcompile]
      exact .inr (.inl ⟨program, failure, rfl, hindex, rfl⟩)
    | ok index =>
      have hcompile : Code.compile program = .ok ⟨program, index⟩ :=
        Code.compile_eq_ok_iff.mpr ⟨rfl, hindex⟩
      rw [hcompile]
      dsimp only [connect]
      have hdevices : (s.install ⟨program, index⟩).devices = s.devices := rfl
      rw [hdevices]
      cases hsource : s.devices.openSource input with
      | error cause =>
        exact .inr (.inr (.inl ⟨⟨program, index⟩, cause, rfl, hindex, rfl, rfl⟩))
      | ok opened =>
        obtain ⟨devices, source⟩ := opened
        exact .inr (.inr (.inr ⟨⟨program, index⟩, devices, source, rfl, hindex, rfl, rfl⟩))

/-- An accepted program whose input can be opened is ready to run. -/
theorem load_eq_start {s : Session} (code : Code) {listing : Listing} {input : Input}
    {devices : Devices} {source : Source} (hlisting : listing.toProgram = .ok code.program)
    (hbuild : BracketIndex.build code.program = .ok code.index)
    (hopened : s.devices.openSource input = .ok (devices, source)) (output : Output) :
    s.load listing input output = (s.start code devices source output, .ok (.ok code)) := by
  have hdevices : (s.install code).devices = s.devices := rfl
  simp only [load, hlisting, Code.compile_eq_ok_iff.mpr ⟨rfl, hbuild⟩, connect, hdevices, hopened]
  rfl

/-- An accepted program whose input cannot be opened is installed, but not run. -/
theorem load_eq_install {s : Session} (code : Code) {listing : Listing} {input : Input}
    {cause : SourceError} (hlisting : listing.toProgram = .ok code.program)
    (hbuild : BracketIndex.build code.program = .ok code.index)
    (hopened : s.devices.openSource input = .error cause) (output : Output) :
    s.load listing input output = (s.install code, .error (.source cause)) := by
  have hdevices : (s.install code).devices = s.devices := rfl
  simp only [load, hlisting, Code.compile_eq_ok_iff.mpr ⟨rfl, hbuild⟩, connect, hdevices, hopened]

theorem run_eq_install {s : Session} (code : Code) {listing : Listing} {input : Input}
    {cause : SourceError} (hlisting : listing.toProgram = .ok code.program)
    (hbuild : BracketIndex.build code.program = .ok code.index)
    (hopened : s.devices.openSource input = .error cause) (output : Output) (fuel : ℕ) :
    s.run fuel listing input output = some (s.install code, .error (.source cause)) := by
  simp only [run, load_eq_install code hlisting hbuild hopened output]

/-- A load that has succeeded is ready to run the code. -/
theorem start_of_load {s ready : Session} {code : Code} {listing : Listing} {input : Input}
    {output : Output} (hload : s.load listing input output = (ready, .ok (.ok code))) :
    ∃ devices source, s.devices.openSource input = .ok (devices, source) ∧
      BracketIndex.build code.program = .ok code.index ∧
      ready = s.start code devices source output := by
  rcases s.load_cases listing input output with ⟨cause, -, heq⟩ | ⟨program, failure, -, -, heq⟩ |
    ⟨other, cause, -, -, -, heq⟩ | ⟨other, devices, source, -, hbuild, hopened, heq⟩
  · rw [heq] at hload
    cases hload
  · rw [heq] at hload
    cases hload
  · rw [heq] at hload
    cases hload
  · rw [heq] at hload
    cases hload
    exact ⟨devices, source, hopened, hbuild, rfl⟩

/-- Loaded code stands at its start, with no step taken and no failure. -/
theorem registers_of_load {s ready : Session} {code : Code} {listing : Listing} {input : Input}
    {output : Output} (hload : s.load listing input output = (ready, .ok (.ok code))) :
    ready.engine.pc = 0 ∧ ready.engine.steps = 0 ∧ ready.engine.failure = none := by
  obtain ⟨devices, source, -, -, rfl⟩ := start_of_load hload
  exact s.engine.rewind_registers

/-- What a run gives back when its machine has come to an end. -/
def finish (s : Session) (outcome : Machine × Except Fault Unit) :
    Session × Except Error RunResult :=
  (s.absorb outcome.1,
    match outcome.2 with
    | .ok () => .ok (s.absorb outcome.1).engine.result
    | .error fault => .error (.fault fault))

end Session

/-! ### The invariant -/

/-- An engine with the given settings is sound: its tape has the length that was asked for, its
pointer is on the tape, and code that is loaded has its position in the program or right behind it
and the index of its own program. -/
structure Engine.Sound (config : Config) (e : Engine) : Prop where
  config_eq : e.config = config
  size_tape : e.tape.size = config.tapeSize
  pointer_nonneg : 0 ≤ e.pointer
  pointer_lt : e.pointer < e.tape.size
  pc_nonneg : ∀ code, e.loaded = some code → 0 ≤ e.pc
  pc_le : ∀ code, e.loaded = some code → e.pc ≤ code.program.size
  built : ∀ code, e.loaded = some code → BracketIndex.build code.program = .ok code.index

namespace Engine.Sound

variable {config : Config} {s : Session}

/-- The machine that runs for a sound engine is safe. -/
theorem safe (h : s.engine.Sound config) {code : Code} (hcode : s.engine.loaded = some code) :
    s.machine.Safe code :=
  ⟨h.built code hcode, ⟨h.pointer_nonneg, h.pointer_lt⟩, h.pc_nonneg code hcode, h.pc_le code hcode⟩

/-- What a safe machine leaves behind is sound. -/
theorem absorb (h : s.engine.Sound config) {code : Code} (hcode : s.engine.loaded = some code)
    {m : Machine} (hm : m.Safe code) (hsize : m.tape.size = s.engine.tape.size) :
    (s.absorb m).engine.Sound config where
  config_eq := h.config_eq
  size_tape := hsize.trans h.size_tape
  pointer_nonneg := hm.inRange.1
  pointer_lt := hm.inRange.2
  pc_nonneg := fun _ _ ↦ hm.pc_nonneg
  pc_le := by
    intro other hother
    have heq : s.engine.loaded = some other := hother
    rw [hcode] at heq
    cases heq
    exact hm.pc_le
  built := h.built

/-- Without code there is only the tape and the pointer to be sound. -/
theorem of_not_loaded {e : Engine} (hloaded : e.loaded = none) (hconfig : e.config = config)
    (hsize : e.tape.size = config.tapeSize) (hnonneg : 0 ≤ e.pointer)
    (hlt : e.pointer < e.tape.size) : e.Sound config := by
  refine ⟨hconfig, hsize, hnonneg, hlt, ?_, ?_, ?_⟩
  · intro code hcode
    simp [hloaded] at hcode
  · intro code hcode
    simp [hloaded] at hcode
  · intro code hcode
    simp [hloaded] at hcode

theorem new (config : Config) (devices : Devices) :
    (Session.new config devices).engine.Sound config := by
  have hsize : (Session.new config devices).engine.tape.size = config.tapeSize :=
    Array.size_replicate
  have hpos := config.tapeSize_pos
  refine of_not_loaded rfl rfl hsize (Int.le_refl 0) ?_
  change (0 : ℤ) < _
  omega

theorem reset (h : s.engine.Sound config) : s.reset.engine.Sound config where
  config_eq := h.config_eq
  size_tape := Array.size_replicate.trans h.size_tape
  pointer_nonneg := Int.le_refl 0
  pointer_lt := by
    have hsize : s.reset.engine.tape.size = s.engine.tape.size := Array.size_replicate
    have hnonneg := h.pointer_nonneg
    have hlt := h.pointer_lt
    change (0 : ℤ) < _
    omega
  pc_nonneg := fun _ _ ↦ Int.le_refl 0
  pc_le := fun code _ ↦ Int.natCast_nonneg code.program.size
  built := h.built

/-- Turning a program away leaves no code to be unsound. -/
theorem reject (h : s.engine.Sound config) (failure : Failure) :
    (s.reject failure).engine.Sound config :=
  of_not_loaded rfl h.config_eq h.size_tape h.pointer_nonneg h.pointer_lt

/-- Returning to the start keeps the length of the tape and keeps the pointer on it. -/
theorem rewind (h : s.engine.Sound config) :
    s.engine.rewind.config = config ∧ s.engine.rewind.tape.size = config.tapeSize ∧
      0 ≤ s.engine.rewind.pointer ∧ s.engine.rewind.pointer < s.engine.rewind.tape.size ∧
      s.engine.rewind.pc = 0 := by
  unfold Engine.rewind
  split_ifs
  · exact ⟨h.config_eq, h.size_tape, h.pointer_nonneg, h.pointer_lt, rfl⟩
  · exact ⟨h.reset.config_eq, h.reset.size_tape, h.reset.pointer_nonneg, h.reset.pointer_lt, rfl⟩

theorem install (h : s.engine.Sound config) {code : Code}
    (hcode : BracketIndex.build code.program = .ok code.index) :
    (s.install code).engine.Sound config := by
  obtain ⟨hconfig, hsize, hnonneg, hlt, hpc⟩ := h.rewind
  refine ⟨hconfig, hsize, hnonneg, hlt, ?_, ?_, ?_⟩
  · intro other _
    change 0 ≤ s.engine.rewind.pc
    omega
  · intro other _
    change s.engine.rewind.pc ≤ _
    omega
  · intro other hother
    cases hother
    exact hcode

theorem start (h : s.engine.Sound config) {code : Code}
    (hcode : BracketIndex.build code.program = .ok code.index) (devices : Devices)
    (source : Source) (output : Output) :
    (s.start code devices source output).engine.Sound config := by
  have hinstall := h.install hcode
  exact ⟨hinstall.config_eq, hinstall.size_tape, hinstall.pointer_nonneg, hinstall.pointer_lt,
    hinstall.pc_nonneg, hinstall.pc_le, hinstall.built⟩

/-- A load keeps the engine sound, however it ends. -/
theorem load (h : s.engine.Sound config) (listing : Listing) (input : Input) (output : Output) :
    (s.load listing input output).1.engine.Sound config := by
  rcases s.load_cases listing input output with ⟨cause, -, heq⟩ | ⟨program, failure, -, -, heq⟩ |
    ⟨code, cause, -, hcode, -, heq⟩ | ⟨code, devices, source, -, hcode, -, heq⟩
  · rw [heq]
    exact h
  · rw [heq]
    exact h.reject failure
  · rw [heq]
    exact h.install hcode
  · rw [heq]
    exact h.start hcode devices source output

/-- A step keeps the engine sound, whatever it answers. -/
theorem step (h : s.engine.Sound config) : s.step.1.engine.Sound config := by
  unfold Session.step
  cases hcode : s.engine.loaded with
  | none => exact h
  | some code =>
    obtain ⟨hsafe, hsize⟩ := (h.safe hcode).step
    dsimp only
    cases hstep : s.machine.step code with
    | mk m answer =>
      rw [hstep] at hsafe hsize
      cases answer with
      | ok goesOn => exact h.absorb hcode hsafe hsize
      | error fault => exact h.absorb hcode hsafe hsize

end Engine.Sound

namespace Session

variable {config : Config} {s : Session}

theorem run_of_load {ready : Session} {code : Code} {listing : Listing} {input : Input}
    {output : Output} (hload : s.load listing input output = (ready, .ok (.ok code))) (fuel : ℕ) :
    s.run fuel listing input output =
      (ready.machine.run ready.engine.config.quick code fuel).map ready.finish := by
  unfold run
  rw [hload]
  dsimp only
  cases ready.machine.run ready.engine.config.quick code fuel with
  | none => rfl
  | some outcome =>
    obtain ⟨m, result⟩ := outcome
    cases result <;> rfl

/-- A run of code that has been loaded comes to an end exactly if its machine does. -/
theorem run_eq_some_iff_of_load {ready : Session} {code : Code} {listing : Listing} {input : Input}
    {output : Output} (hsafe : ready.machine.Safe code)
    (hload : s.load listing input output = (ready, .ok (.ok code)))
    (answer : Session × Except Error RunResult) :
    (∃ fuel, s.run fuel listing input output = some answer) ↔
      ∃ outcome, ready.machine.Ends code outcome ∧ answer = ready.finish outcome := by
  constructor
  · rintro ⟨fuel, hrun⟩
    rw [run_of_load hload, Option.map_eq_some_iff] at hrun
    obtain ⟨outcome, houtcome, rfl⟩ := hrun
    exact ⟨outcome, (hsafe.run_eq_some_iff _).mp ⟨fuel, houtcome⟩, rfl⟩
  · rintro ⟨outcome, hends, rfl⟩
    obtain ⟨fuel, hfuel⟩ := (hsafe.run_eq_some_iff ready.engine.config.quick).mpr hends
    exact ⟨fuel, by rw [run_of_load hload, hfuel, Option.map_some]⟩

/-- A run of loaded code that has come to an end gives back the end of its machine. -/
theorem ends_of_run {ready next : Session} {code : Code} {listing : Listing} {input : Input}
    {output : Output} {answer : Except Error RunResult} {fuel : ℕ}
    (hsafe : ready.machine.Safe code)
    (hload : s.load listing input output = (ready, .ok (.ok code)))
    (hrun : s.run fuel listing input output = some (next, answer)) :
    ∃ outcome, ready.machine.Ends code outcome ∧ next = (ready.finish outcome).1 ∧
      answer = (ready.finish outcome).2 := by
  obtain ⟨outcome, hends, hfinish⟩ := (run_eq_some_iff_of_load hsafe hload _).mp ⟨fuel, hrun⟩
  exact ⟨outcome, hends, congrArg Prod.fst hfinish, congrArg Prod.snd hfinish⟩

theorem exists_run_iff_of_load {ready : Session} {code : Code} {listing : Listing} {input : Input}
    {output : Output} (hsafe : ready.machine.Safe code)
    (hload : s.load listing input output = (ready, .ok (.ok code))) :
    (∃ fuel answer, s.run fuel listing input output = some answer) ↔
      ∃ outcome, ready.machine.Ends code outcome := by
  rw [exists_comm]
  simp only [run_eq_some_iff_of_load hsafe hload]
  constructor
  · rintro ⟨-, outcome, hends, -⟩
    exact ⟨outcome, hends⟩
  · rintro ⟨outcome, hends⟩
    exact ⟨_, outcome, hends, rfl⟩

/-- What is ready to run after a load is the code that was loaded, in a safe machine. -/
theorem safe_of_load (h : s.engine.Sound config) {ready : Session} {code : Code}
    {listing : Listing} {input : Input} {output : Output}
    (hload : s.load listing input output = (ready, .ok (.ok code))) :
    ready.engine.loaded = some code ∧ ready.machine.Safe code := by
  obtain ⟨devices, source, -, hbuild, rfl⟩ := start_of_load hload
  exact ⟨rfl, (h.start hbuild devices source output).safe rfl⟩

/-- A run comes to an end with its load, whatever the fuel, or it has code to carry out. -/
theorem run_cases (s : Session) (listing : Listing) (input : Input) (output : Output) :
    (∃ answer, answer.1 = (s.load listing input output).1 ∧
      ∀ fuel, s.run fuel listing input output = some answer) ∨
    ∃ ready code, s.load listing input output = (ready, .ok (.ok code)) := by
  cases hload : s.load listing input output with
  | mk ready loaded =>
    cases loaded with
    | error cause =>
      exact .inl ⟨(ready, .error cause), rfl, fun fuel ↦ by simp only [run, hload]⟩
    | ok answer =>
      cases answer with
      | error failure =>
        exact .inl ⟨(ready, .ok ⟨some failure, 0, ready.engine.pointer, 0⟩), rfl,
          fun fuel ↦ by simp only [run, hload]⟩
      | ok code => exact .inr ⟨ready, code, rfl⟩

end Session

namespace Engine.Sound

variable {config : Config} {s next : Session}

/-- A run keeps the engine sound, however it ends. -/
theorem run (h : s.engine.Sound config) {fuel : ℕ} {listing : Listing} {input : Input}
    {output : Output} {result : Except Error RunResult}
    (hrun : s.run fuel listing input output = some (next, result)) :
    next.engine.Sound config := by
  have hload := h.load listing input output
  rcases s.run_cases listing input output with ⟨answer, hanswer, hends⟩ | ⟨ready, code, heq⟩
  · obtain rfl := Option.some.inj ((hends fuel).symm.trans hrun)
    rw [← hanswer] at hload
    exact hload
  · rw [heq] at hload
    obtain ⟨hloaded, hsafe⟩ := Session.safe_of_load h heq
    obtain ⟨outcome, hends, hfinish⟩ :=
      (Session.run_eq_some_iff_of_load hsafe heq _).mp ⟨fuel, hrun⟩
    obtain ⟨hlast, hsize⟩ := hsafe.ends hends
    rw [(Prod.mk.inj hfinish).1]
    exact hload.absorb hloaded hlast hsize

/-- Every call keeps the engine sound. -/
theorem performs (h : s.engine.Sound config) {call : Call} {answer : Answer}
    (hcall : s.Performs call next answer) : next.engine.Sound config := by
  obtain ⟨fuel, hperform⟩ := hcall
  cases call with
  | load listing input output =>
    cases hperform
    exact h.load listing input output
  | run listing input output =>
    cases hrun : s.run fuel listing input output with
    | none =>
      simp only [Session.perform, hrun] at hperform
      cases hperform
    | some result =>
      simp only [Session.perform, hrun] at hperform
      cases hperform
      exact h.run hrun
  | step =>
    cases hperform
    exact h.step
  | reset =>
    cases hperform
    exact h.reset

end Engine.Sound

namespace Session

/-- Every reachable session has a sound engine. -/
theorem Reachable.sound {config : Config} {s : Session} (h : Reachable config s) :
    s.engine.Sound config := by
  induction h with
  | new devices => exact Engine.Sound.new config devices
  | call _ performs ih => exact ih.performs performs

/-- In every reachable session the tape has the length that was asked for and holds bytes, the
pointer is on the tape, and loaded code, a program always together with an index, has its position
in the program or right behind it and exactly the index of that program. A step is cut short by
nothing but an input value that is no byte. A run by sweeps reads its unchecked arrays in range only
and never jumps to a missing partner. -/
theorem reachable_is_safe {config : Config} {s : Session} (h : Reachable config s) :
    (s.engine.tape.size = config.tapeSize ∧ (∀ cell ∈ s.engine.tape, cell.toNat ≤ 255) ∧
      0 ≤ s.engine.pointer ∧ s.engine.pointer < s.engine.tape.size ∧
      ∀ code, s.engine.loaded = some code →
        0 ≤ s.engine.pc ∧ s.engine.pc ≤ code.program.size ∧
        BracketIndex.build code.program = .ok code.index) ∧
    (∀ cause, s.step.2 = .error cause →
      ∃ value, cause = .fault (.ofByte value) ∧ ¬(0 ≤ value ∧ value < 256)) ∧
    ∀ code, s.engine.loaded = some code → ∀ fuel,
      (Machine.tracedDash code code.program.codes fuel s.machine).result =
          s.machine.dash code code.program.codes fuel ∧
        ∀ access ∈ (Machine.tracedDash code code.program.codes fuel s.machine).accesses,
          access.InRange := by
  have hsound := h.sound
  refine ⟨⟨hsound.size_tape, ?_, hsound.pointer_nonneg, hsound.pointer_lt, ?_⟩, ?_, ?_⟩
  · intro cell _
    have := cell.toNat_lt
    omega
  · intro code hcode
    exact ⟨hsound.pc_nonneg code hcode, hsound.pc_le code hcode, hsound.built code hcode⟩
  · intro cause hcause
    unfold step at hcause
    cases hcode : s.engine.loaded with
    | none =>
      rw [hcode] at hcause
      cases hcause
    | some code =>
      rw [hcode] at hcause
      dsimp only at hcause
      cases hstep : s.machine.step code with
      | mk m answer =>
        rw [hstep] at hcause
        cases answer with
        | ok goesOn => cases hcause
        | error fault =>
          cases hcause
          have hfault : (s.machine.step code).2 = .error fault := by rw [hstep]
          obtain ⟨value, -, -, hvalue, rfl⟩ := (hsound.safe hcode).fault_of_step hfault
          exact ⟨value, rfl, hvalue⟩
  · intro code hcode fuel
    exact ⟨Machine.tracedDash_result _ _ _ _, (hsound.safe hcode).tracedDash_inRange fuel⟩

/-- A session with two cells that has loaded `+[,]` and taken a step is reachable, so it is safe. -/
theorem reachable_is_safe_in_mid_run :
    let config : Config := ⟨2, by decide, true, true⟩
    let loaded := ((Session.new config .empty).load (.given (.text "+[,]")) (.bytes [3, 0]) .none).1
    Reachable config loaded.step.1 ∧ loaded.step.1.engine.loaded ≠ none ∧
      loaded.step.1.engine.pc = 1 ∧ loaded.step.1.engine.tape.size = 2 ∧
      0 ≤ loaded.step.1.engine.pointer := by
  intro config loaded
  have hstepped : Reachable config loaded.step.1 :=
    .call (.call (.new .empty) (performs_load _ _ _ _)) (performs_step _)
  obtain ⟨hsize, -, hpointer, -⟩ := (reachable_is_safe hstepped).1
  exact ⟨hstepped, by decide, by decide, hsize, hpointer⟩

end Session

end TapeMachine
