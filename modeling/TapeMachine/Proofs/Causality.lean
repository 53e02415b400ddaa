import TapeMachine.Proofs.Embedding

/-!
Input is read when it is asked for, and not before. A command that does not read takes no notice of
the input, and one that reads takes the first answer and leaves the others (`Memory.work_supply`).
So a run does the same with further answers behind its input (`Embedding.moreInput`), until it asks
for an answer where there was none.

What a run has read are the values that its commas have put into the current cell, one after another
(`Machine.readings`). Together with what is left they are the input with which the run began
(`Safe.readings_append_input`): nothing is lost on the way, read twice or out of order.
-/

set_option autoImplicit false
set_option relaxedAutoImplicit false

namespace TapeMachine

open StateTransition

/-! ### More input -/

namespace Memory

variable {s next : Memory}

/-- The memory with further answers behind its input. -/
def supply (more : Feed) (s : Memory) : Memory := s.mapStreams (· ++ more) id

/-- Further answers make no difference to a command, unless it reads and there is no answer
before them. -/
theorem work_supply (more : Feed) (s : Memory) (command : Command) :
    (s.supply more).work command = (s.work command).lift (supply more) 0 ∨
      ∃ failure, s.work command = .fails s failure ∧
        ∃ pointer, failure = .inputExhausted pointer := by
  rw [Work.lift_zero]
  cases command with
  | read =>
    cases hinput : s.input with
    | nil =>
      have hwork : s.work .read = .fails s (.inputExhausted s.pointer) := by
        simp only [work, hinput]
      exact .inr ⟨_, hwork, _, rfl⟩
    | cons answer rest =>
      have hmore : (s.supply more).input = answer :: (rest ++ more) := by
        simp [supply, mapStreams, hinput]
      left
      cases answer with
      | none =>
        simp only [work, hinput, hmore]
        rfl
      | some value =>
        simp only [work, hinput, hmore]
        exact deposit_mapStreams (· ++ more) id { s with input := rest } value
  | write => exact .inl (withCell_mapStreams (· ++ more) id s fun _ ↦ rfl)
  | _ => exact .inl (work_mapStreams (· ++ more) id s (by simp) (by simp))

/-- A reading takes the first answer, which is a byte, and puts it into the current cell. -/
theorem exists_byte_of_read (h : s.InRange) (hwork : s.work .read = .done next) :
    ∃ byte : UInt8, s.input = some (byte.toNat : ℤ) :: next.input ∧ next.cell = .ok byte ∧
      next.output = s.output := by
  cases hinput : s.input with
  | nil => simp [work, hinput] at hwork
  | cons answer rest =>
    cases answer with
    | none => simp [work, hinput] at hwork
    | some value =>
      have hrest : InRange { s with input := rest } := h
      obtain ⟨place, hpointer, hplace⟩ := hrest.exists_place
      simp only [work, hinput] at hwork
      by_cases hvalue : 0 ≤ value ∧ value < 256
      · rw [deposit_eq hpointer hplace hvalue] at hwork
        cases hwork
        refine ⟨UInt8.ofNat value.toNat, ?_, ?_, rfl⟩
        · have hbyte : ((UInt8.ofNat value.toNat).toNat : ℤ) = value := by
            rw [UInt8.toNat_ofNat']
            omega
          rw [hbyte]
        · have hcell : Tape.cell (s.tape.setIfInBounds place (UInt8.ofNat value.toNat)) place =
              .ok (UInt8.ofNat value.toNat) := by
            rw [Tape.cell_natCast (by simpa using hplace)]
            simp
          rw [← hpointer] at hcell
          exact hcell
      · rw [deposit_eq_faults hrest hvalue] at hwork
        cases hwork

theorem exists_done_of_byte (h : s.InRange) {byte : UInt8} {rest : Feed}
    (hinput : s.input = some (byte.toNat : ℤ) :: rest) : ∃ next, s.work .read = .done next := by
  have hrest : InRange { s with input := rest } := h
  obtain ⟨place, hpointer, hplace⟩ := hrest.exists_place
  have hbyte : 0 ≤ (byte.toNat : ℤ) ∧ (byte.toNat : ℤ) < 256 := by
    have hlt := byte.toNat_lt
    omega
  simp only [work, hinput]
  exact ⟨_, deposit_eq hpointer hplace hbyte⟩

theorem work_read_ne_jump (h : s.InRange) : s.work .read ≠ .jump := by
  intro hjump
  have hcases := work_cases h .read
  simp [hjump] at hcases

/-- A command that fails for want of bytes is a reading, and there are none left. -/
theorem Fails.of_inputExhausted {command : Command} {pointer : ℤ}
    (h : s.Fails command next (.inputExhausted pointer)) (hinput : none ∉ s.input) :
    command = .read ∧ s.input = [] := by
  cases h with
  | exhausted hempty => exact ⟨rfl, hempty⟩
  | missing rest hmissing => simp [hmissing] at hinput

end Memory

theorem Feed.ofBytes_injective : Function.Injective ofBytes := by
  refine List.map_injective_iff.mpr fun first second hsame ↦ ?_
  exact UInt8.toNat_inj.mp (Int.ofNat_inj.mp (Option.some.inj hsame))

/-- The input as the beginning of a longer one. -/
def Embedding.moreInput (more : Feed) : Embedding where
  memory := Memory.supply more
  offset := 0
  averts := fun failure ↦ ∃ pointer, failure = .inputExhausted pointer
  pointer_eq := fun s ↦ (Int.zero_add s.pointer).symm
  inRange := fun _ h ↦ h
  work := fun s _ command ↦ Memory.work_supply more s command

/-! ### What is read and written -/

namespace Machine

variable {code : Code} {start m n next last : Machine} {outcome : Machine × Except Fault Unit}

/-- The bytes that a run reads in its first steps: what is in the current cell after each step that
was before a comma. -/
def readings (code : Code) (number : ℕ) (m : Machine) : List UInt8 :=
  (List.range number).flatMap fun k ↦
    if code.program.get? (m.after code k).pc = some ',' then
      (m.after code (k + 1)).cell.toOption.toList
    else []

theorem readings_succ (code : Code) (number : ℕ) (m : Machine) :
    m.readings code (number + 1) = m.readings code number ++
      if code.program.get? (m.after code number).pc = some ',' then
        (m.after code (number + 1)).cell.toOption.toList
      else [] := by
  unfold readings
  rw [List.range_succ, List.flatMap_append, List.flatMap_singleton]

/-- A move before a comma takes the byte from the input that it puts into the current cell, and
other moves leave the input alone. -/
theorem Safe.input_of_move (h : m.Safe code) (hmove : m.move code = some next) :
    .ofBytes (if code.program.get? m.pc = some ',' then next.cell.toOption.toList else []) ++
      next.input = m.input := by
  obtain ⟨c, s, position, hget, rfl, hwork⟩ := exists_work_of_move hmove
  rw [hget]
  by_cases hc : c = ','
  · subst hc
    have hcommand : Command.ofChar ',' = .read := by decide
    rw [hcommand] at hwork
    rcases hwork with hdone | ⟨hjump, -⟩
    · obtain ⟨byte, hinput, hcell, -⟩ := Memory.exists_byte_of_read h.inRange hdone
      have hread : (m.goOn s position).cell = .ok byte := hcell
      rw [if_pos rfl, hread]
      exact hinput.symm
    · exact absurd hjump (Memory.work_read_ne_jump h.inRange)
  · have hread : Command.ofChar c ≠ .read := fun hcommand ↦ hc (Command.eq_of_symbol? hcommand rfl)
    have hinput := m.memory.work_input_of_ne_read hread
    rw [if_neg (by simpa using hc)]
    rcases hwork with hdone | ⟨-, rfl⟩
    · rw [hdone] at hinput
      exact hinput
    · rfl

/-- What has been read and what is still to be read make up the input. -/
theorem Safe.readings_append_input (h : start.Safe code)
    (hreach : Reaches (Machine.move code) start n) :
    .ofBytes (start.readings code (n.steps - start.steps)) ++ n.input = start.input := by
  induction hreach with
  | refl =>
    rw [Nat.sub_self]
    rfl
  | @tail middle next hreach hmove ih =>
    have hmiddle := after_of_reaches hreach (running_of_move hmove)
    have hnext : (start.after code (middle.steps - start.steps + 1)).cell = next.cell := by
      rw [after, Function.iterate_succ_apply']
      change ((start.after code (middle.steps - start.steps)).step code).1.cell = next.cell
      rw [hmiddle]
      exact congrArg Memory.cell (memory_step_of_move hmove)
    rw [steps_sub_of_move hreach hmove, readings_succ, hmiddle, hnext, Feed.ofBytes_append,
      List.append_assoc, (h.reaches hreach).1.input_of_move hmove, ih]

/-- A step writes behind what has been written before. -/
theorem output_of_step (code : Code) (m : Machine) :
    m.output.toList <+: (m.step code).1.output.toList := by
  obtain ⟨written, hstep⟩ := m.step_output code
  have hself : m.step code = ((m.step code).1.setOutput (m.output ++ written), (m.step code).2) :=
    hstep m.output
  rw [hself]
  exact ⟨written.toList, Array.toList_append.symm⟩

theorem output_of_reaches (h : Reaches (move code) m last) :
    m.output.toList <+: last.output.toList := by
  induction h with
  | refl => exact List.prefix_refl _
  | @tail middle next _ hmove ih =>
    have hstep := middle.output_of_step code
    have hnext : (middle.step code).1.output = next.output :=
      congrArg Memory.output (memory_step_of_move hmove)
    rw [hnext] at hstep
    exact ih.trans hstep

/-- A run ends no earlier than any machine that it comes to, and has written what that one has. -/
theorem Ends.follows_reaches (hends : m.Ends code outcome) (hreach : Reaches (move code) m n) :
    n.steps ≤ outcome.1.steps ∧ n.output.toList <+: outcome.1.output.toList := by
  obtain ⟨last, hlast, hverdict, -, hsteps⟩ := hends.exists_last
  rw [reaches_eval hreach] at hlast
  obtain ⟨hon, -⟩ := mem_eval.mp hlast
  have houtput : outcome.1.output = (last.conclude code).1.output :=
    congrArg (fun verdict ↦ verdict.memory.output) hverdict
  have hconclude : last.output.toList <+: (last.conclude code).1.output.toList := by
    unfold conclude
    split_ifs
    · exact List.prefix_refl _
    · exact last.output_of_step code
  rw [hsteps, houtput]
  exact ⟨steps_le_of_reaches hon, (output_of_reaches hon).trans hconclude⟩

end Machine

/-! ### Runs with more input -/

namespace Session

variable {config settings : Config} {s t ready larger next : Session} {code : Code}
  {listing : Listing} {input taken : Input} {output given : Output} {data more : List UInt8}

/-- The bytes that the engine reads in its first steps. -/
def readings (number : ℕ) (s : Session) : List UInt8 :=
  match s.engine.loaded with
  | none => []
  | some code => s.machine.readings code number

/-- A run begins with the answers that it is offered. -/
theorem input_of_load {feed : Feed} (hoffers : s.Offers input output feed)
    (hload : s.load listing input output = (ready, .ok (.ok code))) :
    ready.machine.input = feed := by
  obtain ⟨devices, source, hopened, hpending, -⟩ := hoffers
  obtain ⟨_, _, hsame, -, rfl⟩ := start_of_load hload
  cases hopened.symm.trans hsame
  exact (congrArg Memory.input (s.start_memory code devices source output)).trans hpending

/-- A run over bytes has no faults. What it has read and what it leaves unread are the bytes. -/
theorem readings_append_unread {fuel : ℕ} {answer : Except Error RunResult}
    (hs : s.engine.Sound config) (hload : s.load listing input output = (ready, .ok (.ok code)))
    (hbytes : ready.machine.input = .ofBytes data)
    (hrun : s.run fuel listing input output = some (next, answer)) :
    ∃ result, answer = .ok result ∧ result = next.engine.result ∧
      .ofBytes (ready.readings result.steps) ++ next.unread = Feed.ofBytes data := by
  obtain ⟨hcode, hsafe⟩ := safe_of_load hs hload
  obtain ⟨-, hzero, hfailure⟩ := registers_of_load hload
  obtain ⟨outcome, hends, rfl, rfl⟩ := ends_of_run hsafe hload hrun
  obtain ⟨hanswer, last, hreach, hmemory, hsteps, -⟩ :=
    hsafe.ends_cases_of_bytes hfailure hbytes hends
  refine ⟨_, finish_eq_ok_iff.mpr ⟨hanswer, rfl⟩, rfl, ?_⟩
  have hunread : (ready.finish outcome).1.unread = last.input :=
    (unread_absorb ((follows_machine ready).ends hcode hends)).trans
      (congrArg Memory.input hmemory)
  have hclock : (ready.finish outcome).1.engine.result.steps =
      last.steps - ready.machine.steps := by
    change outcome.1.steps = last.steps - ready.engine.steps
    rw [hsteps, hzero, Nat.sub_zero]
  rw [hunread, hclock, ← hbytes, readings, hcode]
  exact hsafe.readings_append_input hreach

/-- A run over bytes that has found nothing left to read has stopped before a comma. -/
theorem exists_last_of_exhausted {fuel : ℕ} {result : RunResult} {pointer : ℤ}
    (hs : s.engine.Sound config) (hload : s.load listing input output = (ready, .ok (.ok code)))
    (hbytes : ready.machine.input = .ofBytes data)
    (hrun : s.run fuel listing input output = some (next, .ok result))
    (hfailed : result.failure = some (.inputExhausted pointer)) :
    ∃ last, Reaches (Machine.move code) ready.machine last ∧ last.halted code = false ∧
      code.program.get? last.pc = some ',' ∧ last.input = [] ∧
      next = ready.absorb (last.fail (.inputExhausted pointer)).1 ∧ result.steps = last.steps := by
  obtain ⟨-, hsafe⟩ := safe_of_load hs hload
  obtain ⟨-, -, hfailure⟩ := registers_of_load hload
  have hkept : none ∉ ready.machine.input := by
    rw [hbytes]
    exact Feed.none_notMem_ofBytes data
  obtain ⟨last, c, hreach, hrunning, hget, hfails, hnext, hsteps⟩ :=
    exists_last_of_run hsafe hfailure hload hrun hfailed (.inl hkept)
  have hinput : none ∉ last.input :=
    fun hmem ↦ hkept ((Machine.input_of_reaches hreach).subset hmem)
  obtain ⟨hcommand, hempty⟩ := hfails.of_inputExhausted hinput
  obtain rfl : c = ',' := Command.eq_of_symbol? hcommand rfl
  exact ⟨last, hreach, hrunning, hget, hempty, hnext, hsteps⟩

/-- The second session is where the first one is, with more bytes behind what it has left to
read. -/
structure HasMore (more : List UInt8) (s t : Session) : Prop where
  tape_eq : t.engine.tape = s.engine.tape
  pointer_eq : t.engine.pointer = s.engine.pointer
  pc_eq : t.engine.pc = s.engine.pc
  steps_eq : t.engine.steps = s.engine.steps
  unread_eq : t.unread = s.unread ++ .ofBytes more
  written_eq : t.written = s.written

theorem hasMore_of_holds (h : (Embedding.moreInput (.ofBytes more)).Holds s t) :
    HasMore more s t where
  tape_eq := congrArg Memory.tape h.memory_eq
  pointer_eq := congrArg Memory.pointer h.memory_eq
  pc_eq := h.pc_eq
  steps_eq := h.steps_eq
  unread_eq := congrArg Memory.input h.memory_eq
  written_eq := congrArg Memory.output h.memory_eq

/-- Where a run finds nothing left to read, the run with more bytes reads on: it takes a further
step at least, and writes behind what has been written. -/
theorem reads_on {last : Machine} {outcome : Machine × Except Fault Unit}
    (h : (Embedding.moreInput (.ofBytes more)).Prepared code ready larger)
    (hreach : Reaches (Machine.move code) ready.machine last) (hrun : last.halted code = false)
    (hget : code.program.get? last.pc = some ',') (hinput : last.input = []) (hmore : more ≠ [])
    (hends : larger.machine.Ends code outcome) :
    last.steps < outcome.1.steps ∧ last.output.toList <+: outcome.1.output.toList := by
  obtain ⟨byte, rest, rfl⟩ := List.exists_cons_of_ne_nil hmore
  set x := Embedding.moreInput (.ofBytes (byte :: rest))
  set n := x.machine larger.journal last
  have hsafe : n.Safe code := x.safe larger.journal (h.safe.reaches hreach).1
  have hreachLarger := x.reaches larger.journal h.safe hreach
  rw [← h.machine_eq] at hreachLarger
  have hinputLarger : n.memory.input = some (byte.toNat : ℤ) :: Feed.ofBytes rest := by
    change last.input ++ Feed.ofBytes (byte :: rest) = _
    rw [hinput]
    rfl
  -- The comma at which the run has stopped is a move where there is a byte for it.
  obtain ⟨after, hwork⟩ := Memory.exists_done_of_byte hsafe.inRange hinputLarger
  obtain ⟨-, -, -, houtput⟩ := Memory.exists_byte_of_read hsafe.inRange hwork
  have hmove : n.move code = some (n.goOn after (n.pc + 1)) := by
    have hcommand : Command.ofChar ',' = .read := by decide
    have hrunLarger : n.halted code = false := hrun
    have hgetLarger : code.program.get? n.pc = some ',' := hget
    rw [Machine.move_eq hrunLarger hgetLarger, hcommand, hwork]
  obtain ⟨hsteps, hwritten⟩ := hends.follows_reaches (hreachLarger.tail hmove)
  have hsame : (n.goOn after (n.pc + 1)).output = last.output := houtput
  rw [hsame] at hwritten
  exact ⟨hsteps, hwritten⟩

/-- Runs never read ahead. Of a run over bytes, what it has read and what it leaves unread are its
bytes, in their order. With more bytes behind them, and from the same tape and pointer, a run that
has not asked for more ends with the same result and leaves the further bytes unread. A run that
has asked for more has read all of its bytes; with more of them it is at the same place after as
many steps, and it ends, if at all, only later, and with what was written at the beginning of what
it has written then. -/
theorem runs_never_read_ahead {config settings : Config} {s t next : Session} {listing : Listing}
    {program : Program} {index : BracketIndex} {data more : List UInt8} {input taken : Input}
    {output given : Output} {fuel : ℕ} {answer : Except Error RunResult}
    (hs : s.engine.Sound config) (ht : t.engine.Sound settings)
    (hlisting : listing.toProgram = .ok program) (hbuild : BracketIndex.build program = .ok index)
    (htape : t.engine.rewind.tape = s.engine.rewind.tape)
    (hpointer : t.engine.rewind.pointer = s.engine.rewind.pointer)
    (hoffers : s.Offers input output (.ofBytes data))
    (hoffered : t.Offers taken given (.ofBytes (data ++ more)))
    (hrun : s.run fuel listing input output = some (next, answer)) :
    ∃ result, answer = .ok result ∧
      .ofBytes ((s.load listing input output).1.readings result.steps) ++ next.unread =
        Feed.ofBytes data ∧
      ((∀ pointer, result.failure ≠ some (.inputExhausted pointer)) →
        ∃ bound last, t.run bound listing taken given = some (last, .ok result) ∧
          HasMore more next last) ∧
      ∀ pointer, result.failure = some (.inputExhausted pointer) →
        next.unread = [] ∧ (s.load listing input output).1.readings result.steps = data ∧
        ((t.load listing taken given).1.after result.steps).engine.failure = none ∧
        HasMore more next ((t.load listing taken given).1.after result.steps) ∧
        (more ≠ [] → ∀ bound last total, t.run bound listing taken given = some (last, total) →
          ∃ final, total = .ok final ∧ result.steps < final.steps ∧
            next.written.toList <+: last.written.toList) := by
  have hmemory : Memory.mk t.engine.rewind.tape t.engine.rewind.pointer (.ofBytes (data ++ more))
      #[] = (Embedding.moreInput (.ofBytes more)).memory
        ⟨s.engine.rewind.tape, s.engine.rewind.pointer, .ofBytes data, #[]⟩ := by
    rw [htape, hpointer, Feed.ofBytes_append]
    rfl
  obtain ⟨ready, larger, hload, hlarger, h⟩ := (Embedding.moreInput (.ofBytes more)).exists_prepared
    ⟨program, index⟩ hs ht hlisting hbuild hoffers hoffered hmemory
  have hbytes := input_of_load hoffers hload
  obtain ⟨result, rfl, -, hreadings⟩ := readings_append_unread hs hload hbytes hrun
  rw [hload, hlarger]
  refine ⟨result, rfl, hreadings, ?_, ?_⟩
  · intro hread
    rcases h.run hload hlarger hrun with ⟨bound, last, hlast, hholds⟩ |
      ⟨_, failure, hsame, hfailed, pointer, rfl⟩
    · refine ⟨bound, last, hlast.trans ?_, hasMore_of_holds hholds⟩
      exact congrArg (fun answer ↦ some (last, answer)) (RunResult.map_shift_zero (.ok result))
    · cases hsame
      exact absurd hfailed (hread pointer)
  · intro pointer hfailed
    obtain ⟨last, hreach, hrunning, hget, hempty, rfl, hsteps⟩ :=
      exists_last_of_exhausted hs hload hbytes hrun hfailed
    obtain ⟨hnone, hholds⟩ := h.after_of_fails hreach hrunning (.inputExhausted pointer)
    obtain ⟨-, hfollows⟩ := after_of_reaches h.loaded hreach hrunning
    have hfollowed : ready.Follows (last.fail (.inputExhausted pointer)).1 :=
      ⟨hfollows.input, hfollows.output⟩
    have hunread := (unread_absorb hfollowed).trans hempty
    rw [hunread, List.append_nil] at hreadings
    rw [hsteps] at hreadings ⊢
    refine ⟨hunread, Feed.ofBytes_injective hreadings, hnone, hasMore_of_holds hholds, ?_⟩
    intro hmore bound final total htotal
    obtain ⟨ended, rfl, rfl, -⟩ :=
      readings_append_unread ht hlarger (input_of_load hoffered hlarger) htotal
    obtain ⟨outcome, hends, rfl, -⟩ := ends_of_run h.safe_larger hlarger htotal
    obtain ⟨hlater, hwritten⟩ := reads_on h hreach hrunning hget hempty hmore hends
    refine ⟨_, rfl, hlater, ?_⟩
    rw [written_absorb hfollowed h.drain, written_finish h.drain_larger]
    exact hwritten

/-- With the bytes 3 and 4, `,[.,]` asks for another one after it has written both. With a zero
behind them it comes to the same place and has the zero left to read. `,.` reads one byte and leaves
the other. -/
theorem runs_never_read_ahead_past_the_end :
    let s : Session := .new ⟨2, by decide, false, true⟩ .empty
    let t : Session := .new ⟨2, by decide, true, false⟩ .empty
    let echo : Listing := .given (.text ",[.,]")
    let one : Listing := .given (.text ",.")
    (∃ next, s.run 30 echo (.bytes [3, 4]) .none =
        some (next, .ok ⟨some (.inputExhausted 0), 3, 0, 6⟩) ∧
      (s.load echo (.bytes [3, 4]) .none).1.readings 6 = [3, 4] ∧
      HasMore [0] next ((t.load echo (.bytes [3, 4, 0]) .none).1.after 6)) ∧
    ∃ next bound last, s.run 9 one (.bytes [3]) .none = some (next, .ok ⟨none, 2, 0, 2⟩) ∧
      t.run bound one (.bytes [3, 4]) .none = some (last, .ok ⟨none, 2, 0, 2⟩) ∧
      HasMore [4] next last := by
  intro s t echo one
  have hecho : echo.toProgram = .ok (Program.ofText ",[.,]") := rfl
  have hone : one.toProgram = .ok (Program.ofText ",.") := rfl
  have hechoes : BracketIndex.build (Program.ofText ",[.,]") =
      .ok ⟨#[none, some 4, none, none, some 1]⟩ := by decide +kernel
  have hones : BracketIndex.build (Program.ofText ",.") = .ok ⟨#[none, none]⟩ := by decide +kernel
  have hs := Engine.Sound.new s.engine.config .empty
  have ht := Engine.Sound.new t.engine.config .empty
  constructor
  · let ended := (s.run 30 echo (.bytes [3, 4]) .none).get (by decide +kernel)
    have hrun : s.run 30 echo (.bytes [3, 4]) .none =
        some (ended.1, .ok ⟨some (.inputExhausted 0), 3, 0, 6⟩) := by decide +kernel
    have hoffered : t.Offers (.bytes [3, 4, 0]) .none (.ofBytes ([3, 4] ++ [0])) :=
      t.offers_bytes [3, 4, 0]
    obtain ⟨_, hsame, -, -, hexhausted⟩ := runs_never_read_ahead hs ht hecho hechoes rfl rfl
      (s.offers_bytes [3, 4]) hoffered hrun
    cases hsame
    obtain ⟨-, hreadings, -, hmore, -⟩ := hexhausted 0 rfl
    exact ⟨ended.1, hrun, hreadings, hmore⟩
  · let ended := (s.run 9 one (.bytes [3]) .none).get (by decide +kernel)
    have hrun : s.run 9 one (.bytes [3]) .none = some (ended.1, .ok ⟨none, 2, 0, 2⟩) := by
      decide +kernel
    have hoffered : t.Offers (.bytes [3, 4]) .none (.ofBytes ([3] ++ [4])) :=
      t.offers_bytes [3, 4]
    obtain ⟨_, hsame, -, hread, -⟩ := runs_never_read_ahead hs ht hone hones rfl rfl
      (s.offers_bytes [3]) hoffered hrun
    cases hsame
    obtain ⟨bound, last, hlast, hmore⟩ := hread (by simp)
    exact ⟨ended.1, bound, last, hrun, hlast, hmore⟩

end Session

end TapeMachine
