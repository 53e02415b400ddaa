import TapeMachine.Bundled
import TapeMachine.Proofs.Loops
import TapeMachine.Proofs.Tool

/-!
The copying program `,[.,]` is correct for every input. Its tree reads a byte, and then, while that
byte is not zero, it writes it and reads the next one (`Bundled.catBlock`). What this means is
worked out on the tree, where there are no jumps: the rounds of the loop are followed by induction
on the bytes still to come, up to a zero (`Bundled.rounds_up_to_zero`) or to the end of the input
(`Bundled.rounds_up_to_end`).

A tree that ends without a fault has a run that shows its end (`Session.exists_run_of_yields`), and
so does an evaluation, which starts such a run on a tape of zeros (`Evaluation.ends_of_yields`).
Neither depends on the strategy.
-/

set_option autoImplicit false
set_option relaxedAutoImplicit false

namespace TapeMachine

open Matching

/-! ### The store of the copying program -/

namespace Store

/-- The store with another value in the current cell, and with other answers to come and other bytes
written. -/
def holding (s : Store) (value : UInt8) (input : Feed) (output : Array UInt8) : Store :=
  { s with input := input, output := output }.put value

variable (s : Store) (value other : UInt8) (input rest : Feed) (output : Array UInt8)

theorem cell_holding : (s.holding value input output).cell = value := by
  simp [holding, put, cell]

theorem holding_self : s.holding s.cell s.input s.output = s := by
  simp [holding, put, cell]

theorem holding_holding (before : Feed) (written : Array UInt8) :
    (s.holding other before written).holding value input output =
      s.holding value input output := by
  simp [holding, put]

/-- A comma takes a byte from the input into the current cell. -/
theorem act_read (position : ℕ) (h : s.input = some (value.toNat : ℤ) :: rest) :
    s.act position ',' = (s.holding value rest s.output, .finished) := by
  have hlt := value.toNat_lt
  have hbyte : (0 : ℤ) ≤ (value.toNat : ℤ) ∧ (value.toNat : ℤ) < 256 := by omega
  change s.take position = _
  simp only [take, h, if_pos hbyte, Int.toNat_natCast, UInt8.ofNat_toNat]
  rfl

/-- A comma that finds no byte leaves everything as it is. -/
theorem act_read_nothing (position : ℕ) (h : s.input = []) :
    s.act position ',' = (s, .aborted position (.inputExhausted s.pointer)) := by
  change s.take position = _
  rw [take, h]

theorem act_write (position : ℕ) :
    (s.holding value input output).act position '.' =
      (s.holding value input (output.push value), .finished) := by
  have hcell := s.cell_holding value input output
  change ({ s.holding value input output with
    output := output.push (s.holding value input output).cell }, Ending.finished) = _
  rw [hcell]
  rfl

end Store

/-! ### The meaning of the tree -/

namespace Bundled

/-- What the copying program does in each round: it writes a byte and reads the next one. -/
def catBody : Block := .char 2 '.' (.char 3 ',' .empty)

/-- The tree of the copying program. -/
def catBlock : Block := .char 0 ',' (.loop 1 catBody .empty)

variable {s : Store} {data front rest : List UInt8} {value : UInt8} {output : Array UInt8}

/-- One round, if there is another byte. -/
theorem yields_body (s : Store) (value next : UInt8) (rest : Feed) (output : Array UInt8) :
    Yields (.block catBody) (s.holding value (some (next.toNat : ℤ) :: rest) output) 2
      (s.holding next rest (output.push value)) .finished := by
  have hread := (s.holding value (some (next.toNat : ℤ) :: rest) (output.push value)).act_read next
    rest 3 rfl
  rw [Store.holding_holding] at hread
  exact .char (s.act_write value _ output 2) (.char hread (.empty _))

/-- The last round, if there is none. -/
theorem yields_body_nothing (s : Store) (value : UInt8) (output : Array UInt8) :
    Yields (.block catBody) (s.holding value [] output) 1
      (s.holding value [] (output.push value)) (.aborted 3 (.inputExhausted s.pointer)) :=
  .char (s.act_write value [] output 2)
    (.charStops ((s.holding value [] (output.push value)).act_read_nothing 3 rfl) nofun)

/-- Up to a zero, each byte is written in a round of its own, and the zero ends the rounds. -/
theorem rounds_up_to_zero (hfront : 0 ∉ front) (hdata : value :: data = front ++ 0 :: rest)
    (output : Array UInt8) :
    Yields (.rounds catBody) (s.holding value (.ofBytes data) output) (3 * front.length)
      (s.holding 0 (.ofBytes rest) (output ++ front.toArray)) .finished := by
  -- The byte in the cell is the first of those in front of the zero, or it is the zero.
  induction front generalizing value data output with
  | nil =>
    obtain ⟨rfl, rfl⟩ := List.cons.inj hdata
    exact .noRound (s.cell_holding 0 _ output)
  | cons first front ih =>
    obtain ⟨rfl, hlater⟩ := List.cons.inj hdata
    obtain ⟨hfirst, hfront⟩ := List.ne_and_not_mem_of_not_mem_cons hfront
    obtain ⟨next, later, rfl⟩ : ∃ next later, data = next :: later :=
      List.exists_cons_of_ne_nil (by simp [hlater])
    have hcell : (s.holding value (.ofBytes (next :: later)) output).cell ≠ 0 := by
      rw [Store.cell_holding]
      exact hfirst.symm
    have hcost : 3 * (value :: front).length = 2 + 1 + 3 * front.length := by
      rw [List.length_cons]
      omega
    have hwritten : output ++ (value :: front).toArray = output.push value ++ front.toArray := by
      simp
    rw [hcost, hwritten]
    exact .round hcell (yields_body s value next _ output) (ih hfront hlater _)

/-- Without a zero, each byte is written in a round of its own, and the last round finds no further
byte. -/
theorem rounds_up_to_end (hzero : 0 ∉ value :: data) (output : Array UInt8) :
    Yields (.rounds catBody) (s.holding value (.ofBytes data) output) (3 * data.length + 1)
      (s.holding ((value :: data).getLast (List.cons_ne_nil _ _)) []
        (output ++ (value :: data).toArray))
      (.aborted 3 (.inputExhausted s.pointer)) := by
  induction data generalizing value output with
  | nil =>
    have hcell : (s.holding value [] output).cell ≠ 0 := by
      rw [Store.cell_holding]
      exact (List.ne_of_not_mem_cons hzero).symm
    exact .roundStops hcell (yields_body_nothing s value output) nofun
  | cons next data ih =>
    obtain ⟨hvalue, hzero⟩ := List.ne_and_not_mem_of_not_mem_cons hzero
    have hcell : (s.holding value (.ofBytes (next :: data)) output).cell ≠ 0 := by
      rw [Store.cell_holding]
      exact hvalue.symm
    have hcost : 3 * (next :: data).length + 1 = 2 + 1 + (3 * data.length + 1) := by
      rw [List.length_cons]
      omega
    have hwritten : output ++ (value :: next :: data).toArray =
        output.push value ++ (next :: data).toArray := by
      simp
    rw [hcost, hwritten, List.getLast_cons (List.cons_ne_nil _ _)]
    exact .round hcell (yields_body s value next _ output) (ih hzero _)

/-- The program copies its input up to a zero. -/
theorem yields_cat_up_to_zero (hfront : 0 ∉ front)
    (hinput : s.input = .ofBytes (front ++ 0 :: rest)) :
    Yields (.block catBlock) s (3 * front.length + 2)
      (s.holding 0 (.ofBytes rest) (s.output ++ front.toArray)) .finished := by
  obtain ⟨value, data, hdata⟩ : ∃ value data, front ++ 0 :: rest = value :: data :=
    List.exists_cons_of_ne_nil (by simp)
  rw [hdata] at hinput
  have hcost : 3 * front.length + 2 = 1 + (1 + 3 * front.length + 0) := by omega
  rw [hcost]
  exact .char (s.act_read value (.ofBytes data) 0 hinput)
    (.loop (rounds_up_to_zero hfront hdata.symm s.output) (.empty _))

/-- Without a zero it copies all of its input, and fails to read on. -/
theorem yields_cat_up_to_end (hzero : 0 ∉ data) (hinput : s.input = .ofBytes data) :
    Yields (.block catBlock) s (3 * data.length)
      (s.holding (data.getLast?.getD s.cell) [] (s.output ++ data.toArray))
      (.aborted (if data = [] then 0 else 3) (.inputExhausted s.pointer)) := by
  cases data with
  | nil =>
    have hself := s.holding_self
    rw [hinput] at hself
    have hstops := s.act_read_nothing 0 hinput
    nth_rewrite 2 [← hself] at hstops
    exact .charStops hstops nofun
  | cons value data =>
    have hcost : 3 * (value :: data).length = 1 + (1 + (3 * data.length + 1)) := by
      rw [List.length_cons]
      omega
    rw [hcost, List.getLast?_eq_getLast_of_ne_nil (List.cons_ne_nil _ _)]
    exact .char (s.act_read value (.ofBytes data) 0 hinput)
      (.loopStops (rounds_up_to_end hzero s.output) nofun)

end Bundled

/-! ### From the meaning to the evaluation -/

/-- The result of a run that ends as its tree does. -/
def Ending.result (ending : Ending) (size cost : ℕ) (last : Store) : RunResult :=
  ⟨ending.failure?, ending.position size, last.pointer, cost⟩

/-- A tree that ends without a fault has a run, and this run shows the end. -/
theorem Session.exists_run_of_yields {config : Config} {s ready : Session} {code : Code}
    {listing : Listing} {input : Input} {output : Output} {block : Block} {start last : Store}
    {cost : ℕ} {ending : Ending} (hsound : s.engine.Sound config)
    (hload : s.load listing input output = (ready, .ok (.ok code)))
    (hcovers : block.Covers code.program.chars.toList 0 code.program.size)
    (hmemory : ready.machine.memory = start.memory)
    (hdrain : ready.engine.sink.drain < ready.devices.drains.size)
    (hyields : Yields (.block block) start cost last ending) (hending : ending.answer = .ok ()) :
    ∃ fuel next, s.run fuel listing input output =
        some (next, .ok (ending.result code.program.size cost last)) ∧
      next.engine.tape = last.tape ∧ next.unread = last.input ∧
      (next.devices.received ready.engine.sink.drain).bytes = last.output := by
  obtain ⟨hcode, hsafe⟩ := safe_of_load hsound hload
  obtain ⟨hpc, hsteps, hfailure⟩ := registers_of_load hload
  obtain ⟨outcome, hends, hmachine⟩ :=
    Machine.ends_of_yields hsafe.built hfailure hpc hmemory hcovers hyields
  have hshows := shows_finish hsteps hmachine
  have hanswer : (ready.finish outcome).2 = .ok (ending.result code.program.size cost last) := by
    rw [hshows.answer_eq]
    cases ending with
    | finished => rfl
    | aborted position failure => rfl
    | interrupted position value => cases hending
  obtain ⟨fuel, hrun⟩ := (run_eq_some_iff_of_load hsafe hload _).mpr ⟨outcome, hends, rfl⟩
  refine ⟨fuel, (ready.finish outcome).1, ?_, hshows.tape_eq, ?_, hshows.output_eq hdrain⟩
  · rw [hrun, ← hanswer]
  · exact (unread_absorb ((follows_machine ready).ends hcode hends)).trans
      (congrArg Memory.input hmachine.memory_eq)

/-- The store with which an evaluation begins. -/
def Store.fresh (config : Config) (data : List UInt8) : Store where
  tape := .clear config.tapeSize
  pointer := 0
  pointer_lt := by
    rw [Tape.clear, Array.size_replicate]
    exact config.tapeSize_pos
  input := .ofBytes data
  output := #[]

theorem Store.cell_fresh (config : Config) (data : List UInt8) : (fresh config data).cell = 0 := by
  simp [cell, fresh, Tape.clear]

theorem Store.tape_holding_fresh (config : Config) (data : List UInt8) (value : UInt8)
    (input : Feed) (output : Array UInt8) :
    ((fresh config data).holding value input output).tape =
      (Tape.clear config.tapeSize).setIfInBounds 0 value := by
  have hplace : 0 < (Tape.clear config.tapeSize).size := (fresh config data).pointer_lt
  rw [Array.setIfInBounds, dif_pos hplace]
  rfl

namespace Evaluation

/-- The session in which an evaluation runs its program. -/
def session (config : Config) : Session := .new config Devices.empty.addDrain.1

/-- The sink to which an evaluation writes. -/
def sink : Output := .sink ⟨.buffer, Devices.empty.addDrain.2⟩

/-- The evaluation of a program comes to an end: with so much time as it needs, and never in another
way. It leaves some of what it was given unread. -/
structure Ends (listing : Listing) (input : Input) (options : RunOptions) (config : Config)
    (e : Evaluation) (unread : Feed) : Prop where
  terminates : ∃ fuel ended, ofListing fuel listing input options = some (.ok e) ∧
    (session config).run fuel listing input sink = some (ended, .ok e.result) ∧
    ended.unread = unread
  unique : ∀ fuel answer, ofListing fuel listing input options = some answer → answer = .ok e

variable {options : RunOptions} {config : Config} {listing : Listing} {input : Input}
  {data : List UInt8} {block : Block} {last : Store} {cost : ℕ} {ending : Ending}

theorem ofListing_eq (hconfig : options.config = .ok config) (fuel : ℕ) (listing : Listing)
    (input : Input) :
    ofListing fuel listing input options =
      ((session config).run fuel listing input sink).map fun ended ↦ ended.2.map fun result ↦
        ⟨(ended.1.devices.received 0).bytes, result, ended.1.engine.tape⟩ := by
  unfold ofListing
  rw [hconfig]
  exact onEngine_eq fuel config listing input

theorem sound_session (config : Config) : (session config).engine.Sound config := .new config _

/-- An accepted program is ready to run over what it is given, on a tape of zeros. -/
theorem exists_ready (code : Code) (hlisting : listing.toProgram = .ok code.program)
    (hbuild : BracketIndex.build code.program = .ok code.index)
    (hinput : input.Holds (session config).devices data) :
    ∃ ready, (session config).load listing input sink = (ready, .ok (.ok code)) ∧
      ready.machine.memory = (Store.fresh config data).memory ∧
      ready.engine.sink.drain = 0 ∧ 0 < ready.devices.drains.size := by
  have hblank : Devices.empty.addDrain.1.Blank := Devices.blank_addDrain rfl
  have hdrains : (session config).devices.drains = #[⟨#[], 0⟩, ⟨#[], 0⟩] :=
    Session.drains_new hblank config
  have hsink : sink.Exists (session config).devices := by
    change 0 < (session config).devices.drains.size
    simp [hdrains]
  obtain ⟨devices, source, hload, hpending, hdrain, hlt, hbefore⟩ :=
    Session.exists_ready code hlisting hbuild hinput hsink
  refine ⟨_, hload, ?_, hdrain, hlt⟩
  obtain ⟨htape, hpointer⟩ : (session config).BeginsFresh config.tapeSize :=
    Session.beginsFresh_new config _
  have hreceived : ((session config).devices.received 0).bytes = #[] := by
    simp [Devices.received, hdrains]
  rw [Session.start_memory, htape, hpointer, hpending, hbefore]
  exact congrArg (Memory.mk _ _ _) hreceived

/-- The evaluation of a program ends as the tree of the program does. -/
theorem ends_of_yields (code : Code) (hconfig : options.config = .ok config)
    (hlisting : listing.toProgram = .ok code.program)
    (hbuild : BracketIndex.build code.program = .ok code.index)
    (hcovers : block.Covers code.program.chars.toList 0 code.program.size)
    (hinput : input.Holds (session config).devices data)
    (hyields : Yields (.block block) (.fresh config data) cost last ending)
    (hending : ending.answer = .ok ()) :
    Ends listing input options config
      ⟨last.output, ending.result code.program.size cost last, last.tape⟩ last.input := by
  obtain ⟨ready, hload, hmemory, hdrain, hlt⟩ := exists_ready code hlisting hbuild hinput
  obtain ⟨fuel, next, hrun, htape, hunread, hwritten⟩ :=
    Session.exists_run_of_yields (sound_session config) hload hcovers hmemory
      (by rwa [hdrain]) hyields hending
  rw [hdrain] at hwritten
  have hanswer : ofListing fuel listing input options =
      some (.ok ⟨last.output, ending.result code.program.size cost last, last.tape⟩) := by
    rw [ofListing_eq hconfig, hrun, ← htape, ← hwritten]
    rfl
  refine ⟨⟨fuel, next, hanswer, hrun, hunread⟩, fun bound answer hother ↦ ?_⟩
  rw [ofListing_eq hconfig] at hanswer hother
  obtain ⟨ended, hended, rfl⟩ := Option.map_eq_some_iff.mp hother
  rw [Session.run_unique (sound_session config) hrun hended] at hrun
  rw [hrun, Option.map_some] at hanswer
  exact Option.some.inj hanswer

end Evaluation

/-! ### Copies -/

namespace Text

/-- A text with one byte for each character is read back from its bytes. -/
theorem decodeLatin1_of_narrow {text : List Char} (h : ∀ c ∈ text, c.toNat ≤ 255) :
    decodeLatin1 (text.map fun c ↦ UInt8.ofNat c.toNat) = text := by
  rw [decodeLatin1, List.map_map]
  conv_rhs => rw [← List.map_id text]
  refine List.map_congr_left fun c hc ↦ ?_
  rw [Function.comp_apply, toNat_byte_of_narrow (h c hc), Char.ofNat_toNat]
  rfl

/-- Only the byte zero stands for the character zero. -/
theorem takeWhile_decodeLatin1 (bytes : List UInt8) :
    (decodeLatin1 bytes).takeWhile (· ≠ '\x00') = decodeLatin1 (bytes.takeWhile (· ≠ 0)) := by
  have hzero (b : UInt8) : Char.ofNat b.toNat ≠ '\x00' ↔ b ≠ 0 := by
    rw [not_iff_not, ← Char.toNat_inj, toNat_ofNat_byte, ← UInt8.toNat_inj]
    rfl
  rw [decodeLatin1, List.takeWhile_map]
  simp only [Function.comp_def, hzero]
  rfl

end Text

namespace Bundled

/-- The copying program with its brackets. -/
def catCode : Code := ⟨Program.ofText cat, ⟨#[none, some 4, none, none, some 1]⟩⟩

theorem build_cat : BracketIndex.build catCode.program = .ok catCode.index := by decide +kernel

theorem covers_cat :
    catBlock.Covers catCode.program.chars.toList 0 catCode.program.size :=
  .char rfl (by decide) (by decide)
    (.loop rfl
      (.char rfl (by decide) (by decide) (.char rfl (by decide) (by decide) (.empty 4))) rfl
      (.empty 5))

/-- An evaluation on a tape of `size` cells has copied the bytes that come before the first zero.
If there is a zero, all is well and the bytes behind it have not been read. If there is none, the
program has asked for one more byte, with the last one still in its cell. -/
structure Copied (size : ℕ) (data : List UInt8) (e : Evaluation) (unread : Feed) : Prop where
  output_eq : e.output = (data.takeWhile (· ≠ 0)).toArray
  text_eq : e.text = String.ofList (Text.decodeLatin1 (data.takeWhile (· ≠ 0)))
  of_zero : 0 ∈ data →
    e.result = ⟨none, 5, 0, 3 * (data.takeWhile (· ≠ 0)).length + 2⟩ ∧ e.tape = .clear size ∧
      (data.takeWhile (· ≠ 0)).length < data.length ∧
      unread = .ofBytes (data.drop ((data.takeWhile (· ≠ 0)).length + 1))
  of_no_zero : 0 ∉ data →
    e.result = ⟨some (.inputExhausted 0), if data = [] then 0 else 3, 0, 3 * data.length⟩ ∧
      e.output = data.toArray ∧
      e.tape = (Tape.clear size).setIfInBounds 0 (data.getLast?.getD 0) ∧ unread = []

variable {options : RunOptions} {config : Config} {input : Input} {data front : List UInt8}
  {size : ℕ} {e : Evaluation}

theorem copied_up_to_zero (hfront : 0 ∉ front) (rest : List UInt8)
    (houtput : e.output = front.toArray) (hresult : e.result = ⟨none, 5, 0, 3 * front.length + 2⟩)
    (htape : e.tape = .clear size) : Copied size (front ++ 0 :: rest) e (.ofBytes rest) := by
  have htake : (front ++ 0 :: rest).takeWhile (· ≠ 0) = front := by
    rw [List.takeWhile_append_of_pos, List.takeWhile_cons_of_neg (by decide), List.append_nil]
    intro b hb
    exact decide_eq_true (ne_of_mem_of_not_mem hb hfront)
  have hzero : 0 ∈ front ++ 0 :: rest := List.mem_append_cons_self
  constructor
  · rw [htake, houtput]
  · rw [htake, Evaluation.text, houtput]
  · intro _
    rw [htake, hresult, htape]
    refine ⟨rfl, rfl, ?_, ?_⟩
    · rw [List.length_append, List.length_cons]
      omega
    · rw [List.drop_length_add_append, List.drop_succ_cons, List.drop_zero]
  · exact fun hnot ↦ absurd hzero hnot

theorem copied_up_to_end (hzero : 0 ∉ data) (houtput : e.output = data.toArray)
    (hresult : e.result =
      ⟨some (.inputExhausted 0), if data = [] then 0 else 3, 0, 3 * data.length⟩)
    (htape : e.tape = (Tape.clear size).setIfInBounds 0 (data.getLast?.getD 0)) :
    Copied size data e [] := by
  have htake : data.takeWhile (· ≠ 0) = data := by
    rw [List.takeWhile_eq_self_iff]
    intro b hb
    exact decide_eq_true (ne_of_mem_of_not_mem hb hzero)
  constructor
  · rw [htake, houtput]
  · rw [htake, Evaluation.text, houtput]
  · exact fun hmem ↦ absurd hmem hzero
  · exact fun _ ↦ ⟨hresult, houtput, htape, rfl⟩

/-- The program copies what it is given, whatever holds it. -/
theorem exists_copied (hconfig : options.config = .ok config)
    (hinput : input.Holds (Evaluation.session config).devices data) :
    ∃ e unread, Evaluation.Ends (.given (.text cat)) input options config e unread ∧
      Copied config.tapeSize data e unread := by
  have htape := Store.tape_holding_fresh config data
  by_cases hzero : 0 ∈ data
  · obtain ⟨front, rest, rfl, hfront⟩ := List.eq_append_cons_of_mem hzero
    have hyields := yields_cat_up_to_zero (s := .fresh config (front ++ 0 :: rest)) hfront rfl
    have hclear : (Tape.clear config.tapeSize).setIfInBounds 0 0 = Tape.clear config.tapeSize := by
      simp [Tape.clear]
    exact ⟨_, _, Evaluation.ends_of_yields catCode hconfig rfl build_cat covers_cat hinput hyields
      rfl, copied_up_to_zero hfront rest Array.empty_append rfl ((htape _ _ _).trans hclear)⟩
  · -- Without any byte the cell is as it was, which is why the zero of the tape comes in.
    have hyields := yields_cat_up_to_end (s := .fresh config data) hzero rfl
    rw [Store.cell_fresh] at hyields
    have hposition : ((if data = [] then 0 else 3 : ℕ) : ℤ) = if data = [] then 0 else 3 := by
      split_ifs <;> rfl
    exact ⟨_, _, Evaluation.ends_of_yields catCode hconfig rfl build_cat covers_cat hinput hyields
      rfl, copied_up_to_end hzero Array.empty_append (congrArg (RunResult.mk _ · _ _) hposition)
        (htape _ _ _)⟩

/-- The copying program is correct for every input, whatever the number of cells and by either
strategy. It comes to an end, and has copied the bytes in front of the first zero, or all of them. A
text that fits into bytes is given back up to its first zero character. -/
theorem cat_copies_up_to_a_zero :
    (∀ (size : ℕ) (hsize : 0 < size) (quick : Bool),
      RunOptions.config ⟨.int size, some quick⟩ = .ok ⟨size, hsize, false, quick⟩) ∧
    ∀ (options : RunOptions) (config : Config), options.config = .ok config →
      (∀ data : List UInt8, ∃ e unread,
        Evaluation.Ends (.given (.text cat)) (.bytes data) options config e unread ∧
        Copied config.tapeSize data e unread) ∧
      ∀ text : String, (∀ c ∈ text.toList, c.toNat ≤ 255) → ∃ e unread,
        Evaluation.Ends (.given (.text cat)) (.text text) options config e unread ∧
        Copied config.tapeSize (text.toList.map fun c ↦ UInt8.ofNat c.toNat) e unread ∧
        e.text = String.ofList (text.toList.takeWhile (· ≠ '\x00')) := by
  constructor
  · intro size hsize quick
    exact dif_pos hsize
  · intro options config hconfig
    refine ⟨fun data ↦ exists_copied hconfig .bytes, fun text hnarrow ↦ ?_⟩
    have hdecoded := Text.decodeLatin1_of_narrow hnarrow
    have htext : text = String.ofList
        (Text.decodeLatin1 (text.toList.map fun c ↦ UInt8.ofNat c.toNat)) := by
      rw [hdecoded, String.ofList_toList]
    obtain ⟨e, unread, hends, hcopied⟩ := exists_copied hconfig .text
    rw [← htext] at hends
    refine ⟨e, unread, hends, hcopied, ?_⟩
    rw [hcopied.text_eq, ← Text.takeWhile_decodeLatin1, hdecoded]

/-- With one cell and step by step, two bytes in front of a zero are copied, and a text of two
characters without a zero is given back before the program fails. -/
theorem cat_copies_up_to_a_zero_in_one_cell :
    let config : Config := ⟨1, by decide, false, false⟩
    let options : RunOptions := ⟨.int 1, some false⟩
    options.config = .ok config ∧
    (∃ e, Evaluation.Ends (.given (.text cat)) (.bytes [104, 105, 0, 7]) options config e
        [some 7] ∧
      e.output = #[104, 105] ∧ e.result = ⟨none, 5, 0, 8⟩ ∧ e.tape = #[0]) ∧
    (∀ c ∈ "ré".toList, c.toNat ≤ 255) ∧
    ∃ e, Evaluation.Ends (.given (.text cat)) (.text "ré") options config e [] ∧
      e.text = "ré" ∧ e.result = ⟨some (.inputExhausted 0), 3, 0, 6⟩ ∧ e.tape = #[233] := by
  intro config options
  have hconfig : options.config = .ok config := cat_copies_up_to_a_zero.1 1 (by decide) false
  have hchars : "ré".toList = ['r', 'é'] := rfl
  have hnarrow : ∀ c ∈ "ré".toList, c.toNat ≤ 255 := by simp [hchars]
  obtain ⟨hbytes, htext⟩ := cat_copies_up_to_a_zero.2 options config hconfig
  obtain ⟨e, unread, hends, hcopied⟩ := hbytes [104, 105, 0, 7]
  obtain ⟨hresult, htape, -, hunread⟩ := hcopied.of_zero (by decide)
  obtain ⟨e', unread', hends', hcopied', hgiven⟩ := htext "ré" hnarrow
  obtain ⟨hresult', -, htape', hunread'⟩ := hcopied'.of_no_zero (by decide)
  subst hunread hunread'
  refine ⟨hconfig, ⟨e, hends, hcopied.output_eq, hresult, htape⟩, hnarrow, e', hends', ?_, ?_, ?_⟩
  · rw [hgiven]
    decide
  · rw [hresult']
    decide
  · rw [htape']
    decide

end Bundled

end TapeMachine
