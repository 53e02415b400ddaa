import TapeMachine.Proofs.Parsing
import TapeMachine.Proofs.Safety

/-!
Loops without jumps. A tree of characters and loops has a meaning that knows neither positions to
jump to nor partners of brackets: characters are carried out one after another, and a loop repeats
its body while the current cell is not zero (`Yields`). The meaning counts its cost, one for each
character carried out, one for the opening bracket of a loop and one for the closing bracket after
each round.

The machine with its position and its jumps has exactly this meaning. From the start of a block it
moves to where the meaning ends, at the same cost (`Yields.carriesOut`). Conversely the clock of a
run that ends bounds the meaning, so a block from which the machine comes to an end has a meaning
(`exists_yields`). An engine therefore ends a run exactly if the tree of its program has a meaning,
and shows just that (`Session.Shows`).
-/

set_option autoImplicit false
set_option relaxedAutoImplicit false

namespace TapeMachine

open StateTransition Matching

/-! ### The meaning of a tree -/

/-- What characters work on: a tape with a pointer on it, the answers still to come and the bytes
written. -/
structure Store where
  tape : Tape
  pointer : ℕ
  pointer_lt : pointer < tape.size
  input : Feed
  output : Array UInt8

/-- How a tree ends: all of it has been carried out, the character at a position has failed, or the
value that it has read is no byte. -/
inductive Ending where
  | finished
  | aborted (position : ℕ) (failure : Failure)
  | interrupted (position : ℕ) (value : ℤ)

namespace Store

/-- The value of the current cell. -/
def cell (s : Store) : UInt8 :=
  have := s.pointer_lt
  s.tape[s.pointer]

/-- The store with another value in the current cell. -/
def put (s : Store) (value : UInt8) : Store :=
  { s with
    tape := s.tape.set s.pointer value s.pointer_lt
    pointer_lt := by rw [Array.size_set]; exact s.pointer_lt }

/-- Reads one value into the current cell. -/
def take (s : Store) (position : ℕ) : Store × Ending :=
  match s.input with
  | [] => (s, .aborted position (.inputExhausted s.pointer))
  | none :: rest => ({ s with input := rest }, .aborted position (.inputExhausted s.pointer))
  | some value :: rest =>
    if 0 ≤ value ∧ value < 256 then
      ({ s with input := rest }.put (UInt8.ofNat value.toNat), .finished)
    else ({ s with input := rest }, .interrupted position value)

/-- Carries out the character at a position. Bytes wrap around, and a character that stands for
nothing does nothing. -/
def act (s : Store) (position : ℕ) (c : Char) : Store × Ending :=
  if c = '+' then (s.put (s.cell + 1), .finished)
  else if c = '-' then (s.put (s.cell - 1), .finished)
  else if c = '<' then
    if s.pointer = 0 then (s, .aborted position (.outOfBounds s.pointer .left))
    else
      ({ s with
          pointer := s.pointer - 1
          pointer_lt := Nat.lt_of_le_of_lt (Nat.sub_le _ _) s.pointer_lt }, .finished)
  else if c = '>' then
    if hright : s.pointer + 1 < s.tape.size then
      ({ s with pointer := s.pointer + 1, pointer_lt := hright }, .finished)
    else (s, .aborted position (.outOfBounds s.pointer .right))
  else if c = ',' then s.take position
  else if c = '.' then ({ s with output := s.output.push s.cell }, .finished)
  else (s, .finished)

end Store

/-- What is to be carried out: a block, or the rounds of a loop from the test of its cell on. -/
inductive Task where
  | block (block : Block)
  | rounds (body : Block)

/-- From the first store the task ends as told, at the given cost, and leaves the second store. -/
inductive Yields : Task → Store → ℕ → Store → Ending → Prop
  | empty (s : Store) : Yields (.block .empty) s 0 s .finished
  | char {position cost : ℕ} {c : Char} {rest : Block} {s middle last : Store} {ending : Ending}
      (hact : s.act position c = (middle, .finished))
      (hrest : Yields (.block rest) middle cost last ending) :
      Yields (.block (.char position c rest)) s (1 + cost) last ending
  | charStops {position : ℕ} {c : Char} {rest : Block} {s last : Store} {ending : Ending}
      (hact : s.act position c = (last, ending)) (hending : ending ≠ .finished) :
      Yields (.block (.char position c rest)) s 0 last ending
  | loop {position cost more : ℕ} {body rest : Block} {s middle last : Store} {ending : Ending}
      (hrounds : Yields (.rounds body) s cost middle .finished)
      (hrest : Yields (.block rest) middle more last ending) :
      Yields (.block (.loop position body rest)) s (1 + cost + more) last ending
  | loopStops {position cost : ℕ} {body rest : Block} {s last : Store} {ending : Ending}
      (hrounds : Yields (.rounds body) s cost last ending) (hending : ending ≠ .finished) :
      Yields (.block (.loop position body rest)) s (1 + cost) last ending
  | noRound {body : Block} {s : Store} (hzero : s.cell = 0) :
      Yields (.rounds body) s 0 s .finished
  | round {cost more : ℕ} {body : Block} {s middle last : Store} {ending : Ending}
      (hnonzero : s.cell ≠ 0) (hbody : Yields (.block body) s cost middle .finished)
      (hmore : Yields (.rounds body) middle more last ending) :
      Yields (.rounds body) s (cost + 1 + more) last ending
  | roundStops {cost : ℕ} {body : Block} {s last : Store} {ending : Ending}
      (hnonzero : s.cell ≠ 0) (hbody : Yields (.block body) s cost last ending)
      (hending : ending ≠ .finished) : Yields (.rounds body) s cost last ending

/-! ### Characters and commands -/

/-- What becomes of the command that ends so. -/
def Ending.work (memory : Memory) : Ending → Work
  | .finished => .done memory
  | .aborted _ failure => .fails memory failure
  | .interrupted _ value => .faults memory (.ofByte value)

namespace Store

/-- The store as a memory of the machine. -/
def memory (s : Store) : Memory := ⟨s.tape, s.pointer, s.input, s.output⟩

theorem memory_inRange (s : Store) : s.memory.InRange :=
  ⟨Int.natCast_nonneg _, Int.ofNat_lt.mpr s.pointer_lt⟩

theorem memory_put (s : Store) (value : UInt8) :
    (s.put value).memory =
      { s.memory with tape := s.tape.setIfInBounds s.pointer value } := by
  unfold memory put
  rw [Array.setIfInBounds, dif_pos s.pointer_lt]

/-- The command `,` reads as told. -/
theorem work_read (s : Store) (position : ℕ) :
    s.memory.work .read = (s.take position).2.work (s.take position).1.memory := by
  obtain ⟨tape, pointer, pointer_lt, input, output⟩ := s
  cases input with
  | nil => rfl
  | cons answer rest =>
    cases answer with
    | none => rfl
    | some value =>
      let s : Store := ⟨tape, pointer, pointer_lt, rest, output⟩
      change s.memory.deposit value = _
      unfold take
      by_cases hvalue : 0 ≤ value ∧ value < 256
      · rw [Memory.deposit_eq rfl pointer_lt hvalue]
        simp only [if_pos hvalue]
        exact congrArg Work.done (s.memory_put _).symm
      · rw [Memory.deposit_eq_faults s.memory_inRange hvalue]
        simp only [if_neg hvalue]
        rfl

/-- A character that is no bracket does to the store what its command does to the memory. -/
theorem work_eq_act (s : Store) (position : ℕ) {c : Char} (hopen : c ≠ '[') (hclose : c ≠ ']') :
    s.memory.work (Command.ofChar c) =
      (s.act position c).2.work (s.act position c).1.memory := by
  unfold Command.ofChar act
  split_ifs with hplus hminus hleft hstart hright hend hcomma hdot
  · rw [Memory.work_increment rfl s.pointer_lt]
    exact congrArg Work.done (s.memory_put _).symm
  · rw [Memory.work_decrement rfl s.pointer_lt]
    exact congrArg Work.done (s.memory_put _).symm
  · exact if_pos (congrArg Nat.cast hstart)
  · have hnonzero : s.memory.pointer ≠ 0 := Int.natCast_ne_zero.mpr hstart
    have hpred : s.memory.pointer - 1 = (s.pointer - 1 : ℕ) := by
      change (s.pointer : ℤ) - 1 = _
      omega
    simp only [Memory.work]
    rw [if_neg hnonzero, hpred]
    rfl
  · have hinside : s.memory.pointer + 1 ≠ s.memory.tape.size := by
      change (s.pointer : ℤ) + 1 ≠ s.tape.size
      omega
    simp only [Memory.work]
    rw [if_neg hinside]
    rfl
  · have hlast : s.memory.pointer + 1 = s.memory.tape.size := by
      have hlt := s.pointer_lt
      change (s.pointer : ℤ) + 1 = s.tape.size
      omega
    simp only [Memory.work]
    rw [if_pos hlast]
    rfl
  · exact s.work_read position
  · exact Memory.withCell_eq rfl s.pointer_lt _
  · rfl

/-- An opening bracket jumps over its loop if the cell is zero. -/
theorem work_loopStart (s : Store) :
    s.memory.work .loopStart = if s.cell = 0 then .jump else .done s.memory :=
  Memory.withCell_eq rfl s.pointer_lt _

/-- A closing bracket jumps back into its loop unless the cell is zero. -/
theorem work_loopEnd (s : Store) :
    s.memory.work .loopEnd = if s.cell = 0 then .done s.memory else .jump :=
  Memory.withCell_eq rfl s.pointer_lt _

end Store

/-! ### The machine along a tree -/

/-- Where a bracket of a loop goes on: behind the loop if the cell is zero, and else in its body. -/
def Store.branch (s : Store) (opening closing : ℕ) : ℕ :=
  if s.cell = 0 then closing + 1 else opening + 1

namespace Machine

/-- The machine with a store, at a position, after a number of further commands. -/
def place (m : Machine) (s : Store) (position cost : ℕ) : Machine :=
  { m.setMemory s.memory with pc := position, steps := m.steps + cost }

variable {code : Code} {m : Machine} {s last : Store} {position opening closing : ℕ} {c : Char}

theorem running_place (hfailure : m.failure = none)
    (hc : code.program.chars.toList[position]? = some c) (s : Store) (cost : ℕ) :
    (m.place s position cost).halted code = false := by
  have hlt : position < code.program.chars.toList.length := (List.getElem?_eq_some_iff.mp hc).1
  rw [Array.length_toList] at hlt
  have hplaced : (m.place s position cost).failure = none := hfailure
  exact (halted_eq_false_iff hplaced).mpr (Int.ofNat_lt.mpr hlt)

theorem move_place (hfailure : m.failure = none)
    (hc : code.program.chars.toList[position]? = some c) (s : Store) (cost : ℕ) :
    (m.place s position cost).move code =
      match s.memory.work (Command.ofChar c) with
      | .done after => some ((m.place s position cost).goOn after (position + 1))
      | .jump => (code.index.partner? position).map fun other ↦
          (m.place s position cost).goOn s.memory (other + 1)
      | .fails _ _ => none
      | .faults _ _ => none :=
  move_eq (running_place hfailure hc s cost) (get?_natCast hc)

/-- A character that is carried out is a move to the next position. -/
theorem move_char (hfailure : m.failure = none)
    (hc : code.program.chars.toList[position]? = some c) (hopen : c ≠ '[') (hclose : c ≠ ']')
    (hact : s.act position c = (last, .finished)) (cost : ℕ) :
    (m.place s position cost).move code = some (m.place last (position + 1) (cost + 1)) := by
  rw [move_place hfailure hc, s.work_eq_act position hopen hclose, hact]
  rfl

/-- A character that is not carried out ends the moves. -/
theorem move_char_stops {ending : Ending} (hfailure : m.failure = none)
    (hc : code.program.chars.toList[position]? = some c) (hopen : c ≠ '[') (hclose : c ≠ ']')
    (hact : s.act position c = (last, ending)) (hending : ending ≠ .finished) (cost : ℕ) :
    (m.place s position cost).move code = none := by
  rw [move_place hfailure hc, s.work_eq_act position hopen hclose, hact]
  cases ending with
  | finished => exact absurd rfl hending
  | aborted position failure => rfl
  | interrupted position value => rfl

theorem move_opening (hbuilt : BracketIndex.build code.program = .ok code.index)
    (hfailure : m.failure = none) (hpair : Pairs code.program.chars.toList opening closing)
    (s : Store) (cost : ℕ) :
    (m.place s opening cost).move code =
      some (m.place s (s.branch opening closing) (cost + 1)) := by
  have hwork : s.memory.work (Command.ofChar '[') = _ := s.work_loopStart
  rw [move_place hfailure hpair.opens, hwork, partner?_opening hbuilt hpair]
  unfold Store.branch
  by_cases hzero : s.cell = 0
  · simp only [if_pos hzero]
    rfl
  · simp only [if_neg hzero]
    rfl

theorem move_closing (hbuilt : BracketIndex.build code.program = .ok code.index)
    (hfailure : m.failure = none) (hpair : Pairs code.program.chars.toList opening closing)
    (s : Store) (cost : ℕ) :
    (m.place s closing cost).move code =
      some (m.place s (s.branch opening closing) (cost + 1)) := by
  have hwork : s.memory.work (Command.ofChar ']') = _ := s.work_loopEnd
  rw [move_place hfailure hpair.closes, hwork, partner?_closing hbuilt hpair]
  unfold Store.branch
  by_cases hzero : s.cell = 0
  · simp only [if_pos hzero]
    rfl
  · simp only [if_neg hzero]
    rfl

end Machine

/-! ### A meaning is a run -/

/-- Moves from `start` lead to where a task ends: to position `finish` if all of it is carried out,
and else to the character that is not. -/
def Leads (code : Code) (m start : Machine) (finish cost : ℕ) (last : Store) (ending : Ending) :
    Prop :=
  (ending = .finished ∧ Reaches (Machine.move code) start (m.place last finish cost)) ∨
  (ending ≠ .finished ∧ ∃ s position c, code.program.chars.toList[position]? = some c ∧
    c ≠ '[' ∧ c ≠ ']' ∧ s.act position c = (last, ending) ∧
    Reaches (Machine.move code) start (m.place s position cost))

theorem Leads.of_reaches {code : Code} {m start next : Machine} {finish cost : ℕ} {last : Store}
    {ending : Ending} (hreach : Reaches (Machine.move code) start next)
    (h : Leads code m next finish cost last ending) :
    Leads code m start finish cost last ending := by
  rcases h with ⟨hending, hnext⟩ | ⟨hending, s, position, c, hc, hopen, hclose, hact, hnext⟩
  · exact .inl ⟨hending, hreach.trans hnext⟩
  · exact .inr ⟨hending, s, position, c, hc, hopen, hclose, hact, hreach.trans hnext⟩

theorem Leads.reaches {code : Code} {m start : Machine} {finish cost : ℕ} {last : Store}
    (h : Leads code m start finish cost last .finished) :
    Reaches (Machine.move code) start (m.place last finish cost) := by
  rcases h with ⟨-, hreach⟩ | ⟨hending, -⟩
  · exact hreach
  · exact absurd rfl hending

/-- A task that stops short does not depend on where it would have finished. -/
theorem Leads.of_stops {code : Code} {m start : Machine} {finish cost : ℕ} {last : Store}
    {ending : Ending} (h : Leads code m start finish cost last ending)
    (hending : ending ≠ .finished) (other : ℕ) :
    Leads code m start other cost last ending := by
  rcases h with ⟨hfinished, -⟩ | hstops
  · exact absurd hfinished hending
  · exact .inr hstops

/-- What the machine does for a task: it carries out a block from where the block begins, and the
rounds of a loop from where one of its brackets goes on. -/
def CarriesOut (code : Code) (m : Machine) :
    Task → Store → ℕ → Store → Ending → Prop
  | .block block, s, cost, last, ending => ∀ first finish spent,
    block.Covers code.program.chars.toList first finish →
      Leads code m (m.place s first spent) finish (spent + cost) last ending
  | .rounds body, s, cost, last, ending => ∀ opening closing spent,
    code.program.chars.toList[opening]? = some '[' →
      body.Covers code.program.chars.toList (opening + 1) closing →
      code.program.chars.toList[closing]? = some ']' →
      Leads code m (m.place s (s.branch opening closing) spent) (closing + 1) (spent + cost) last
        ending

/-- The machine follows the meaning of every task. -/
theorem Yields.carriesOut {code : Code} {m : Machine}
    (hbuilt : BracketIndex.build code.program = .ok code.index) (hfailure : m.failure = none)
    {task : Task} {s last : Store} {cost : ℕ} {ending : Ending}
    (h : Yields task s cost last ending) : CarriesOut code m task s cost last ending := by
  induction h with
  | empty s =>
    intro first finish spent hcovers
    cases hcovers
    exact .inl ⟨rfl, .refl⟩
  | @char position cost c rest s middle last ending hact hrest ih =>
    intro first finish spent hcovers
    cases hcovers with
    | char hc hopen hclose hcovers =>
      rw [← Nat.add_assoc]
      exact (ih _ _ _ hcovers).of_reaches
        (.single (Machine.move_char hfailure hc hopen hclose hact spent))
  | @charStops position c rest s last ending hact hending =>
    intro first finish spent hcovers
    cases hcovers with
    | char hc hopen hclose hcovers =>
      exact .inr ⟨hending, s, position, c, hc, hopen, hclose, hact, .refl⟩
  | @loop position cost more body rest s middle last ending hrounds hrest ihRounds ih =>
    intro first finish spent hcovers
    cases hcovers with
    | loop hopen hbody hclose hcovers =>
      have hmove := Machine.move_opening hbuilt hfailure (hbody.pairs hopen hclose) s spent
      have hleads := ihRounds _ _ (spent + 1) hopen hbody hclose
      rw [← Nat.add_assoc, ← Nat.add_assoc]
      exact (ih _ _ _ hcovers).of_reaches (.head hmove hleads.reaches)
  | @loopStops position cost body rest s last ending hrounds hending ih =>
    intro first finish spent hcovers
    cases hcovers with
    | loop hopen hbody hclose hcovers =>
      have hmove := Machine.move_opening hbuilt hfailure (hbody.pairs hopen hclose) s spent
      have hleads := ih _ _ (spent + 1) hopen hbody hclose
      rw [← Nat.add_assoc]
      exact (hleads.of_stops hending finish).of_reaches (.single hmove)
  | @noRound body s hzero =>
    intro opening closing spent _ _ _
    have hbranch : s.branch opening closing = closing + 1 := if_pos hzero
    rw [hbranch]
    exact .inl ⟨rfl, .refl⟩
  | @round cost more body s middle last ending hnonzero hbody hmore ihBody ih =>
    intro opening closing spent hopen hcovers hclose
    have hbranch : s.branch opening closing = opening + 1 := if_neg hnonzero
    have hround := (ihBody _ _ spent hcovers).reaches
    have hmove := Machine.move_closing hbuilt hfailure (hcovers.pairs hopen hclose) middle
      (spent + cost)
    rw [hbranch, ← Nat.add_assoc, ← Nat.add_assoc]
    exact (ih _ _ _ hopen hcovers hclose).of_reaches (.tail hround hmove)
  | @roundStops cost body s last ending hnonzero hbody hending ih =>
    intro opening closing spent hopen hcovers hclose
    have hbranch : s.branch opening closing = opening + 1 := if_neg hnonzero
    rw [hbranch]
    exact (ih _ _ spent hcovers).of_stops hending (closing + 1)

/-! ### A run that ends is a meaning -/

section

variable {code : Code} {m final : Machine} {bound : ℕ}

/-- Every block from which the machine comes to its end within a number of commands has a
meaning. -/
def BlocksEnd (code : Code) (m final : Machine) (bound : ℕ) : Prop :=
  ∀ (block : Block) (first finish : ℕ) (s : Store) (spent : ℕ),
    block.Covers code.program.chars.toList first finish →
    final ∈ eval (Machine.move code) (m.place s first spent) →
    final.steps < m.steps + spent + bound →
    ∃ cost last ending, Yields (.block block) s cost last ending

/-- The rounds of every loop have a meaning if the machine comes to its end within a number of
commands from where a bracket of the loop goes on. -/
def RoundsEnd (code : Code) (m final : Machine) (bound : ℕ) : Prop :=
  ∀ (body : Block) (opening closing : ℕ) (s : Store) (spent : ℕ),
    code.program.chars.toList[opening]? = some '[' →
    body.Covers code.program.chars.toList (opening + 1) closing →
    code.program.chars.toList[closing]? = some ']' →
    final ∈ eval (Machine.move code) (m.place s (s.branch opening closing) spent) →
    final.steps < m.steps + spent + bound →
    ∃ cost last ending, Yields (.rounds body) s cost last ending

/-- The end of a run is the end of the run from every machine on the way. -/
theorem mem_eval_of_reaches {start next : Machine}
    (hfinal : final ∈ eval (Machine.move code) start)
    (hreach : Reaches (Machine.move code) start next) :
    final ∈ eval (Machine.move code) next := by
  rw [← reaches_eval hreach]
  exact hfinal

/-- The first character or bracket of a block costs a command, which leaves a smaller bound for
what comes behind it. -/
theorem BlocksEnd.succ (hbuilt : BracketIndex.build code.program = .ok code.index)
    (hfailure : m.failure = none) (hblocks : BlocksEnd code m final bound)
    (hrounds : RoundsEnd code m final bound) : BlocksEnd code m final (bound + 1) := by
  intro block first finish s spent hcovers hfinal hsteps
  cases hcovers with
  | empty => exact ⟨0, s, .finished, .empty s⟩
  | @char _ _ c rest hc hopen hclose hrest =>
    obtain ⟨⟨middle, ending⟩, hact⟩ : ∃ after, s.act first c = after := ⟨_, rfl⟩
    by_cases hending : ending = .finished
    · subst hending
      have hmove := Machine.move_char hfailure hc hopen hclose hact spent
      obtain ⟨cost, last, ending, hyields⟩ := hblocks rest _ _ middle (spent + 1) hrest
        (mem_eval_of_reaches hfinal (.single hmove)) (by omega)
      exact ⟨1 + cost, last, ending, .char hact hyields⟩
    · exact ⟨0, middle, ending, .charStops hact hending⟩
  | @loop _ closing _ body rest hopen hbody hclose hrest =>
    have hmove := Machine.move_opening hbuilt hfailure (hbody.pairs hopen hclose) s spent
    have hbranch := mem_eval_of_reaches hfinal (.single hmove)
    obtain ⟨cost, middle, ending, hloop⟩ := hrounds body _ _ s (spent + 1) hopen hbody hclose
      hbranch (by omega)
    by_cases hending : ending = .finished
    · subst hending
      have hleads := hloop.carriesOut hbuilt hfailure _ _ (spent + 1) hopen hbody hclose
      obtain ⟨more, last, ending, hyields⟩ := hblocks rest _ _ middle (spent + 1 + cost) hrest
        (mem_eval_of_reaches hbranch hleads.reaches) (by omega)
      exact ⟨1 + cost + more, last, ending, .loop hloop hyields⟩
    · exact ⟨1 + cost, middle, ending, .loopStops hloop hending⟩

/-- The closing bracket after a round costs a command, which leaves a smaller bound for the further
rounds. -/
theorem RoundsEnd.succ (hbuilt : BracketIndex.build code.program = .ok code.index)
    (hfailure : m.failure = none) (hblocks : BlocksEnd code m final (bound + 1))
    (hrounds : RoundsEnd code m final bound) : RoundsEnd code m final (bound + 1) := by
  intro body opening closing s spent hopen hbody hclose hfinal hsteps
  by_cases hzero : s.cell = 0
  · exact ⟨0, s, .finished, .noRound hzero⟩
  · have hbranch : s.branch opening closing = opening + 1 := if_neg hzero
    rw [hbranch] at hfinal
    obtain ⟨cost, middle, ending, hround⟩ := hblocks body _ _ s spent hbody hfinal hsteps
    by_cases hending : ending = .finished
    · subst hending
      have hleads := hround.carriesOut hbuilt hfailure _ _ spent hbody
      have hmove := Machine.move_closing hbuilt hfailure (hbody.pairs hopen hclose) middle
        (spent + cost)
      obtain ⟨more, last, ending, hyields⟩ := hrounds body _ _ middle (spent + cost + 1) hopen
        hbody hclose (mem_eval_of_reaches hfinal (.tail hleads.reaches hmove)) (by omega)
      exact ⟨cost + 1 + more, last, ending, .round hzero hround hyields⟩
    · exact ⟨cost, middle, ending, .roundStops hzero hround hending⟩

theorem blocksEnd_and_roundsEnd (hbuilt : BracketIndex.build code.program = .ok code.index)
    (hfailure : m.failure = none) (bound : ℕ) :
    BlocksEnd code m final bound ∧ RoundsEnd code m final bound := by
  induction bound with
  | zero =>
    -- No run ends before it has begun.
    have hclock {s : Store} {position spent : ℕ}
        (hfinal : final ∈ eval (Machine.move code) (m.place s position spent)) :
        m.steps + spent ≤ final.steps :=
      Machine.steps_le_of_reaches (mem_eval.mp hfinal).1
    constructor
    · intro block first finish s spent _ hfinal hsteps
      have hle := hclock hfinal
      omega
    · intro body opening closing s spent _ _ _ hfinal hsteps
      have hle := hclock hfinal
      omega
  | succ bound ih =>
    have hblocks := ih.1.succ hbuilt hfailure ih.2
    exact ⟨hblocks, ih.2.succ hbuilt hfailure hblocks⟩

/-- A block from which the machine comes to an end has a meaning. -/
theorem exists_yields (hbuilt : BracketIndex.build code.program = .ok code.index)
    (hfailure : m.failure = none) {block : Block} {first finish spent : ℕ} {s : Store}
    (hcovers : block.Covers code.program.chars.toList first finish)
    (hfinal : final ∈ eval (Machine.move code) (m.place s first spent)) :
    ∃ cost last ending, Yields (.block block) s cost last ending :=
  (blocksEnd_and_roundsEnd hbuilt hfailure (final.steps + 1)).1 block first finish s spent hcovers
    hfinal (by omega)

end

/-! ### How a run shows the meaning of its tree -/

namespace Ending

/-- Where a run over a text of the given length ends. -/
def position (size : ℕ) : Ending → ℕ
  | .finished => size
  | .aborted position _ => position
  | .interrupted position _ => position

def failure? : Ending → Option Failure
  | .aborted _ failure => some failure
  | _ => none

/-- What the machine answers at the end. -/
def answer : Ending → Except Fault Unit
  | .interrupted _ value => .error (.ofByte value)
  | _ => .ok ()

end Ending

namespace Store

theorem take_position (s : Store) (position size : ℕ) :
    (s.take position).2 = .finished ∨ (s.take position).2.position size = position := by
  unfold take
  split
  · exact .inr rfl
  · exact .inr rfl
  · split_ifs
    · exact .inl rfl
    · exact .inr rfl

/-- A character that is not carried out ends the tree at its own position. -/
theorem act_position (s : Store) (position : ℕ) (c : Char) (size : ℕ) :
    (s.act position c).2 = .finished ∨ (s.act position c).2.position size = position := by
  unfold act
  split_ifs
  · exact .inl rfl
  · exact .inl rfl
  · exact .inr rfl
  · exact .inl rfl
  · exact .inl rfl
  · exact .inr rfl
  · exact s.take_position position size
  · exact .inl rfl
  · exact .inl rfl

end Store

namespace Machine

/-- The end of a run that began with machine `m` is the end of its tree. -/
structure Shows (m : Machine) (size cost : ℕ) (last : Store) (ending : Ending)
    (outcome : Machine × Except Fault Unit) : Prop where
  memory_eq : outcome.1.memory = last.memory
  pc_eq : outcome.1.pc = ending.position size
  steps_eq : outcome.1.steps = m.steps + cost
  failure_eq : outcome.1.failure = ending.failure?
  answer_eq : outcome.2 = ending.answer

variable {code : Code} {m next : Machine} {s last : Store} {position cost : ℕ} {c : Char}

theorem halted_place_size (code : Code) (m : Machine) (s : Store) (cost : ℕ) :
    (m.place s code.program.size cost).halted code = true := by
  simp [halted, place]

theorem shows_conclude (code : Code) (hfailure : m.failure = none) (last : Store) (cost : ℕ) :
    m.Shows code.program.size cost last .finished
      ((m.place last code.program.size cost).conclude code) := by
  rw [conclude_of_halted (halted_place_size code m last cost)]
  exact ⟨rfl, rfl, rfl, hfailure, rfl⟩

theorem shows_conclude_of_stops {ending : Ending} (hfailure : m.failure = none)
    (hc : code.program.chars.toList[position]? = some c) (hopen : c ≠ '[') (hclose : c ≠ ']')
    (hact : s.act position c = (last, ending)) (hending : ending ≠ .finished) (cost : ℕ) :
    m.Shows code.program.size cost last ending ((m.place s position cost).conclude code) := by
  have hrun := running_place hfailure hc s cost
  have hstep : (m.place s position cost).step code =
      (m.place s position cost).settle code (s.memory.work (Command.ofChar c)) :=
    step_eq_settle hrun (get?_natCast hc)
  rw [s.work_eq_act position hopen hclose, hact] at hstep
  have hposition : ending.position code.program.size = position := by
    have hends := s.act_position position c code.program.size
    rw [hact] at hends
    exact hends.resolve_left hending
  unfold conclude
  rw [if_neg (by simp [hrun]), hstep]
  cases ending with
  | finished => exact absurd rfl hending
  | aborted other failure => exact ⟨rfl, congrArg Nat.cast hposition.symm, rfl, rfl, rfl⟩
  | interrupted other value => exact ⟨rfl, congrArg Nat.cast hposition.symm, rfl, hfailure, rfl⟩

theorem eq_of_reaches_of_halted (hhalted : m.halted code = true)
    (hreach : Reaches (move code) m next) : m = next := by
  rcases hreach.cases_head with heq | ⟨middle, hmove, -⟩
  · exact heq
  · rw [move_of_halted hhalted] at hmove
    cases hmove

theorem place_start (hpc : m.pc = 0) (hmemory : m.memory = s.memory) : m.place s 0 0 = m := by
  obtain ⟨tape, pointer, pc, steps, failure, input, output, journal⟩ := m
  dsimp only at hpc
  unfold place
  rw [← hmemory, hpc]
  rfl

/-- A run from the start of a program ends as its tree does. -/
theorem ends_of_yields (hbuilt : BracketIndex.build code.program = .ok code.index)
    (hfailure : m.failure = none) (hpc : m.pc = 0) (hmemory : m.memory = s.memory) {block : Block}
    (hcovers : block.Covers code.program.chars.toList 0 code.program.size) {ending : Ending}
    (h : Yields (.block block) s cost last ending) :
    ∃ outcome, m.Ends code outcome ∧ m.Shows code.program.size cost last ending outcome := by
  have hleads := h.carriesOut hbuilt hfailure _ _ 0 hcovers
  rw [place_start hpc hmemory, Nat.zero_add] at hleads
  rcases hleads with ⟨rfl, hreach⟩ | ⟨hending, before, position, c, hc, hopen, hclose, hact, hreach⟩
  · by_cases hhalted : m.halted code = true
    · have hsame := eq_of_reaches_of_halted hhalted hreach
      exact ⟨(m, .ok ()), (ends_of_halted hhalted).mpr rfl, congrArg memory hsame,
        congrArg pc hsame, congrArg steps hsame, hfailure, rfl⟩
    · have hlast := move_of_halted (halted_place_size code m last cost)
      exact ⟨_, (ends_of_running (by simpa using hhalted)).mpr
        ⟨_, mem_eval.mpr ⟨hreach, hlast⟩, rfl⟩, shows_conclude code hfailure last cost⟩
  · have hrun : m.halted code = false := by
      by_contra hhalted
      have hsame := eq_of_reaches_of_halted (by simpa using hhalted) hreach
      rw [hsame, running_place hfailure hc] at hhalted
      exact hhalted rfl
    have hlast := move_char_stops hfailure hc hopen hclose hact hending cost
    exact ⟨_, (ends_of_running hrun).mpr ⟨_, mem_eval.mpr ⟨hreach, hlast⟩, rfl⟩,
      shows_conclude_of_stops hfailure hc hopen hclose hact hending cost⟩

/-- A program whose run from its start ends has a tree with a meaning. -/
theorem exists_yields_of_ends (hbuilt : BracketIndex.build code.program = .ok code.index)
    (hfailure : m.failure = none) (hpc : m.pc = 0) (hmemory : m.memory = s.memory) {block : Block}
    (hcovers : block.Covers code.program.chars.toList 0 code.program.size)
    {outcome : Machine × Except Fault Unit} (h : m.Ends code outcome) :
    ∃ cost last ending, Yields (.block block) s cost last ending := by
  obtain ⟨final, hfinal⟩ : ∃ final, final ∈ eval (move code) m := by
    by_cases hhalted : m.halted code = true
    · exact ⟨m, mem_eval.mpr ⟨.refl, move_of_halted hhalted⟩⟩
    · obtain ⟨final, hfinal, -⟩ := (ends_of_running (by simpa using hhalted)).mp h
      exact ⟨final, hfinal⟩
  rw [← place_start hpc hmemory] at hfinal
  exact exists_yields hbuilt hfailure hcovers hfinal

end Machine

/-! ### Runs of an engine -/

namespace Session

/-- A session that has been loaded and run shows the end of a tree: tape, pointer, position, steps
and failure of the engine, what is left in the source, what the sink has received, and the result.
A handle on a source or sink that does not exist shows nothing. -/
structure Shows (ready : Session) (size cost : ℕ) (last : Store) (ending : Ending)
    (next : Session) (answer : Except Error RunResult) : Prop where
  tape_eq : next.engine.tape = last.tape
  pointer_eq : next.engine.pointer = last.pointer
  pc_eq : next.engine.pc = ending.position size
  steps_eq : next.engine.steps = cost
  failure_eq : next.engine.failure = ending.failure?
  input_eq : ready.engine.source.feed < ready.devices.feeds.size →
    next.devices.pending ready.engine.source = last.input
  output_eq : ready.engine.sink.drain < ready.devices.drains.size →
    (next.devices.received ready.engine.sink.drain).bytes = last.output
  answer_eq : answer =
    match ending with
    | .interrupted _ value => .error (.fault (.ofByte value))
    | _ => .ok ⟨ending.failure?, ending.position size, last.pointer, cost⟩

variable {config : Config} {s ready : Session} {code : Code} {listing : Listing} {input : Input}
  {output : Output}

/-- The session shows what its machine shows. -/
theorem shows_finish {size cost : ℕ} {last : Store} {ending : Ending}
    {outcome : Machine × Except Fault Unit} (hsteps : ready.engine.steps = 0)
    (h : ready.machine.Shows size cost last ending outcome) :
    ready.Shows size cost last ending (ready.finish outcome).1 (ready.finish outcome).2 := by
  have hcost : outcome.1.steps = cost := by
    rw [← Nat.zero_add cost, ← hsteps]
    exact h.steps_eq
  have hpointer : outcome.1.pointer = last.pointer := congrArg Memory.pointer h.memory_eq
  refine ⟨congrArg Memory.tape h.memory_eq, hpointer, h.pc_eq, hcost, h.failure_eq, ?_, ?_, ?_⟩
  · intro hfeed
    exact (Devices.pending_setPending hfeed _).trans (congrArg Memory.input h.memory_eq)
  · intro hdrain
    have hbefore : ready.engine.sink.drain <
        (ready.devices.setPending ready.engine.source outcome.1.input).drains.size := hdrain
    exact (Devices.bytes_received_setWritten hbefore _).trans (congrArg Memory.output h.memory_eq)
  · have hresult : (ready.absorb outcome.1).engine.result =
        ⟨ending.failure?, ending.position size, last.pointer, cost⟩ := by
      unfold Engine.result absorb
      rw [h.failure_eq, h.pc_eq, hpointer, hcost]
    unfold finish
    rw [h.answer_eq, hresult]
    cases ending <;> rfl

/-- The store from which a loaded engine begins. -/
theorem exists_store (hsafe : ready.machine.Safe code) :
    ∃ start : Store, ready.machine.memory = start.memory := by
  obtain ⟨place, hpointer, hplace⟩ := hsafe.inRange.exists_place
  refine ⟨⟨ready.machine.tape, place, hplace, ready.machine.input, ready.machine.output⟩, ?_⟩
  unfold Store.memory
  rw [← hpointer]
  rfl

/-- The engine implements structured loops. Every accepted text can be read as a tree in exactly one
way. Once a program is loaded, with whatever tape, pointer, source and sink, its run comes to an end
exactly if the tree of the program has a meaning, and then it shows just that meaning. -/
theorem runs_mean_their_trees :
    (∀ (program : Program) (index : BracketIndex), BracketIndex.build program = .ok index →
      ∃! block : Block, block.Covers program.chars.toList 0 program.size) ∧
    ∀ (config : Config) (s ready : Session) (code : Code) (listing : Listing) (input : Input)
      (output : Output) (block : Block), s.engine.Sound config →
      s.load listing input output = (ready, .ok (.ok code)) →
      block.Covers code.program.chars.toList 0 code.program.size →
      ∃ start : Store, start.tape = ready.engine.tape ∧ start.pointer = ready.engine.pointer ∧
        start.input = ready.devices.pending ready.engine.source ∧
        start.output = (ready.devices.received ready.engine.sink.drain).bytes ∧
        ((∃ fuel outcome, s.run fuel listing input output = some outcome) ↔
          ∃ cost last ending, Yields (.block block) start cost last ending) ∧
        ∀ fuel next answer cost last ending,
          s.run fuel listing input output = some (next, answer) →
          Yields (.block block) start cost last ending →
          ready.Shows code.program.size cost last ending next answer := by
  constructor
  · intro program index hbuild
    exact existsUnique_block hbuild
  · intro config s ready code listing input output block hsound hload hcovers
    obtain ⟨-, hsafe⟩ := safe_of_load hsound hload
    obtain ⟨hpc, hsteps, hfailure⟩ := registers_of_load hload
    obtain ⟨start, hstart⟩ := exists_store hsafe
    refine ⟨start, congrArg Memory.tape hstart.symm, congrArg Memory.pointer hstart.symm,
      congrArg Memory.input hstart.symm, congrArg Memory.output hstart.symm, ⟨?_, ?_⟩, ?_⟩
    · rintro ⟨fuel, answer, hrun⟩
      obtain ⟨outcome, hends, -⟩ := (run_eq_some_iff_of_load hsafe hload _).mp ⟨fuel, hrun⟩
      exact Machine.exists_yields_of_ends hsafe.built hfailure hpc hstart hcovers hends
    · rintro ⟨cost, last, ending, hyields⟩
      obtain ⟨outcome, hends, -⟩ :=
        Machine.ends_of_yields hsafe.built hfailure hpc hstart hcovers hyields
      obtain ⟨fuel, hrun⟩ := (run_eq_some_iff_of_load hsafe hload _).mpr ⟨outcome, hends, rfl⟩
      exact ⟨fuel, _, hrun⟩
    · intro fuel next answer cost last ending hrun hyields
      obtain ⟨outcome, hends, hfinish⟩ := (run_eq_some_iff_of_load hsafe hload _).mp ⟨fuel, hrun⟩
      obtain ⟨other, hother, hshows⟩ :=
        Machine.ends_of_yields hsafe.built hfailure hpc hstart hcovers hyields
      obtain rfl := hends.unique hother
      obtain ⟨rfl, rfl⟩ := Prod.mk.inj hfinish
      exact shows_finish hsteps hshows

/-- From the third of three cells, `<[-]<<` clears the second cell and fails at its last character:
its tree does so at the cost of seven. -/
theorem runs_mean_their_trees_on_a_kept_tape :
    let s : Session :=
      { engine := ⟨⟨3, by decide, true, true⟩, #[1, 2, 3], 2, 0, 0, none, none, ⟨.bytes, 0⟩,
          ⟨.buffer, 0⟩⟩
        devices := .empty
        journal := #[] }
    let block : Block :=
      .char 0 '<' (.loop 1 (.char 2 '-' .empty) (.char 4 '<' (.char 5 '<' .empty)))
    s.engine.Sound s.engine.config ∧
    ∃ start last ending, start.tape = #[1, 2, 3] ∧ start.pointer = 2 ∧
      Yields (.block block) start 7 last ending ∧ last.tape = #[1, 0, 3] ∧ last.pointer = 0 ∧
      ending.position 6 = 5 ∧ ending.failure? = some (.outOfBounds 0 .left) := by
  intro s block
  have hsound : s.engine.Sound s.engine.config := by
    refine ⟨rfl, rfl, by decide, by decide, ?_, ?_, ?_⟩ <;> intro code hcode <;> cases hcode
  refine ⟨hsound, ?_⟩
  let code : Code :=
    ⟨⟨#['<', '[', '-', ']', '<', '<']⟩, ⟨#[none, some 3, none, some 1, none, none]⟩⟩
  let ready := (s.load (.given (.text "<[-]<<")) .none .none).1
  have hload : s.load (.given (.text "<[-]<<")) .none .none = (ready, .ok (.ok code)) := by
    decide +kernel
  have hcovers : block.Covers code.program.chars.toList 0 code.program.size :=
    .char rfl (by decide) (by decide) (.loop rfl (.char rfl (by decide) (by decide) (.empty 3)) rfl
      (.char rfl (by decide) (by decide) (.char rfl (by decide) (by decide) (.empty 6))))
  obtain ⟨start, htape, hpointer, -, -, hends, hshows⟩ :=
    runs_mean_their_trees.2 _ s ready code _ _ _ block hsound hload hcovers
  let outcome := (s.run 20 (.given (.text "<[-]<<")) .none .none).get (by decide +kernel)
  have hrun : s.run 20 (.given (.text "<[-]<<")) .none .none = some (outcome.1, outcome.2) :=
    (Option.some_get _).symm
  obtain ⟨cost, last, ending, hyields⟩ := hends.mp ⟨20, _, hrun⟩
  have hshown := hshows 20 _ _ cost last ending hrun hyields
  have hcost : cost = 7 := hshown.steps_eq.symm.trans (by decide +kernel)
  have hstart : ready.engine.tape = #[1, 2, 3] ∧ ready.engine.pointer = 2 := by decide +kernel
  have hlast : outcome.1.engine.tape = #[1, 0, 3] ∧ outcome.1.engine.pointer = 0 ∧
      outcome.1.engine.pc = 5 ∧ outcome.1.engine.failure = some (.outOfBounds 0 .left) := by
    decide +kernel
  rw [hstart.1] at htape
  rw [hstart.2] at hpointer
  rw [hshown.tape_eq, hshown.pointer_eq, hshown.pc_eq, hshown.failure_eq] at hlast
  obtain ⟨hlastTape, hlastPointer, hposition, hfailure⟩ := hlast
  subst hcost
  exact ⟨start, last, ending, htape, by omega, hyields, hlastTape, by omega,
    Int.ofNat_inj.mp hposition, hfailure⟩

end Session

end TapeMachine
