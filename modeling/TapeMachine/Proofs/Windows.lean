import TapeMachine.Proofs.Embedding

/-!
Windows of a tape. A run sees nothing of its tape but the cells that it comes to: not how many there
are, nor where the tape begins. On a longer tape, with further cells to the left and to the right, a
run does the same in the window that the shorter tape is, and leaves the cells around it alone
(`Memory.work_widen`, `Embedding.window`). It differs only where the run on the shorter tape fails
at an end of the tape, and there only if the longer tape goes on at that end.
-/

set_option autoImplicit false
set_option relaxedAutoImplicit false

namespace TapeMachine

/-! ### Memories on longer tapes -/

namespace Memory

variable {left right : Tape} {s : Memory}

/-- The memory on a longer tape, with further cells to the left and to the right. -/
def widen (left right : Tape) (s : Memory) : Memory :=
  ⟨left ++ s.tape ++ right, left.size + s.pointer, s.input, s.output⟩

theorem size_widen (left right : Tape) (s : Memory) :
    (s.widen left right).tape.size = left.size + s.tape.size + right.size := by
  simp only [widen, Array.size_append]

theorem InRange.widen (h : s.InRange) (left right : Tape) : (s.widen left right).InRange := by
  have hsize := size_widen left right s
  unfold InRange at h ⊢
  rw [hsize]
  change 0 ≤ left.size + s.pointer ∧ left.size + s.pointer < _
  omega

/-- The place of the current cell on the longer tape. -/
theorem pointer_widen {place : ℕ} (hpointer : s.pointer = place) :
    (s.widen left right).pointer = ((left.size + place : ℕ) : ℤ) := by
  change (left.size : ℤ) + s.pointer = _
  omega

/-- A command reads in the window what it reads on the shorter tape. -/
theorem withCell_widen (h : s.InRange) {use other : UInt8 → Work}
    (huse : ∀ cell, use cell = (other cell).lift (widen left right) left.size) :
    (s.widen left right).withCell use =
      (s.withCell other).lift (widen left right) left.size := by
  obtain ⟨place, hpointer, hplace⟩ := h.exists_place
  have hwide : left.size + place < (s.widen left right).tape.size := by
    rw [size_widen]
    omega
  have hcell : (s.widen left right).tape[left.size + place] = s.tape[place] := by
    simp only [widen]
    rw [Array.getElem_append_left (by rw [Array.size_append]; omega),
      Array.getElem_append_right (by omega)]
    simp
  rw [withCell_eq (pointer_widen hpointer) hwide, withCell_eq hpointer hplace, hcell, huse]

/-- A command writes in the window, and only there. -/
theorem deposit_widen (h : s.InRange) (value : ℤ) :
    (s.widen left right).deposit value =
      (s.deposit value).lift (widen left right) left.size := by
  obtain ⟨place, hpointer, hplace⟩ := h.exists_place
  have hwide : left.size + place < (s.widen left right).tape.size := by
    rw [size_widen]
    omega
  by_cases hvalue : 0 ≤ value ∧ value < 256
  · rw [deposit_eq hpointer hplace hvalue, deposit_eq (pointer_widen hpointer) hwide hvalue]
    have htape (byte : UInt8) : (left ++ s.tape ++ right).setIfInBounds (left.size + place) byte =
        left ++ s.tape.setIfInBounds place byte ++ right := by
      rw [Array.setIfInBounds_append_left (by rw [Array.size_append]; omega),
        Array.setIfInBounds_append_right (by omega), Nat.add_sub_cancel_left]
    simp only [Work.lift, widen, htape]
  · rw [deposit_eq_faults h hvalue, deposit_eq_faults (h.widen left right) hvalue]
    rfl

/-- The longer tape goes on where a move has failed. -/
def GoesOn (left right : Tape) : Failure → Prop
  | .outOfBounds _ .left => left ≠ #[]
  | .outOfBounds _ .right => right ≠ #[]
  | _ => False

theorem GoesOn.exists_outOfBounds {failure : Failure} (h : GoesOn left right failure) :
    ∃ pointer direction, failure = .outOfBounds pointer direction := by
  cases failure with
  | outOfBounds pointer direction => exact ⟨pointer, direction, rfl⟩
  | unmatchedClose => exact h.elim
  | unclosedOpens => exact h.elim
  | inputExhausted => exact h.elim
  | unspecified => exact h.elim

/-- On a longer tape a command does what it does in the window, unless it is a move over an end
behind which the longer tape goes on. -/
theorem work_widen (left right : Tape) (h : s.InRange) (command : Command) :
    (s.widen left right).work command =
        (s.work command).lift (widen left right) left.size ∨
      ∃ failure, s.work command = .fails s failure ∧ GoesOn left right failure := by
  cases command with
  | comment => exact .inl rfl
  | moveLeft =>
    by_cases hleft : s.pointer = 0
    · by_cases hempty : left = #[]
      · have hwide : (s.widen left right).pointer = 0 := by
          simp [widen, hleft, hempty]
        left
        simp only [work, if_pos hleft, if_pos hwide]
        rfl
      · exact .inr ⟨_, if_pos hleft, hempty⟩
    · have hwide : (s.widen left right).pointer ≠ 0 := by
        have hpos := h.1
        change (left.size : ℤ) + s.pointer ≠ 0
        omega
      left
      simp only [work, if_neg hleft, if_neg hwide, Work.lift]
      simp only [widen, add_sub_assoc]
  | moveRight =>
    have hsize := size_widen left right s
    have hpointer : (s.widen left right).pointer = left.size + s.pointer := rfl
    by_cases hright : s.pointer + 1 = s.tape.size
    · by_cases hempty : right = #[]
      · have hwide : (s.widen left right).pointer + 1 = (s.widen left right).tape.size := by
          rw [hpointer, hsize, hempty, Array.size_empty]
          omega
        left
        simp only [work, if_pos hright, if_pos hwide]
        rfl
      · exact .inr ⟨_, if_pos hright, hempty⟩
    · have hwide : (s.widen left right).pointer + 1 ≠ (s.widen left right).tape.size := by
        have hlt := h.2
        rw [hpointer, hsize]
        omega
      left
      simp only [work, if_neg hright, if_neg hwide, Work.lift]
      simp only [widen, add_assoc]
  | read =>
    left
    cases hinput : s.input with
    | nil =>
      have hwide : (s.widen left right).input = [] := hinput
      simp only [work, hinput, hwide]
      rfl
    | cons answer rest =>
      have hwide : (s.widen left right).input = answer :: rest := hinput
      cases answer with
      | none =>
        simp only [work, hinput, hwide]
        rfl
      | some value =>
        have hrest : InRange { s with input := rest } := h
        simp only [work, hinput, hwide]
        exact deposit_widen hrest value
  | increment => exact .inl (withCell_widen h fun _ ↦ deposit_widen h _)
  | decrement => exact .inl (withCell_widen h fun _ ↦ deposit_widen h _)
  | write => exact .inl (withCell_widen h fun _ ↦ rfl)
  | loopStart => exact .inl (withCell_widen h fun _ ↦ by split_ifs <;> rfl)
  | loopEnd => exact .inl (withCell_widen h fun _ ↦ by split_ifs <;> rfl)

end Memory

/-- The shorter tape as a window of a longer one. -/
def Embedding.window (left right : Tape) : Embedding where
  memory := Memory.widen left right
  offset := left.size
  averts := Memory.GoesOn left right
  pointer_eq := fun _ ↦ rfl
  inRange := fun _ h ↦ h.widen left right
  work := fun _ h command ↦ Memory.work_widen left right h command

/-! ### Runs on longer tapes -/

namespace Session

variable {left right : Tape} {config settings : Config} {s t : Session} {listing : Listing}
  {input taken : Input} {output given : Output} {feed : Feed}

/-- The second session is where the first one is, on a tape with further cells to the left and to
the right: it has read and written the same, and the cells around the window are as given. -/
structure Surrounds (left right : Tape) (s t : Session) : Prop where
  tape_eq : t.engine.tape = left ++ s.engine.tape ++ right
  pointer_eq : t.engine.pointer = left.size + s.engine.pointer
  pc_eq : t.engine.pc = s.engine.pc
  steps_eq : t.engine.steps = s.engine.steps
  unread_eq : t.unread = s.unread
  written_eq : t.written = s.written

theorem surrounds_of_holds (h : (Embedding.window left right).Holds s t) :
    Surrounds left right s t where
  tape_eq := congrArg Memory.tape h.memory_eq
  pointer_eq := congrArg Memory.pointer h.memory_eq
  pc_eq := h.pc_eq
  steps_eq := h.steps_eq
  unread_eq := congrArg Memory.input h.memory_eq
  written_eq := congrArg Memory.output h.memory_eq

/-- The second session runs the program on a longer tape, with further cells to the left and to the
right, as the first one runs it in the window. Where both are offered the same answers to read and a
sink that has received nothing:

* a run that ends, but not at an end of the tape, ends on the longer tape in the same way;
* a run that fails at an end of the tape is after as many steps at the same place on the longer
  tape, and fails there if the tape does not go on at that end;
* a run that has no end has none on the longer tape. -/
def RunsInWindow (left right : Tape) (s t : Session) (listing : Listing) : Prop :=
  ∀ (feed : Feed) (input taken : Input) (output given : Output),
    s.Offers input output feed → t.Offers taken given feed →
    (∀ fuel next answer, s.run fuel listing input output = some (next, answer) →
      (∀ result pointer direction, answer = .ok result →
        result.failure ≠ some (.outOfBounds pointer direction)) →
      ∃ bound last, t.run bound listing taken given = some (last, answer.map (.shift left.size)) ∧
        Surrounds left right next last) ∧
    (∀ fuel next result pointer direction,
      s.run fuel listing input output = some (next, .ok result) →
      result.failure = some (.outOfBounds pointer direction) →
      (((t.load listing taken given).1.after result.steps).engine.failure = none ∧
        Surrounds left right next ((t.load listing taken given).1.after result.steps)) ∧
      (direction = .left ∧ left = #[] ∨ direction = .right ∧ right = #[] →
        ∃ bound last,
          t.run bound listing taken given = some (last, .ok (result.shift left.size)) ∧
          Surrounds left right next last)) ∧
    ((∀ fuel, s.run fuel listing input output = none) →
      ∀ fuel, t.run fuel listing taken given = none)

/-- Runs that begin with a tape and pointer inside a longer tape. -/
theorem runsInWindow_of_rewind (code : Code) (hs : s.engine.Sound config)
    (ht : t.engine.Sound settings) (hlisting : listing.toProgram = .ok code.program)
    (hbuild : BracketIndex.build code.program = .ok code.index)
    (htape : t.engine.rewind.tape = left ++ s.engine.rewind.tape ++ right)
    (hpointer : t.engine.rewind.pointer = left.size + s.engine.rewind.pointer) :
    s.RunsInWindow left right t listing := by
  intro feed input taken output given hoffers hoffered
  obtain ⟨ready, larger, hload, hlarger, h⟩ := (Embedding.window left right).exists_prepared code
    hs ht hlisting hbuild hoffers hoffered (by rw [htape, hpointer]; rfl)
  refine ⟨?_, ?_, ?_⟩
  · intro fuel next answer hrun hinside
    rcases h.run hload hlarger hrun with ⟨bound, last, hlast, hholds⟩ |
      ⟨result, failure, rfl, hfailure, haverts⟩
    · exact ⟨bound, last, hlast, surrounds_of_holds hholds⟩
    · obtain ⟨pointer, direction, rfl⟩ := haverts.exists_outOfBounds
      exact absurd hfailure (hinside result pointer direction rfl)
  · intro fuel next result pointer direction hrun hfailed
    obtain ⟨hnone, hholds⟩ := h.after hload hrun hfailed (.inr fun _ ↦ by simp)
    rw [hlarger]
    refine ⟨⟨hnone, surrounds_of_holds hholds⟩, fun hside ↦ ?_⟩
    rcases h.run hload hlarger hrun with ⟨bound, last, hlast, hholds⟩ |
      ⟨_, failure, hsame, hfailure, haverts⟩
    · exact ⟨bound, last, hlast, surrounds_of_holds hholds⟩
    · cases hsame
      obtain rfl := Option.some.inj (hfailed.symm.trans hfailure)
      rcases hside with ⟨rfl, rfl⟩ | ⟨rfl, rfl⟩
      · exact absurd rfl haverts
      · exact absurd rfl haverts
  · intro hnone fuel
    by_contra hsome
    obtain ⟨answer, hanswer⟩ := Option.ne_none_iff_exists'.mp hsome
    obtain ⟨bound, found, hfound⟩ := h.exists_run hload hlarger ⟨fuel, answer, hanswer⟩
    rw [hnone] at hfound
    cases hfound

/-- A fresh tape is the window at the left end of every larger fresh tape. -/
theorem BeginsFresh.window {size extent : ℕ} (hs : s.BeginsFresh size) (ht : t.BeginsFresh extent)
    (hsize : size ≤ extent) :
    t.engine.rewind.tape = #[] ++ s.engine.rewind.tape ++ Tape.clear (extent - size) ∧
      t.engine.rewind.pointer = (#[] : Tape).size + s.engine.rewind.pointer := by
  obtain ⟨htape, hpointer⟩ := hs
  obtain ⟨htape', hpointer'⟩ := ht
  rw [htape, hpointer, htape', hpointer']
  refine ⟨?_, rfl⟩
  rw [Array.empty_append, Tape.clear, Tape.clear, Tape.clear, Array.replicate_append_replicate,
    Nat.add_sub_of_le hsize]

/-- A run does the same wherever its tape lies in a longer one, with whatever cells around it, by
either strategy: the cells around are left alone, and only where the run fails at an end of its tape
does it matter whether the longer tape goes on there. In particular a run that succeeds on a fresh
tape succeeds on every larger fresh tape with the same result, and the further cells stay clear. -/
theorem runs_stay_in_their_window {listing : Listing} {program : Program} {index : BracketIndex}
    (hlisting : listing.toProgram = .ok program) (hbuild : BracketIndex.build program = .ok index) :
    (∀ (config settings : Config) (s t : Session) (left right : Tape),
      s.engine.Sound config → t.engine.Sound settings →
      t.engine.rewind.tape = left ++ s.engine.rewind.tape ++ right →
      t.engine.rewind.pointer = left.size + s.engine.rewind.pointer →
      s.RunsInWindow left right t listing) ∧
    ∀ (config settings : Config) (s t : Session) (size extent : ℕ),
      s.engine.Sound config → t.engine.Sound settings →
      s.BeginsFresh size → t.BeginsFresh extent → size ≤ extent →
      ∀ (feed : Feed) (input taken : Input) (output given : Output),
        s.Offers input output feed → t.Offers taken given feed →
        ∀ fuel next result, s.run fuel listing input output = some (next, .ok result) →
          result.failure = none →
          ∃ bound last, t.run bound listing taken given = some (last, .ok result) ∧
            Surrounds #[] (Tape.clear (extent - size)) next last := by
  have hwindow (config settings : Config) (s t : Session) (left right : Tape)
      (hs : s.engine.Sound config) (ht : t.engine.Sound settings)
      (htape : t.engine.rewind.tape = left ++ s.engine.rewind.tape ++ right)
      (hpointer : t.engine.rewind.pointer = left.size + s.engine.rewind.pointer) :
      s.RunsInWindow left right t listing :=
    runsInWindow_of_rewind ⟨program, index⟩ hs ht hlisting hbuild htape hpointer
  refine ⟨hwindow, ?_⟩
  intro config settings s t size extent hs ht hfresh hfresh' hsize feed input taken output given
    hoffers hoffered fuel next result hrun hnone
  obtain ⟨htape, hpointer⟩ := hfresh.window hfresh' hsize
  obtain ⟨hends, -⟩ := hwindow config settings s t _ _ hs ht htape hpointer feed input taken output
    given hoffers hoffered
  obtain ⟨bound, last, hlast, hsurrounds⟩ := hends fuel next (.ok result) hrun (by
    rintro _ pointer direction ⟨⟩
    simp [hnone])
  refine ⟨bound, last, ?_, hsurrounds⟩
  rw [hlast, Array.size_empty, RunResult.map_shift_zero]

/-- `,.<<` leaves a tape of two cells at its left end. With a cell more to the left and one to the
right, the session is after three steps at the same place, and the run goes on. On new tapes
`,[.-]` does the same with one cell and with three. -/
theorem runs_stay_in_their_window_past_an_end :
    let s : Session :=
      { engine := ⟨⟨2, by decide, true, true⟩, #[5, 0], 1, 0, 0, none, none, ⟨.bytes, 0⟩,
          ⟨.buffer, 0⟩⟩
        devices := .empty
        journal := #[] }
    let t : Session :=
      { engine := ⟨⟨4, by decide, true, false⟩, #[7, 5, 0, 8], 2, 0, 0, none, none, ⟨.bytes, 0⟩,
          ⟨.buffer, 0⟩⟩
        devices := .empty
        journal := #[] }
    let leaving : Listing := .given (.text ",.<<")
    let counting : Listing := .given (.text ",[.-]")
    let small : Session := .new ⟨1, by decide, false, true⟩ .empty
    let large : Session := .new ⟨3, by decide, true, false⟩ .empty
    (∃ next, s.run 9 leaving (.bytes [6]) .none =
        some (next, .ok ⟨some (.outOfBounds 0 .left), 3, 0, 3⟩) ∧
      Surrounds #[7] #[8] next ((t.load leaving (.bytes [6]) .none).1.after 3)) ∧
    ∃ next bound last, small.run 30 counting (.bytes [2]) .none =
        some (next, .ok ⟨none, 5, 0, 8⟩) ∧
      large.run bound counting (.bytes [2]) .none = some (last, .ok ⟨none, 5, 0, 8⟩) ∧
      Surrounds #[] #[0, 0] next last := by
  intro s t leaving counting small large
  have hs : s.engine.Sound s.engine.config :=
    .of_not_loaded rfl rfl rfl (by decide) (by decide)
  have ht : t.engine.Sound t.engine.config :=
    .of_not_loaded rfl rfl rfl (by decide) (by decide)
  have hleave : leaving.toProgram = .ok (Program.ofText ",.<<") := rfl
  have hcount : counting.toProgram = .ok (Program.ofText ",[.-]") := rfl
  have hleaving : BracketIndex.build (Program.ofText ",.<<") =
      .ok ⟨#[none, none, none, none]⟩ := by decide +kernel
  have hcounting : BracketIndex.build (Program.ofText ",[.-]") =
      .ok ⟨#[none, some 4, none, none, some 1]⟩ := by decide +kernel
  constructor
  · let ended := (s.run 9 leaving (.bytes [6]) .none).get (by decide +kernel)
    have hrun : s.run 9 leaving (.bytes [6]) .none =
        some (ended.1, .ok ⟨some (.outOfBounds 0 .left), 3, 0, 3⟩) := by decide +kernel
    obtain ⟨-, hfails, -⟩ := (runs_stay_in_their_window hleave hleaving).1 _ _ s t #[7] #[8] hs ht
      (by decide) (by decide) _ _ _ _ _ (s.offers_bytes [6]) (t.offers_bytes [6])
    exact ⟨ended.1, hrun, (hfails 9 ended.1 _ 0 .left hrun rfl).1.2⟩
  · let ended := (small.run 30 counting (.bytes [2]) .none).get (by decide +kernel)
    have hrun : small.run 30 counting (.bytes [2]) .none =
        some (ended.1, .ok ⟨none, 5, 0, 8⟩) := by decide +kernel
    obtain ⟨bound, last, hlast, hsurrounds⟩ := (runs_stay_in_their_window hcount hcounting).2 _ _
      small large 1 3 (Engine.Sound.new _ _) (Engine.Sound.new _ _) (beginsFresh_new _ _)
      (beginsFresh_new _ _) (by decide) _ _ _ _ _ (small.offers_bytes [2]) (large.offers_bytes [2])
      30 ended.1 _ hrun rfl
    exact ⟨ended.1, bound, last, hrun, hlast, hsurrounds⟩

end Session

end TapeMachine
