import TapeMachine.Proofs.Sweeping

/-!
Where sweeps land. A sweep may begin at any safe machine, whether or not a run ever comes there. It
carries out commands by the rules of single steps, none of which reads or writes
(`StepsQuietly`), and if it ends, it ends before the first command that it may not carry out:
between the steps it has counted and the next one nothing is lost and nothing is done twice
(`Safe.sweepFrom_lands`).

The character at the landing decides why the sweep has stopped (`StopsAt.get?`), so there is one
reason for each landing and no other reason fits (`StopsAt.unique`). A sweep that begins where
another one has landed stops at once, for the same reason (`Safe.sweepFrom_of_stopsAt`).
-/

set_option autoImplicit false
set_option relaxedAutoImplicit false

namespace TapeMachine

deriving instance DecidableEq for Swept

/-! ### Reasons to stop -/

/-- The character before which a sweep stops, if it does not stop at the end of the code. -/
def Stop.symbol? : Stop → Option Char
  | .finished => none
  | .write => some '.'
  | .read => some ','
  | .leftEnd => some '<'
  | .rightEnd => some '>'

theorem Stop.symbol?_injective : Function.Injective Stop.symbol? := by
  intro first second h
  cases first <;> cases second <;> simp [symbol?] at h ⊢

namespace Machine

variable {code : Code} {m next : Machine} {stop other : Stop} {swept : Swept}

namespace StopsAt

theorem get? (h : m.StopsAt code stop) : code.program.get? m.pc = stop.symbol? := by
  cases stop with
  | finished =>
    have hbeside : slot? code.program.chars.size m.pc = none := slot?_eq_none_iff.mpr (.inr h)
    simp only [Program.get?, entry?, hbeside]
    rfl
  | write => exact h
  | read => exact h
  | leftEnd => exact h.1
  | rightEnd => exact h.1

/-- There is one reason only to stop at a machine. -/
theorem unique (h : m.StopsAt code stop) (hother : m.StopsAt code other) : stop = other :=
  Stop.symbol?_injective (h.get?.symm.trans hother.get?)

theorem eq_iff (h : m.StopsAt code stop) : stop = other ↔ m.StopsAt code other :=
  ⟨fun heq ↦ heq ▸ h, h.unique⟩

/-- Where a sweep stops, no command is carried out but those that read or write. -/
theorem move_eq_none {c : Char} (h : m.StopsAt code stop) (hrun : m.halted code = false)
    (hc : code.program.get? m.pc = some c) (hread : c ≠ ',') (hwrite : c ≠ '.') :
    m.move code = none := by
  have hsymbol : stop.symbol? = some c := h.get?.symm.trans hc
  cases stop with
  | finished => cases hsymbol
  | write =>
    cases hsymbol
    exact absurd rfl hwrite
  | read =>
    cases hsymbol
    exact absurd rfl hread
  | leftEnd => exact (conclude_of_fails hrun h.1 (if_pos h.2)).1
  | rightEnd => exact (conclude_of_fails hrun h.1 (if_pos h.2)).1

end StopsAt

/-! ### Steps that neither read nor write -/

/-- The next step carries out a command that neither reads nor writes: it answers, does not fail,
and counts one step. -/
structure StepsQuietly (code : Code) (m : Machine) : Prop where
  command : ∃ c, code.program.get? m.pc = some c ∧ c ≠ ',' ∧ c ≠ '.'
  answers : ∃ goesOn, (m.step code).2 = .ok goesOn
  failure_eq : (m.step code).1.failure = none
  steps_eq : (m.step code).1.steps = m.steps + 1
  input_eq : (m.step code).1.input = m.input
  output_eq : (m.step code).1.output = m.output

theorem after_succ (code : Code) (number : ℕ) (m : Machine) :
    m.after code (number + 1) = (m.step code).1.after code number :=
  Function.iterate_succ_apply _ _ _

/-- A step that has carried out a command notes down the end of the code, if it has come there, and
changes nothing else. -/
theorem arrive_eq (code : Code) (m : Machine) :
    ∃ journal goesOn, m.arrive code = ({ m with journal := journal }, .ok goesOn) := by
  unfold arrive
  split_ifs
  · exact ⟨_, false, rfl⟩
  · exact ⟨m.journal, true, rfl⟩

/-- What one command of a sweep is by single steps: the sweep stops here, or it goes on behind the
next step as if it had begun there. -/
theorem Safe.sweepFrom_succ (h : m.Safe code) (hfailure : m.failure = none) (fuel steps : ℕ) :
    (∃ stop, m.StopsAt code stop ∧
      (m.sweepFrom code (fuel + 1) steps).result = some (m.swept stop steps)) ∨
    (m.StepsQuietly code ∧ (m.sweepFrom code (fuel + 1) steps).result =
      ((m.step code).1.sweepFrom code fuel (steps + 1)).result) := by
  by_cases hend : (code.program.size : ℤ) ≤ m.pc
  · exact .inl ⟨.finished, hend, by rw [sweepFrom_finished hend, Traced.stop_result]⟩
  · have hrun : m.halted code = false := (halted_eq_false_iff hfailure).mpr (by omega)
    rcases h.sweepsOne hrun fuel steps with
      ⟨next, accesses, hmove, hquiet, hcommand, -, hsweep⟩ | ⟨stop, accesses, hstop, -, hsweep⟩
    · obtain ⟨journal, goesOn, harrive⟩ := next.arrive_eq code
      have hstep := (step_of_move hmove).trans harrive
      have hclock := steps_of_move hmove
      refine .inr ⟨⟨hcommand, ⟨goesOn, by rw [hstep]⟩, ?_, ?_, ?_, ?_⟩, ?_⟩
      · rw [hstep]
        exact hquiet.failure_eq.trans hfailure
      · rw [hstep]
        exact hclock
      · rw [hstep]
        exact hquiet.input_eq
      · rw [hstep]
        exact hquiet.output_eq
      · -- A sweep looks at tape, position and pointer only, so the journal makes no difference.
        rw [hsweep, hstep]
        rfl
    · exact .inl ⟨stop, hstop, by rw [hsweep]; rfl⟩

/-- A sweep that begins where one has to stop stops there. -/
theorem Safe.sweepFrom_of_stopsAt (h : m.Safe code) (hfailure : m.failure = none)
    (hstop : m.StopsAt code stop) (fuel steps : ℕ) :
    (m.sweepFrom code (fuel + 1) steps).result = some (m.swept stop steps) := by
  by_cases hend : (code.program.size : ℤ) ≤ m.pc
  · have hfinished : m.StopsAt code .finished := hend
    rw [sweepFrom_finished hend, Traced.stop_result, hstop.unique hfinished]
  · have hrun : m.halted code = false := (halted_eq_false_iff hfailure).mpr (by omega)
    rcases h.sweepsOne hrun fuel steps with
      ⟨next, accesses, hmove, -, ⟨c, hc, hread, hwrite⟩, -⟩ | ⟨other, accesses, hother, -, hsweep⟩
    · rw [hstop.move_eq_none hrun hc hread hwrite] at hmove
      cases hmove
    · rw [hsweep, hstop.unique hother]
      rfl

/-! ### Whole sweeps -/

/-- A sweep that ends has carried out as many steps as it has counted, none of which reads or
writes, and stops at the machine they lead to. -/
theorem Safe.sweepFrom_lands (h : m.Safe code) (hfailure : m.failure = none) {fuel steps : ℕ}
    (hsweep : (m.sweepFrom code fuel steps).result = some swept) :
    ∃ number stop, (∀ k < number, (m.after code k).StepsQuietly code) ∧
      (m.after code number).Safe code ∧ (m.after code number).failure = none ∧
      (m.after code number).StopsAt code stop ∧
      swept = (m.after code number).swept stop (steps + number) := by
  -- The induction is on the fuel, and each round begins one step further on.
  induction fuel generalizing m steps with
  | zero => cases hsweep
  | succ fuel ih =>
    rcases h.sweepFrom_succ hfailure fuel steps with ⟨stop, hstop, hresult⟩ | ⟨hquiet, hresult⟩
    · obtain rfl := Option.some.inj (hsweep.symm.trans hresult)
      exact ⟨0, stop, by simp, h, hfailure, hstop, rfl⟩
    · obtain ⟨number, stop, hsteps, hlast⟩ :=
        ih h.step.1 hquiet.failure_eq (hresult.symm.trans hsweep)
      refine ⟨number + 1, stop, ?_, ?_⟩
      · intro k hk
        cases k with
        | zero => exact hquiet
        | succ k =>
          rw [after_succ]
          exact hsteps k (by omega)
      · rw [after_succ, ← Nat.add_assoc, Nat.add_right_comm]
        exact hlast

/-- Steps that neither read nor write leave input and output alone. -/
theorem streams_after {number : ℕ} (h : ∀ k < number, (m.after code k).StepsQuietly code) :
    (m.after code number).input = m.input ∧ (m.after code number).output = m.output := by
  induction number with
  | zero => exact ⟨rfl, rfl⟩
  | succ number ih =>
    obtain ⟨hinput, houtput⟩ := ih fun k hk ↦ h k (by omega)
    have hlast := h number (by omega)
    unfold after at hinput houtput hlast ⊢
    rw [Function.iterate_succ_apply']
    exact ⟨hlast.input_eq.trans hinput, hlast.output_eq.trans houtput⟩

/-- A sweep may begin at any machine that can carry out its code, in the middle of a run or where no
run comes. If it ends, it is not cut short. Tape, position and pointer are then as after the number
of single steps that it has counted, all of them carried out and none of them reading or writing, so
the command before which it stops has done nothing yet. The stop says exactly why the sweep has
ended. Another sweep from there stops at once, in the same place and for the same reason, and leaves
the tape alone. -/
theorem sweeps_stop_in_time {code : Code} {m : Machine} (h : m.Safe code)
    (hfailure : m.failure = none) {fuel : ℕ} {swept : Swept}
    (hsweep : sweep code.program.codes code.index fuel m.tape m.pc m.pointer 0 = some swept) :
    ∃ landing, swept.landing = .ok landing ∧
      (∀ k < landing.steps, (m.after code k).StepsQuietly code) ∧
      ((m.after code landing.steps).tape = swept.tape ∧
        (m.after code landing.steps).pc = landing.pc ∧
        (m.after code landing.steps).pointer = landing.pointer ∧
        (m.after code landing.steps).input = m.input ∧
        (m.after code landing.steps).output = m.output) ∧
      ((landing.stop = .finished ↔ landing.pc = code.program.size) ∧
        (landing.stop = .write ↔ code.program.get? landing.pc = some '.') ∧
        (landing.stop = .read ↔ code.program.get? landing.pc = some ',') ∧
        (landing.stop = .leftEnd ↔
          code.program.get? landing.pc = some '<' ∧ landing.pointer = 0) ∧
        (landing.stop = .rightEnd ↔
          code.program.get? landing.pc = some '>' ∧ landing.pointer = swept.tape.size - 1)) ∧
      ∀ bound, sweep code.program.codes code.index (bound + 1) swept.tape landing.pc
          landing.pointer 0 =
        some ⟨swept.tape, .ok ⟨landing.pc, landing.pointer, landing.stop, 0⟩⟩ := by
  rw [← tracedSweep_result] at hsweep
  obtain ⟨number, stop, hsteps, hsafe, hnone, hstop, rfl⟩ := h.sweepFrom_lands hfailure hsweep
  rw [Nat.zero_add]
  refine ⟨_, rfl, hsteps, ⟨rfl, rfl, rfl, streams_after hsteps⟩,
    ⟨?_, hstop.eq_iff, hstop.eq_iff, hstop.eq_iff, ?_⟩, ?_⟩
  · rw [hstop.eq_iff]
    exact ⟨fun hend ↦ Int.le_antisymm hsafe.pc_le hend, fun hend ↦ hend.ge⟩
  · rw [hstop.eq_iff]
    exact and_congr_right fun _ ↦ eq_sub_iff_add_eq.symm
  · intro bound
    rw [← tracedSweep_result]
    exact hsafe.sweepFrom_of_stopsAt hnone hstop bound 0

/-- A sweep over `[<]` from inside the loop, with a zero under the pointer, as no run comes to it:
after two steps it stops before the left end, and there it stops again without a step. -/
theorem sweeps_stop_in_time_before_an_end :
    let code : Code := ⟨⟨#['[', '<', ']']⟩, ⟨#[some 2, none, some 0]⟩⟩
    let m : Machine := ⟨#[3, 0], 1, 1, 0, none, [], #[], #[]⟩
    let landing : Landing := ⟨1, 0, .leftEnd, 2⟩
    m.Safe code ∧
    sweep code.program.codes code.index 9 m.tape m.pc m.pointer 0 =
      some ⟨#[3, 0], .ok landing⟩ ∧
    (∀ k < 2, (m.after code k).StepsQuietly code) ∧ (m.after code 2).pointer = 0 ∧
    sweep code.program.codes code.index 1 #[3, 0] 1 0 0 =
      some ⟨#[3, 0], .ok ⟨1, 0, .leftEnd, 0⟩⟩ := by
  intro code m landing
  have hsafe : m.Safe code := ⟨by decide, ⟨by decide, by decide⟩, by decide, by decide⟩
  have hsweep : sweep code.program.codes code.index 9 m.tape m.pc m.pointer 0 =
      some ⟨#[3, 0], .ok landing⟩ := by decide +kernel
  obtain ⟨found, hfound, hsteps, ⟨-, -, hpointer, -⟩, -, hagain⟩ :=
    sweeps_stop_in_time hsafe rfl hsweep
  cases hfound
  exact ⟨hsafe, hsweep, hsteps, hpointer, hagain 0⟩

end Machine

end TapeMachine
