import TapeMachine.Proofs.Endings

/-!
Programs that are turned away. A load of such a program takes the code from the engine and notes the
failure, and does nothing else: it does not come to its source and sink. An engine without code has
nothing to carry out, so no call reaches a source or sink until a program is accepted
(`Performs.of_not_accepted`, `Idle.performsAll`).

An accepted program is installed in place of what was there, and what is left of the engine then is
what the rejection has left alone (`Engine.rewind_of_rejected`). The journal alone remembers it, and
the journal is written and never read (`PerformsAll.setJournal`). So all that follows is as if the
program had never been turned away.
-/

set_option autoImplicit false
set_option relaxedAutoImplicit false

namespace TapeMachine

/-! ### The journal is never read -/

namespace Machine

variable {code : Code} {m : Machine} {outcome : Machine × Except Fault Unit}

def setJournal (journal : Array Event) (m : Machine) : Machine := { m with journal := journal }

theorem proceed_setJournal (code : Code) (m : Machine) (next : ℤ) (journal : Array Event) :
    ∃ kept, (m.setJournal journal).proceed code next =
      ((m.proceed code next).1.setJournal kept, (m.proceed code next).2) := by
  change ∃ kept, ((m.goOn m.memory next).setJournal journal).arrive code =
    (((m.goOn m.memory next).arrive code).1.setJournal kept,
      ((m.goOn m.memory next).arrive code).2)
  generalize m.goOn m.memory next = after
  unfold arrive
  by_cases hhalted : after.halted code = true
  · have hother : (after.setJournal journal).halted code = true := hhalted
    rw [if_pos hhalted, if_pos hother]
    exact ⟨_, rfl⟩
  · have hother : ¬(after.setJournal journal).halted code = true := hhalted
    rw [if_neg hhalted, if_neg hother]
    exact ⟨_, rfl⟩

theorem settle_setJournal (code : Code) (m : Machine) (work : Work) (journal : Array Event) :
    ∃ kept, (m.setJournal journal).settle code work =
      ((m.settle code work).1.setJournal kept, (m.settle code work).2) := by
  cases work with
  | done s => exact proceed_setJournal code (m.setMemory s) _ journal
  | jump =>
    have hpc : (m.setJournal journal).pc = m.pc := rfl
    simp only [settle, jump, hpc]
    cases code.index.partner? m.pc with
    | none => exact ⟨journal, rfl⟩
    | some other => exact proceed_setJournal code m _ journal
  | fails s failure => exact ⟨_, rfl⟩
  | faults s fault => exact ⟨journal, rfl⟩

/-- A step does the same whatever has been noted before. -/
theorem step_setJournal (code : Code) (m : Machine) (journal : Array Event) :
    ∃ kept, (m.setJournal journal).step code =
      ((m.step code).1.setJournal kept, (m.step code).2) := by
  by_cases hhalted : m.halted code = true
  · have hother : (m.setJournal journal).halted code = true := hhalted
    rw [step_of_halted hhalted, step_of_halted hother]
    exact ⟨journal, rfl⟩
  have hrun : m.halted code = false := by simpa using hhalted
  have hother : (m.setJournal journal).halted code = false := hrun
  cases hc : code.program.get? m.pc with
  | none =>
    have hget : code.program.get? (m.setJournal journal).pc = none := hc
    simp only [step, hrun, hother, hc, hget, Bool.false_eq_true, if_false]
    exact ⟨journal, rfl⟩
  | some c =>
    have hget : code.program.get? (m.setJournal journal).pc = some c := hc
    rw [step_eq_settle hrun hc, step_eq_settle hother hget]
    exact settle_setJournal code m _ journal

/-- So does a run, by either strategy. -/
theorem Ends.setJournal (h : m.Ends code outcome) (journal : Array Event) :
    ∃ kept, (m.setJournal journal).Ends code (outcome.1.setJournal kept, outcome.2) := by
  -- Whatever its strategy, a run ends as the run step by step does; the induction is on its steps.
  obtain ⟨fuel, hwalk⟩ := walk_eq_some_iff.mpr h
  suffices hother : ∃ kept, (m.setJournal journal).walk code fuel =
      some (outcome.1.setJournal kept, outcome.2) by
    obtain ⟨kept, hkept⟩ := hother
    exact ⟨kept, walk_eq_some_iff.mp ⟨fuel, hkept⟩⟩
  clear h
  induction fuel generalizing m journal with
  | zero => cases hwalk
  | succ fuel ih =>
    obtain ⟨kept, hstep⟩ := m.step_setJournal code journal
    unfold walk at hwalk ⊢
    rw [hstep]
    cases heq : m.step code with
    | mk next answer =>
      rw [heq] at hwalk
      cases answer with
      | error fault =>
        cases hwalk
        exact ⟨kept, rfl⟩
      | ok goesOn =>
        cases goesOn with
        | false =>
          cases hwalk
          exact ⟨kept, rfl⟩
        | true => exact ih kept hwalk

end Machine

namespace Session

variable {config : Config} {s next : Session} {call : Call} {answer : Answer} {calls : List Call}

def setJournal (journal : Array Event) (s : Session) : Session := { s with journal := journal }

theorem load_setJournal (s : Session) (journal : Array Event) (listing : Listing) (input : Input)
    (output : Output) :
    ∃ kept, (s.setJournal journal).load listing input output =
      ((s.load listing input output).1.setJournal kept, (s.load listing input output).2) := by
  unfold load
  cases listing.toProgram with
  | error cause => exact ⟨journal, rfl⟩
  | ok program =>
    dsimp only
    cases Code.compile program with
    | error failure => exact ⟨_, rfl⟩
    | ok code =>
      have hdevices : ((s.setJournal journal).install code).devices =
          (s.install code).devices := rfl
      dsimp only [connect]
      rw [hdevices]
      cases (s.install code).devices.openSource input with
      | error cause => exact ⟨journal, rfl⟩
      | ok opened => exact ⟨_, rfl⟩

theorem step_setJournal (s : Session) (journal : Array Event) :
    ∃ kept, (s.setJournal journal).step = (s.step.1.setJournal kept, s.step.2) := by
  have hloaded : (s.setJournal journal).engine.loaded = s.engine.loaded := rfl
  have hmachine : (s.setJournal journal).machine = s.machine.setJournal journal := rfl
  unfold step
  rw [hloaded]
  cases s.engine.loaded with
  | none => exact ⟨journal, rfl⟩
  | some code =>
    obtain ⟨kept, hstep⟩ := s.machine.step_setJournal code journal
    dsimp only
    rw [hmachine, hstep]
    cases s.machine.step code with
    | mk m answer => cases answer <;> exact ⟨kept, rfl⟩

theorem run_setJournal (h : s.engine.Sound config) (journal : Array Event) {fuel : ℕ}
    {listing : Listing} {input : Input} {output : Output} {answer : Except Error RunResult}
    (hrun : s.run fuel listing input output = some (next, answer)) :
    ∃ bound kept, (s.setJournal journal).run bound listing input output =
      some (next.setJournal kept, answer) := by
  obtain ⟨kept, hother⟩ := s.load_setJournal journal listing input output
  cases hload : s.load listing input output with
  | mk ready loaded =>
    rw [hload] at hother
    match loaded with
    | .error cause =>
      simp only [run, hload] at hrun
      cases hrun
      exact ⟨0, kept, by simp only [run, hother]⟩
    | .ok (.error failure) =>
      simp only [run, hload] at hrun
      cases hrun
      exact ⟨0, kept, by simp only [run, hother]; rfl⟩
    | .ok (.ok code) =>
      obtain ⟨-, hsafe⟩ := safe_of_load h hload
      obtain ⟨outcome, hends, rfl, rfl⟩ := ends_of_run hsafe hload hrun
      obtain ⟨last, hlast⟩ := hends.setJournal kept
      have hsame : (ready.setJournal kept).machine.Safe code :=
        ⟨hsafe.built, hsafe.inRange, hsafe.pc_nonneg, hsafe.pc_le⟩
      obtain ⟨bound, hbound⟩ :=
        (run_eq_some_iff_of_load hsame hother _).mpr ⟨_, hlast, rfl⟩
      exact ⟨bound, last, hbound⟩

/-- A call does the same whatever has been noted before. -/
theorem Performs.setJournal (hcall : s.Performs call next answer) (h : s.engine.Sound config)
    (journal : Array Event) :
    ∃ kept, (s.setJournal journal).Performs call (next.setJournal kept) answer := by
  obtain ⟨fuel, hperform⟩ := hcall
  cases call with
  | load listing input output =>
    cases hperform
    obtain ⟨kept, hload⟩ := s.load_setJournal journal listing input output
    have hother := performs_load (s.setJournal journal) listing input output
    rw [hload] at hother
    exact ⟨kept, hother⟩
  | run listing input output =>
    cases hrun : s.run fuel listing input output with
    | none =>
      simp only [perform, hrun] at hperform
      cases hperform
    | some result =>
      simp only [perform, hrun] at hperform
      cases hperform
      obtain ⟨bound, kept, hbound⟩ := run_setJournal h journal hrun
      exact ⟨kept, bound, by simp only [perform, hbound]⟩
  | step =>
    cases hperform
    obtain ⟨kept, hstep⟩ := s.step_setJournal journal
    have hother := performs_step (s.setJournal journal)
    rw [hstep] at hother
    exact ⟨kept, hother⟩
  | reset =>
    cases hperform
    exact ⟨journal, fuel, rfl⟩

/-- The calls come to an end one after another, with these answers, and leave this session. -/
inductive PerformsAll : Session → List Call → List Answer → Session → Prop
  | nil (s : Session) : PerformsAll s [] [] s
  | cons {s next last : Session} {call : Call} {answer : Answer} {calls : List Call}
      {answers : List Answer} (first : s.Performs call next answer)
      (rest : PerformsAll next calls answers last) :
      PerformsAll s (call :: calls) (answer :: answers) last

variable {answers : List Answer} {last t : Session}

theorem PerformsAll.setJournal (hall : s.PerformsAll calls answers last)
    (h : s.engine.Sound config) (journal : Array Event) :
    ∃ kept, (s.setJournal journal).PerformsAll calls answers (last.setJournal kept) := by
  induction hall generalizing journal with
  | nil s => exact ⟨journal, .nil _⟩
  | cons first rest ih =>
    obtain ⟨noted, hfirst⟩ := first.setJournal h journal
    obtain ⟨kept, hrest⟩ := ih (h.performs first) noted
    exact ⟨kept, .cons hfirst hrest⟩

/-- Both sessions answer the calls alike: these come to an end in one of them exactly if they do in
the other, and then the answers are the same, and so are the engines and all sources and sinks that
are left behind. -/
def AnswersAlike (s t : Session) (calls : List Call) : Prop :=
  ∀ answers engine devices,
    (∃ last, s.PerformsAll calls answers last ∧ last.engine = engine ∧ last.devices = devices) ↔
      ∃ last, t.PerformsAll calls answers last ∧ last.engine = engine ∧ last.devices = devices

/-- What has been noted makes no difference to any calls. -/
theorem answersAlike_setJournal (h : s.engine.Sound config) (journal : Array Event)
    (calls : List Call) : s.AnswersAlike (s.setJournal journal) calls := by
  intro answers engine devices
  constructor
  · rintro ⟨last, hall, hengine, hdevices⟩
    obtain ⟨kept, hother⟩ := hall.setJournal h journal
    exact ⟨_, hother, hengine, hdevices⟩
  · rintro ⟨last, hall, hengine, hdevices⟩
    have hsound : (s.setJournal journal).engine.Sound config := h
    obtain ⟨kept, hother⟩ := hall.setJournal hsound s.journal
    exact ⟨_, hother, hengine, hdevices⟩

end Session

/-! ### Engines without code -/

/-- Neither code nor failure has an influence on what the engine rewinds to. -/
theorem Engine.rewind_of_rejected (e : Engine) (loaded : Option Code) (failure : Option Failure) :
    { e with loaded := loaded, failure := failure }.rewind =
      { e.rewind with loaded := loaded } := by
  unfold rewind
  by_cases hkeep : e.config.keepTape = true
  · simp only [if_pos hkeep]
  · simp only [if_neg hkeep]
    rfl

/-- The listing is a program whose brackets pair. -/
def Listing.Accepted (listing : Listing) : Prop :=
  ∃ code : Code, listing.toProgram = .ok code.program ∧
    BracketIndex.build code.program = .ok code.index

/-- The call loads or runs a program that is accepted. -/
def Call.Accepted : Call → Prop
  | .load listing _ _ => listing.Accepted
  | .run listing _ _ => listing.Accepted
  | .step => False
  | .reset => False

namespace Session

variable {config : Config} {s t next last : Session} {listing : Listing} {call : Call}
  {answer : Answer} {calls : List Call} {answers : List Answer}

/-- A load without an accepted program leaves its source and sink alone, and notes a failure at
most. -/
theorem load_of_not_accepted (h : ¬listing.Accepted) (hloaded : t.engine.loaded = none)
    (input : Input) (output : Output) :
    (t.load listing input output).1.devices = t.devices ∧
      ∃ failure, (t.load listing input output).1.engine = { t.engine with failure := failure } := by
  rcases t.load_cases listing input output with ⟨cause, -, hload⟩ |
    ⟨program, failure, -, -, hload⟩ | ⟨code, cause, hlisting, hbuild, -⟩ |
    ⟨code, devices, source, hlisting, hbuild, -⟩
  · rw [hload]
    exact ⟨rfl, _, rfl⟩
  · rw [hload]
    refine ⟨rfl, some failure, ?_⟩
    change { t.engine with loaded := none, failure := some failure } = _
    rw [← hloaded]
  · exact absurd ⟨code, hlisting, hbuild⟩ h
  · exact absurd ⟨code, hlisting, hbuild⟩ h

/-- A run without an accepted program is over with its load. -/
theorem run_of_not_accepted (t : Session) (h : ¬listing.Accepted) (input : Input)
    (output : Output) :
    ∃ answer, answer.1 = (t.load listing input output).1 ∧
      ∀ fuel, t.run fuel listing input output = some answer := by
  rcases t.run_cases listing input output with hends | ⟨ready, code, hload⟩
  · exact hends
  · rcases t.load_cases listing input output with ⟨cause, -, heq⟩ | ⟨program, failure, -, -, heq⟩ |
      ⟨other, cause, -, -, -, heq⟩ | ⟨other, devices, source, hlisting, hbuild, -, -⟩
    · cases hload.symm.trans heq
    · cases hload.symm.trans heq
    · cases hload.symm.trans heq
    · exact absurd ⟨other, hlisting, hbuild⟩ h

/-- Calls that load no program all come to an end. -/
theorem exists_performs_of_not_accepted (t : Session) (hcall : ¬call.Accepted) :
    ∃ next answer, t.Performs call next answer := by
  cases call with
  | load listing input output => exact ⟨_, _, performs_load t listing input output⟩
  | run listing input output =>
    obtain ⟨answer, -, hrun⟩ := t.run_of_not_accepted hcall input output
    exact ⟨answer.1, .ran answer.2, 0, by simp only [perform, hrun]⟩
  | step => exact ⟨_, _, performs_step t⟩
  | reset => exact ⟨_, _, 0, rfl⟩

/-- What calls that load no program can do to an engine without code: they note a failure, or they
reset it. Steps are refused. -/
theorem Performs.of_not_accepted (h : t.Performs call next answer) (hcall : ¬call.Accepted)
    (hloaded : t.engine.loaded = none) :
    next.devices = t.devices ∧ (∀ result, answer = .stepped result → result = .ok false) ∧
      ((∃ failure, next.engine = { t.engine with failure := failure }) ∨
        call = .reset ∧ next.engine = t.engine.reset) := by
  obtain ⟨fuel, hperform⟩ := h
  cases call with
  | load listing input output =>
    cases hperform
    obtain ⟨hdevices, hengine⟩ := load_of_not_accepted hcall hloaded input output
    exact ⟨hdevices, by simp, .inl hengine⟩
  | run listing input output =>
    obtain ⟨outcome, hfirst, hrun⟩ := t.run_of_not_accepted hcall input output
    obtain ⟨hdevices, hengine⟩ := load_of_not_accepted hcall hloaded input output
    simp only [perform, hrun] at hperform
    cases hperform
    rw [← hfirst] at hdevices hengine
    exact ⟨hdevices, by simp, .inl hengine⟩
  | step =>
    have hhalted : t.engine.halted = true := by simp [Engine.halted, hloaded]
    simp only [perform, step_of_halted hhalted] at hperform
    cases hperform
    exact ⟨rfl, by simp, .inl ⟨_, rfl⟩⟩
  | reset =>
    cases hperform
    exact ⟨rfl, by simp, .inr ⟨rfl, rfl⟩⟩

/-- The second session has no code, and its source and sink and what is in all of them is as in the
first one. -/
structure Idle (s t : Session) : Prop where
  loaded : t.engine.loaded = none
  source_eq : t.engine.source = s.engine.source
  sink_eq : t.engine.sink = s.engine.sink
  devices_eq : t.devices = s.devices

/-- Calls that load no program leave an idle session idle. -/
theorem Idle.performs (h : s.Idle t) (hperforms : t.Performs call next answer)
    (hcall : ¬call.Accepted) : s.Idle next := by
  obtain ⟨hdevices, -, hengine⟩ := hperforms.of_not_accepted hcall h.loaded
  have hkept : next.engine.loaded = t.engine.loaded ∧ next.engine.source = t.engine.source ∧
      next.engine.sink = t.engine.sink := by
    rcases hengine with ⟨failure, hengine⟩ | ⟨-, hengine⟩
    · simp [hengine]
    · simp [hengine, Engine.reset]
  obtain ⟨hloaded, hsource, hsink⟩ := hkept
  exact ⟨hloaded.trans h.loaded, hsource.trans h.source_eq, hsink.trans h.sink_eq,
    hdevices.trans h.devices_eq⟩

/-- Through any calls that load no program, a session stays idle and refuses to step; and unless one
of them is a reset, the failure is all that changes in the engine. -/
theorem Idle.performsAll (h : s.Idle t) (hall : t.PerformsAll calls answers last)
    (hcalls : ∀ call ∈ calls, ¬call.Accepted) :
    s.Idle last ∧ (∀ result, .stepped result ∈ answers → result = .ok false) ∧
      (.reset ∉ calls → ∃ failure, last.engine = { t.engine with failure := failure }) := by
  induction hall with
  | nil t => exact ⟨h, by simp, fun _ ↦ ⟨_, rfl⟩⟩
  | @cons t next last call answer calls answers first rest ih =>
    have hcall : ¬call.Accepted := hcalls call (by simp)
    obtain ⟨-, hstepped, hengine⟩ := first.of_not_accepted hcall h.loaded
    obtain ⟨hidle, hrest, hlast⟩ := ih (h.performs first hcall) fun call hmem ↦
      hcalls call (by simp [hmem])
    refine ⟨hidle, ?_, ?_⟩
    · intro result hmem
      rcases List.mem_cons.mp hmem with hfirst | hlater
      · exact hstepped result hfirst.symm
      · exact hrest result hlater
    · intro hreset
      obtain ⟨failure, hfailure⟩ := hlast fun hmem ↦ hreset (by simp [hmem])
      rcases hengine with ⟨noted, hnoted⟩ | ⟨rfl, -⟩
      · exact ⟨failure, by rw [hfailure, hnoted]⟩
      · exact absurd (by simp) hreset

theorem exists_performsAll_of_not_accepted (t : Session)
    (hcalls : ∀ call ∈ calls, ¬call.Accepted) :
    ∃ answers last, t.PerformsAll calls answers last := by
  induction calls generalizing t with
  | nil => exact ⟨_, _, .nil t⟩
  | cons call calls ih =>
    obtain ⟨next, answer, hfirst⟩ := t.exists_performs_of_not_accepted (hcalls call (by simp))
    obtain ⟨answers, last, hrest⟩ := ih next fun call hmem ↦ hcalls call (by simp [hmem])
    exact ⟨_, _, .cons hfirst hrest⟩

/-! ### After a rejection -/

section Rejected

variable {loaded : Option Code} {failure : Option Failure}
  (hengine : t.engine = { s.engine with loaded := loaded, failure := failure })
  (hdevices : t.devices = s.devices)

include hengine hdevices

theorem load_of_rejected (hlisting : listing.Accepted) (input : Input) (output : Output) :
    t.load listing input output = (s.setJournal t.journal).load listing input output := by
  obtain ⟨code, hprogram, hbuild⟩ := hlisting
  have hinstall : t.install code = (s.setJournal t.journal).install code := by
    unfold install
    rw [hengine, hdevices, Engine.rewind_of_rejected]
    rfl
  simp only [load, hprogram, Code.compile_eq_ok_iff.mpr ⟨rfl, hbuild⟩, hinstall]

/-- A call with an accepted program does not notice that one has been turned away, but for the
journal. -/
theorem perform_of_rejected (hcall : call.Accepted) (fuel : ℕ) :
    t.perform fuel call = (s.setJournal t.journal).perform fuel call := by
  cases call with
  | load listing input output =>
    simp only [perform, load_of_rejected hengine hdevices hcall]
  | run listing input output =>
    simp only [perform, run, load_of_rejected hengine hdevices hcall]
  | step => exact hcall.elim
  | reset => exact hcall.elim

/-- From such a call on everything is as if there had been no rejection. -/
theorem answersAlike_of_rejected (h : s.engine.Sound config) (hcall : call.Accepted)
    (calls : List Call) : s.AnswersAlike t (call :: calls) := by
  have hfirst (next : Session) (answer : Answer) : t.Performs call next answer ↔
      (s.setJournal t.journal).Performs call next answer := by
    simp only [Performs, perform_of_rejected hengine hdevices hcall]
  have hall (answers : List Answer) (last : Session) :
      t.PerformsAll (call :: calls) answers last ↔
        (s.setJournal t.journal).PerformsAll (call :: calls) answers last := by
    constructor
    · intro hperforms
      cases hperforms with
      | cons first rest => exact .cons ((hfirst _ _).mp first) rest
    · intro hperforms
      cases hperforms with
      | cons first rest => exact .cons ((hfirst _ _).mpr first) rest
  intro answers engine devices
  simp only [hall]
  exact answersAlike_setJournal h t.journal (call :: calls) answers engine devices

end Rejected

/-- A program that is turned away does nothing, with any source and sink and in every reachable
session. The load takes the code from the engine and notes the failure, and leaves everything else
as it was, all sources and sinks included; a run does no more and answers with the failure. Until a
program is accepted, no step goes on and nothing is read or written, whatever the calls. From the
first accepted program on, everything is as if none had been turned away, unless there was a
reset. -/
theorem rejected_programs_do_nothing {config : Config} {s : Session} {listing : Listing}
    {program : Program} {failure : Failure} (hs : Reachable config s)
    (hlisting : listing.toProgram = .ok program)
    (hbuild : BracketIndex.build program = .error failure) (input : Input) (output : Output) :
    ∃ rejected, s.load listing input output = (rejected, .ok (.error failure)) ∧
      (∀ fuel, s.run fuel listing input output =
        some (rejected, .ok ⟨some failure, 0, s.engine.pointer, 0⟩)) ∧
      rejected.engine = { s.engine with loaded := none, failure := some failure } ∧
      rejected.devices = s.devices ∧
      ∀ calls, (∀ call ∈ calls, ¬call.Accepted) →
        (∃ answers last, rejected.PerformsAll calls answers last) ∧
        ∀ answers last, rejected.PerformsAll calls answers last →
          (∀ result, .stepped result ∈ answers → result = .ok false) ∧
          s.Idle last ∧
          (.reset ∉ calls → ∀ call, call.Accepted → ∀ later,
            s.AnswersAlike last (call :: later)) := by
  have hcompile : Code.compile program = .error failure := by
    simp only [Code.compile, hbuild]
    rfl
  have hload : s.load listing input output = (s.reject failure, .ok (.error failure)) := by
    simp only [load, hlisting, hcompile]
  have hidle : s.Idle (s.reject failure) := ⟨rfl, rfl, rfl, rfl⟩
  refine ⟨s.reject failure, hload, fun fuel ↦ ?_, rfl, rfl, fun calls hcalls ↦ ?_⟩
  · simp only [run, hload]
    rfl
  refine ⟨exists_performsAll_of_not_accepted _ hcalls, fun answers last hall ↦ ?_⟩
  obtain ⟨hlast, hstepped, hengine⟩ := hidle.performsAll hall hcalls
  refine ⟨hstepped, hlast, fun hreset call hcall later ↦ ?_⟩
  obtain ⟨noted, hnoted⟩ := hengine hreset
  have hkept : last.engine = { s.engine with loaded := none, failure := noted } := hnoted
  exact answersAlike_of_rejected hkept hlast.devices_eq hs.sound hcall later

/-- A session in the middle of `,.,.` turns `]` away, and then `[`, each with a text for a source
that does not fit into bytes. The two bytes that are left stay unread, and a run of `,.` with a step
behind it is answered as if nothing had been turned away. -/
theorem rejected_programs_do_nothing_in_mid_run :
    let config : Config := ⟨2, by decide, true, true⟩
    let s := ((Session.new config .empty).load (.given (.text ",.,.")) (.bytes [5, 6, 7]) .none).1
    let middle := s.step.1
    let calls : List Call := [.step, .load (.given (.text "[")) (.text "Ā") .none, .step]
    let call : Call := .run (.given (.text ",.")) (.bytes [8]) .none
    Reachable config middle ∧ middle.unread = [some 6, some 7] ∧
    ∃ rejected answers last, middle.load (.given (.text "]")) (.text "Ā") (.stream 0) =
        (rejected, .ok (.error (.unmatchedClose 0))) ∧
      rejected.PerformsAll calls answers last ∧ last.unread = [some 6, some 7] ∧
      middle.AnswersAlike last [call, .step] := by
  intro config s middle calls call
  have hmiddle : Reachable config middle :=
    .call (.call (.new .empty) (performs_load _ _ _ _)) (performs_step _)
  have hunread : middle.unread = [some 6, some 7] := by decide +kernel
  have hclose : (Listing.given (.text "]")).toProgram = .ok (Program.ofText "]") := rfl
  have hrejected : BracketIndex.build (Program.ofText "]") = .error (.unmatchedClose 0) := by
    decide +kernel
  have hopen : BracketIndex.build (Program.ofText "[") = .error (.unclosedOpens [0]) := by
    decide +kernel
  have haccepted : call.Accepted :=
    ⟨⟨Program.ofText ",.", ⟨#[none, none]⟩⟩, rfl, by decide +kernel⟩
  have hcalls : ∀ call ∈ calls, ¬call.Accepted := by
    intro call hmem
    simp only [calls, List.mem_cons, List.not_mem_nil, or_false] at hmem
    rcases hmem with rfl | rfl | rfl
    · exact id
    · rintro ⟨code, hprogram, hbuild⟩
      have hsame : Program.ofText "[" = code.program := Except.ok.inj hprogram
      rw [← hsame, hopen] at hbuild
      cases hbuild
    · exact id
  obtain ⟨rejected, hload, -, -, -, hafter⟩ :=
    rejected_programs_do_nothing hmiddle hclose hrejected (.text "Ā") (.stream 0)
  obtain ⟨⟨answers, last, hall⟩, hidle⟩ := hafter calls hcalls
  obtain ⟨-, hlast, halike⟩ := hidle answers last hall
  refine ⟨hmiddle, hunread, rejected, answers, last, hload, hall, ?_,
    halike (by simp [calls]) call haccepted _⟩
  rw [← hunread, unread, hlast.devices_eq, hlast.source_eq]
  rfl

end Session

end TapeMachine
