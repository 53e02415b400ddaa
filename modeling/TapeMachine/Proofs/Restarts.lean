import TapeMachine.Proofs.Handles

/-!
A reset starts over. It clears the tape and the registers and leaves code, source and sink alone, so
what is left of everything that has happened before are the answers that the source has still to
deliver, the bytes that the sink has received and the notes of the journal. A run looks at neither
bytes nor notes (`Machine.Ends.overlay`). But for them the machine stands as the one of a new engine
does that has loaded the same program over the same answers (`machine_of_reset`), and single steps
come to the end of its run (`stepUntilDone_eq_some_iff`).
-/

set_option autoImplicit false
set_option relaxedAutoImplicit false

namespace TapeMachine

namespace Machine

theorem eq_of_memory {m n : Machine} (hmemory : m.memory = n.memory) (hpc : m.pc = n.pc)
    (hsteps : m.steps = n.steps) (hfailure : m.failure = n.failure)
    (hjournal : m.journal = n.journal) : m = n := by
  obtain ⟨htape, hpointer, hinput, houtput⟩ := Memory.mk.inj hmemory
  cases m
  exact Machine.mk.injEq .. ▸ ⟨htape, hpointer, hpc, hsteps, hfailure, hinput, houtput, hjournal⟩

/-- The machine with other bytes written and other notes taken before. -/
def overlay (before : Array UInt8) (journal : Array Event) (m : Machine) : Machine :=
  (m.setOutput before).setJournal journal

/-- A run does the same whatever has been written and noted before, and adds the same bytes. -/
theorem Ends.overlay {code : Code} {m : Machine} {outcome : Machine × Except Fault Unit}
    (h : m.Ends code outcome) (before : Array UInt8) (journal : Array Event) :
    ∃ (written : Array UInt8) (kept : Array Event),
      outcome.1.output = m.output ++ written ∧
      (m.overlay before journal).Ends code
        (outcome.1.overlay (before ++ written) kept, outcome.2) := by
  obtain ⟨written, hwritten, hother⟩ := h.exists_written before
  obtain ⟨kept, hkept⟩ := hother.setJournal journal
  exact ⟨written, kept, hwritten, hkept⟩

theorem exists_ends_overlay_iff {code : Code} {m : Machine} (before : Array UInt8)
    (journal : Array Event) :
    (∃ outcome, (m.overlay before journal).Ends code outcome) ↔
      ∃ outcome, m.Ends code outcome := by
  constructor
  · rintro ⟨outcome, hends⟩
    obtain ⟨written, kept, -, hother⟩ := hends.overlay m.output m.journal
    exact ⟨_, hother⟩
  · rintro ⟨outcome, hends⟩
    obtain ⟨written, kept, -, hother⟩ := hends.overlay before journal
    exact ⟨_, hother⟩

end Machine

namespace Session

variable {s t : Session} {code : Code} {listing : Listing} {input : Input} {output : Output}

/-- Single steps come to an end exactly if the machine does. -/
theorem stepUntilDone_eq_some_iff (hcode : s.engine.loaded = some code)
    (answer : Session × Except Error Unit) :
    (∃ fuel, s.stepUntilDone fuel = some answer) ↔
      ∃ outcome, s.machine.Ends code outcome ∧
        answer = (s.absorb outcome.1, outcome.2.mapError Error.fault) := by
  have hsteps := stepUntilDone_absorb (follows_machine s) hcode
  rw [absorb_machine] at hsteps
  simp only [hsteps, Option.map_eq_some_iff]
  constructor
  · rintro ⟨fuel, outcome, hwalk, rfl⟩
    exact ⟨outcome, Machine.walk_eq_some_iff.mp ⟨fuel, hwalk⟩, rfl⟩
  · rintro ⟨outcome, hends, rfl⟩
    obtain ⟨fuel, hwalk⟩ := Machine.walk_eq_some_iff.mpr hends
    exact ⟨fuel, outcome, hwalk, rfl⟩

theorem exists_stepUntilDone_iff (hcode : s.engine.loaded = some code) :
    (∃ fuel answer, s.stepUntilDone fuel = some answer) ↔
      ∃ outcome, s.machine.Ends code outcome := by
  rw [exists_comm]
  simp only [stepUntilDone_eq_some_iff hcode]
  constructor
  · rintro ⟨-, outcome, hends, -⟩
    exact ⟨outcome, hends⟩
  · rintro ⟨outcome, hends⟩
    exact ⟨_, outcome, hends, rfl⟩

/-- But for the bytes and notes of before, a session that is reset stands as another one does that
begins fresh, once it has loaded the same program over the same answers. -/
theorem machine_of_reset (hbuild : BracketIndex.build code.program = .ok code.index)
    (hfresh : t.BeginsFresh s.engine.tape.size) (hlisting : listing.toProgram = .ok code.program)
    (hoffers : t.Offers input output s.unread) :
    ∃ ready, t.load listing input output = (ready, .ok (.ok code)) ∧
      ready.engine.sink.drain < ready.devices.drains.size ∧
      ready.machine = s.reset.machine.overlay #[] ready.journal := by
  obtain ⟨devices, source, hopened, hpending, hdrain, hempty⟩ := hoffers
  have hload := load_eq_start code hlisting hbuild hopened output
  obtain ⟨hpc, hsteps, hfailure⟩ := registers_of_load hload
  have hmemory := t.start_memory code devices source output
  rw [hfresh.1, hfresh.2, hpending, hempty] at hmemory
  exact ⟨_, hload, hdrain, Machine.eq_of_memory hmemory hpc hsteps hfailure rfl⟩

/-- A reset starts the loaded program over on what is left to read. Whatever has happened before,
also where the tape is to be kept or a run has failed, single steps after a reset come to an end
exactly if a new engine with a tape of the same size, and with settings that may differ in
everything else, comes to the end of a run of the program over the answers that the source has still
to deliver. Then both end with the same answer, registers and tape and with the same left to read,
and the sink, if the handle leads to one, has received what it had before and behind it the bytes
that the new engine has written. -/
theorem reset_restarts {config settings : Config} {s : Session} {code : Code} {devices : Devices}
    {listing : Listing} {input : Input} {output : Output} (hs : Reachable config s)
    (hcode : s.engine.loaded = some code) (hsize : settings.tapeSize = config.tapeSize)
    (hlisting : listing.toProgram = .ok code.program)
    (hoffers : (Session.new settings devices).Offers input output s.unread) :
    ((∃ fuel outcome, s.reset.stepUntilDone fuel = some outcome) ↔
      ∃ fuel outcome, (Session.new settings devices).run fuel listing input output =
        some outcome) ∧
    ∀ fuel bound next last ended answer,
      s.reset.stepUntilDone fuel = some (next, ended) →
      (Session.new settings devices).run bound listing input output = some (last, answer) →
      answer = ended.map (fun _ ↦ next.engine.result) ∧
      next.engine.result = last.engine.result ∧ next.engine.tape = last.engine.tape ∧
      next.unread = last.unread ∧
      (s.engine.sink.drain < s.devices.drains.size → next.written = s.written ++ last.written) := by
  have hfresh : (Session.new settings devices).BeginsFresh s.engine.tape.size := by
    rw [hs.sound.size_tape, ← hsize]
    exact beginsFresh_new settings devices
  obtain ⟨ready, hload, hdrain, hmachine⟩ :=
    machine_of_reset (hs.sound.built code hcode) hfresh hlisting hoffers
  obtain ⟨hloaded, hsafe⟩ := safe_of_load (Engine.Sound.new settings devices) hload
  have hcode' : s.reset.engine.loaded = some code := hcode
  constructor
  · rw [exists_stepUntilDone_iff hcode', exists_run_iff_of_load hsafe hload, hmachine,
      Machine.exists_ends_overlay_iff]
  · intro fuel bound next last ended answer hsteps hrun
    obtain ⟨outcome, hends, hanswer⟩ :=
      (stepUntilDone_eq_some_iff hcode' _).mp ⟨fuel, hsteps⟩
    obtain ⟨rfl, rfl⟩ := Prod.mk.inj hanswer
    obtain ⟨different, hother, rfl, rfl⟩ := ends_of_run hsafe hload hrun
    have hfollows := (follows_machine s.reset).ends hcode' hends
    have hfollows' := (follows_machine ready).ends hloaded hother
    obtain ⟨written, kept, hwritten, hsame⟩ := hends.overlay #[] ready.journal
    rw [← hmachine, Array.empty_append] at hsame
    obtain rfl := hother.unique hsame
    refine ⟨?_, rfl, rfl, ?_, ?_⟩
    · unfold finish
      cases outcome.2 <;> rfl
    · exact (unread_absorb hfollows).trans (unread_absorb hfollows').symm
    · intro hsink
      rw [written_absorb hfollows hsink, hwritten, written_finish hdrain]
      rfl

/-- `+[,.]` has read and written a 7 and failed for lack of input, on a tape that is kept. The next
bytes, a 3 and a 0, come later: after a reset the program reads and writes them like a new engine,
and they follow the 9 and the 7 that the sink has received before. -/
theorem reset_restarts_after_a_failure :
    let config : Config := ⟨1, by decide, true, true⟩
    ∃ s fuel next, Reachable config s ∧ s.engine.failure = some (.inputExhausted 0) ∧
      s.engine.tape = #[7] ∧ s.written = #[9, 7] ∧
      s.reset.stepUntilDone fuel = some (next, .ok ()) ∧
      next.engine.result = ⟨none, 5, 0, 8⟩ ∧ next.engine.tape = #[0] ∧ next.unread = [] ∧
      next.written = #[9, 7, 3, 0] := by
  intro config
  let devices : Devices := ⟨#[[some 7, none, some 3, some 0]], #[⟨#[9], 1⟩]⟩
  let settings : Config := ⟨1, by decide, false, false⟩
  let listing : Listing := .given (.text "+[,.]")
  let failed := ((Session.new config devices).perform 9
    (.run listing (.stream 0) (.stream 0))).get (by decide +kernel)
  have hs : Reachable config failed.1 := .call (.new devices) ⟨9, (Option.some_get _).symm⟩
  have hcode : failed.1.engine.loaded =
      some ⟨Program.ofText "+[,.]", ⟨#[none, some 4, none, none, some 1]⟩⟩ := by decide +kernel
  have hunread : failed.1.unread = .ofBytes [3, 0] := by decide +kernel
  have hoffers : (Session.new settings .empty).Offers (.bytes [3, 0]) .none failed.1.unread :=
    hunread ▸ offers_bytes _ [3, 0]
  have hlisting : listing.toProgram = .ok (Program.ofText "+[,.]") := rfl
  have hsize : settings.tapeSize = config.tapeSize := rfl
  obtain ⟨hends, hsame⟩ := reset_restarts hs hcode hsize hlisting hoffers
  let fresh := ((Session.new settings .empty).run 30 listing (.bytes [3, 0]) .none).get
    (by decide +kernel)
  have hfresh : (Session.new settings .empty).run 30 listing (.bytes [3, 0]) .none =
      some (fresh.1, .ok ⟨none, 5, 0, 8⟩) := by decide +kernel
  obtain ⟨fuel, ⟨next, ended⟩, hnext⟩ := hends.mpr ⟨30, _, hfresh⟩
  obtain ⟨hanswer, hresult, htape, hleft, hwritten⟩ := hsame fuel 30 next _ ended _ hnext hfresh
  have hended : ended = .ok () := by
    cases ended with
    | ok _ => rfl
    | error cause => cases hanswer
  have hbefore : failed.1.written = #[9, 7] := by decide +kernel
  have hadded : fresh.1.written = #[3, 0] := by decide +kernel
  rw [hbefore, hadded] at hwritten
  exact ⟨failed.1, fuel, next, hs, by decide +kernel, by decide +kernel, hbefore,
    hended ▸ hnext, hresult.trans (by decide +kernel), htape.trans (by decide +kernel),
    hleft.trans (by decide +kernel), hwritten (by decide +kernel)⟩

end Session

end TapeMachine
