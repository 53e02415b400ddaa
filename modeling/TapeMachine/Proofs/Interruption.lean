import TapeMachine.Proofs.Handles

/-!
Loads that are cut short. There are two reasons for it: the argument is no program, or the program
is accepted and its text to read does not fit into bytes (`load_error_cases`). In the first case
nothing has happened. In the second one the code has been installed before its source was opened:
the engine is rewound and stands before the new code, but still at its old source and sink, and
steps from there let the new code read and write what the old one had (`install_machine`).
-/

set_option autoImplicit false
set_option relaxedAutoImplicit false

namespace TapeMachine.Session

variable {s next : Session} {code : Code} {listing : Listing} {input : Input} {output : Output}
  {cause : Error}

/-- What can be given for a source opens, unless it is a text with a character beyond 255. -/
theorem exists_wide_of_openSource {devices : Devices} {reason : SourceError}
    (h : devices.openSource input = .error reason) :
    ∃ text found, input = .text text ∧ (∃ c ∈ text.toList, 255 < c.toNat) ∧
      reason = .unencodable found := by
  cases input with
  | none => cases h
  | bytes data => cases h
  | stream feed => cases h
  | source source => cases h
  | text text =>
    rcases Text.narrow_or_wide text.toList with hnarrow | hwide
    · rw [Devices.openSource, Devices.textSource, Text.encodeLatin1_of_narrow hnarrow] at h
      cases h
    · obtain ⟨found, hfound⟩ := Text.exists_encodeError hwide
      rw [Devices.openSource, Devices.textSource, hfound] at h
      cases h
      exact ⟨text, found, rfl, hwide, rfl⟩

/-- The two ways in which a load is cut short. -/
theorem load_error_cases (h : s.load listing input output = (next, .error cause)) :
    (∃ reason, listing.toProgram = .error reason ∧ cause = .program reason ∧ next = s) ∨
    ∃ code text reason, listing.toProgram = .ok code.program ∧
      BracketIndex.build code.program = .ok code.index ∧ input = .text text ∧
      (∃ c ∈ text.toList, 255 < c.toNat) ∧ cause = .source (.unencodable reason) ∧
      next = s.install code := by
  rcases s.load_cases listing input output with ⟨reason, hlisting, hload⟩ |
    ⟨program, failure, -, -, hload⟩ | ⟨code, reason, hlisting, hbuild, hopened, hload⟩ |
    ⟨code, devices, source, -, -, -, hload⟩
  · cases hload.symm.trans h
    exact .inl ⟨reason, hlisting, rfl, rfl⟩
  · cases hload.symm.trans h
  · cases hload.symm.trans h
    obtain ⟨text, found, rfl, hwide, rfl⟩ := exists_wide_of_openSource hopened
    exact .inr ⟨code, text, found, hlisting, hbuild, rfl, hwide, rfl, rfl⟩
  · cases hload.symm.trans h

/-- Code that has been installed is about to run from its start, over what is left in the source of
the code before it and behind what that one has written. -/
theorem install_machine (s : Session) (code : Code) :
    (s.install code).engine.loaded = some code ∧
      (s.install code).machine =
        { tape := s.engine.rewind.tape
          pointer := s.engine.rewind.pointer
          pc := 0
          steps := 0
          failure := none
          input := s.unread
          output := s.written
          journal := s.journal } := by
  obtain ⟨hpc, hsteps, hfailure⟩ := s.engine.rewind_registers
  have hhandles : s.engine.rewind.source = s.engine.source ∧
      s.engine.rewind.sink = s.engine.sink := by
    unfold Engine.rewind
    split_ifs <;> exact ⟨rfl, rfl⟩
  refine ⟨rfl, ?_⟩
  change Machine.mk s.engine.rewind.tape s.engine.rewind.pointer s.engine.rewind.pc
    s.engine.rewind.steps s.engine.rewind.failure (s.devices.pending s.engine.rewind.source)
    (s.devices.received s.engine.rewind.sink.drain).bytes s.journal = _
  rw [hpc, hsteps, hfailure, hhandles.1, hhandles.2]
  rfl

/-- A load or run that is cut short while it loads leaves the session as it was, unless it is given
a text that does not fit into bytes. Then it has installed the code: the engine is rewound, and all
that it has kept for certain are its settings and its source and sink, from and to which the new
code reads and writes if it is stepped through. -/
theorem interrupted_loads_keep_all_or_install {s next : Session} {listing : Listing}
    {input : Input} {output : Output} {cause : Error}
    (h : s.load listing input output = (next, .error cause)) :
    (∀ fuel, s.run fuel listing input output = some (next, .error cause)) ∧
    ((∀ text, input = .text text → ∀ c ∈ text.toList, c.toNat ≤ 255) → next = s) ∧
    ((∃ reason, listing.toProgram = .error reason ∧ cause = .program reason ∧ next = s) ∨
      ∃ code text reason, listing.toProgram = .ok code.program ∧
        BracketIndex.build code.program = .ok code.index ∧ input = .text text ∧
        (∃ c ∈ text.toList, 255 < c.toNat) ∧ cause = .source (.unencodable reason) ∧
        next.engine = { s.engine.rewind with loaded := some code } ∧
        next.devices = s.devices ∧ next.journal = s.journal ∧
        next.machine.memory =
          ⟨s.engine.rewind.tape, s.engine.rewind.pointer, s.unread, s.written⟩) := by
  refine ⟨fun fuel ↦ by simp only [run, h], ?_⟩
  rcases load_error_cases h with ⟨reason, hlisting, rfl, rfl⟩ |
    ⟨code, text, reason, hlisting, hbuild, rfl, ⟨c, hmem, hwide⟩, rfl, rfl⟩
  · exact ⟨fun _ ↦ rfl, .inl ⟨reason, hlisting, rfl, rfl⟩⟩
  · refine ⟨fun hnarrow ↦ ?_, .inr ⟨code, text, reason, hlisting, hbuild, rfl, ⟨c, hmem, hwide⟩,
      rfl, rfl, rfl, rfl, ?_⟩⟩
    · exact absurd (hnarrow text rfl c hmem) (Nat.not_le.mpr hwide)
    · exact congrArg Machine.memory (s.install_machine code).2

/-- In the middle of `,.,` a number in place of a piece of program text cuts a load short, and the
session is as it was. -/
theorem interrupted_loads_keep_all_of_a_run :
    let s := ((Session.new ⟨2, by decide, false, true⟩ .empty).load (.given (.text ",.,"))
      (.bytes [5, 6]) .none).1.step.1
    let listing : Listing := .given (.list [.text "+.", .int 3])
    s.engine.tape = #[5, 0] ∧ s.unread = [some 6] ∧
      s.load listing (.text "Ā") .none = (s, .error (.program (.notText 1 "int"))) ∧
      ∀ fuel, s.run fuel listing (.text "Ā") .none =
        some (s, .error (.program (.notText 1 "int"))) := by
  intro s listing
  have hload : s.load listing (.text "Ā") .none = (s, .error (.program (.notText 1 "int"))) := rfl
  exact ⟨by decide +kernel, by decide +kernel, hload,
    (interrupted_loads_keep_all_or_install hload).1⟩

/-- At the same place a text that does not fit into bytes cuts a load of `+.` short, but the session
is not as it was: the tape is cleared, and two steps let the new code write to the sink of the
old one. -/
theorem interrupted_load_is_not_undone :
    let config : Config := ⟨2, by decide, false, true⟩
    let s :=
      ((Session.new config .empty).load (.given (.text ",.,")) (.bytes [5, 6]) .none).1.step.1
    let interrupted := s.load (.given (.text "+.")) (.text "Ā") .none
    Reachable config s ∧
      interrupted.2 = .error (.source (.unencodable ⟨0, 0, 'Ā'⟩)) ∧
      s.engine.tape = #[5, 0] ∧ interrupted.1.engine.tape = #[0, 0] ∧
      interrupted.1.engine.loaded ≠ s.engine.loaded ∧ interrupted.1 ≠ s ∧
      (interrupted.1.after 2).engine.sink = s.engine.sink ∧ s.written = #[] ∧
      (interrupted.1.after 2).written = #[1] := by
  intro config s interrupted
  have hreachable : Reachable config s :=
    .call (.call (.new .empty) (performs_load _ _ _ _)) (performs_step _)
  have hloaded : interrupted.1.engine.loaded ≠ s.engine.loaded := by decide +kernel
  refine ⟨hreachable, by decide +kernel, by decide +kernel, by decide +kernel, hloaded, ?_,
    by decide +kernel, by decide +kernel, by decide +kernel⟩
  intro hsame
  exact hloaded (congrArg (fun session ↦ session.engine.loaded) hsame)

end TapeMachine.Session
