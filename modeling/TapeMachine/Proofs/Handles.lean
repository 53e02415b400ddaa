import TapeMachine.Proofs.Causality
import TapeMachine.Proofs.Rejection
import Mathlib.Data.List.TakeWhile

/-!
The kind of handle makes no difference. What a program reads may be given as bytes, as text with one
byte for each character, as a source or as an open stream, and all of these deliver the same answers
if they hold the same bytes (`Input.Holds`). What it writes may go to a buffer or to a stream, and
what these have received before is never looked at (`Machine.Ends.setOutput`). So the machines that
run with any of them differ in nothing but what had been written before (`start_machine`), and their
runs differ in nothing at all.

Text fits into bytes exactly if none of its characters is beyond 255 (`Text.encodeLatin1_of_narrow`,
`Text.exists_encodeError`).
-/

set_option autoImplicit false
set_option relaxedAutoImplicit false

namespace TapeMachine

/-! ### One byte for each character -/

namespace Text

variable {text : List Char}

theorem encodeLatin1_of_narrow (h : ∀ c ∈ text, c.toNat ≤ 255) :
    encodeLatin1 text = .ok (text.map fun c ↦ UInt8.ofNat c.toNat) := by
  have hnarrow : text.dropWhile (!isWide ·) = [] := by
    rw [List.dropWhile_eq_nil_iff]
    intro c hc
    have hle := h c hc
    simpa [isWide] using hle
  unfold encodeLatin1
  rw [hnarrow]

theorem exists_encodeError (h : ∃ c ∈ text, 255 < c.toNat) :
    ∃ cause, encodeLatin1 text = .error cause := by
  obtain ⟨wide, hmem, hwide⟩ := h
  unfold encodeLatin1
  cases hdrop : text.dropWhile (!isWide ·) with
  | nil =>
    have hnarrow := List.dropWhile_eq_nil_iff.mp hdrop wide hmem
    simp [isWide, hwide] at hnarrow
  | cons first rest => exact ⟨_, rfl⟩

/-- A text has an encoding, or one of its characters is beyond 255. -/
theorem narrow_or_wide (text : List Char) :
    (∀ c ∈ text, c.toNat ≤ 255) ∨ ∃ c ∈ text, 255 < c.toNat := by
  by_cases h : ∃ c ∈ text, 255 < c.toNat
  · exact .inr h
  · push Not at h
    exact .inl h

theorem toNat_ofNat_byte (b : UInt8) : (Char.ofNat b.toNat).toNat = b.toNat := by
  have hlt := b.toNat_lt
  have hvalid : b.toNat.isValidChar := .inl (by omega)
  rw [Char.ofNat, dif_pos hvalid]
  rfl

theorem toNat_byte_of_narrow {c : Char} (h : c.toNat ≤ 255) :
    (UInt8.ofNat c.toNat).toNat = c.toNat := by
  rw [UInt8.toNat_ofNat']
  omega

/-- Bytes that are read as text and written again are the same bytes. -/
theorem encodeLatin1_decodeLatin1 (bytes : List UInt8) :
    encodeLatin1 (decodeLatin1 bytes) = .ok bytes := by
  rw [encodeLatin1_of_narrow, decodeLatin1, List.map_map]
  · simp [Function.comp_def, toNat_ofNat_byte]
  · intro c hc
    obtain ⟨b, -, rfl⟩ := List.mem_map.mp hc
    have hlt := b.toNat_lt
    rw [toNat_ofNat_byte]
    omega

end Text

/-- Bytes that are made of the characters of a text answer with their numbers. -/
theorem Feed.ofBytes_of_narrow {text : List Char} (h : ∀ c ∈ text, c.toNat ≤ 255) :
    ofBytes (text.map fun c ↦ UInt8.ofNat c.toNat) = text.map fun c ↦ some (c.toNat : ℤ) := by
  rw [ofBytes, List.map_map]
  refine List.map_congr_left fun c hc ↦ ?_
  rw [Function.comp_apply, Text.toNat_byte_of_narrow (h c hc)]

/-! ### Handles -/

/-- The argument lets a program read these bytes: they are given as they are, as the text with
these bytes for its characters, as a source that has them still to deliver, or as a stream that
hands them over one at a time. -/
inductive Input.Holds (devices : Devices) (data : List UInt8) : Input → Prop
  | bytes : Holds devices data (.bytes data)
  | text : Holds devices data (.text (String.ofList (Text.decodeLatin1 data)))
  | source (kind : SourceKind) (feed : ℕ) (h : devices.feeds[feed]? = some (.ofBytes data)) :
      Holds devices data (.source ⟨kind, feed⟩)
  | stream (feed : ℕ) (h : devices.feeds[feed]? = some (.ofChunks (data.map fun b ↦ [b]))) :
      Holds devices data (.stream feed)

/-- The argument is nothing, for which there will be a new buffer, or there is a sink for it. -/
def Output.Exists (devices : Devices) : Output → Prop
  | .none => True
  | .stream drain => drain < devices.drains.size
  | .sink handle => handle.drain < devices.drains.size

/-- Where the bytes of a run go. -/
def Output.drain (devices : Devices) : Output → ℕ
  | .none => devices.drains.size
  | .stream drain => drain
  | .sink handle => handle.drain

namespace Devices

variable {devices : Devices} {data : List UInt8} {input : Input} {output : Output}

theorem pending_bytesSource (devices : Devices) (data : List UInt8) :
    (devices.bytesSource data).1.pending (devices.bytesSource data).2 = .ofBytes data := by
  simp [bytesSource, addFeed, pending]

/-- Whatever holds the bytes can be opened, and delivers them. No sink notices. -/
theorem exists_openSource (h : input.Holds devices data) :
    ∃ opened source, devices.openSource input = .ok (opened, source) ∧
      opened.pending source = .ofBytes data ∧ opened.drains = devices.drains := by
  cases h with
  | bytes => exact ⟨_, _, rfl, devices.pending_bytesSource data, rfl⟩
  | text =>
    refine ⟨_, _, ?_, devices.pending_bytesSource data, rfl⟩
    rw [openSource, textSource, String.toList_ofList, Text.encodeLatin1_decodeLatin1]
  | source kind feed hfeed =>
    refine ⟨_, _, rfl, ?_, rfl⟩
    simp [pending, hfeed]
  | stream feed hfeed =>
    refine ⟨_, _, rfl, ?_, rfl⟩
    simp [pending, hfeed, Feed.ofChunks_singletons]

/-- The sink of an argument is where the bytes go, and what it has received before is known. -/
theorem openSink_drain (devices : Devices) (h : output.Exists devices) :
    (devices.openSink output).2.drain = output.drain devices ∧
      output.drain devices < (devices.openSink output).1.drains.size ∧
      (devices.openSink output).1.received (output.drain devices) =
        devices.received (output.drain devices) := by
  cases output with
  | none => simp [openSink, addDrain, Output.drain, received]
  | stream drain => exact ⟨rfl, h, rfl⟩
  | sink sink => exact ⟨rfl, h, rfl⟩

theorem received_congr {first second : Devices} (h : first.drains = second.drains) (drain : ℕ) :
    first.received drain = second.received drain := by
  rw [received, received, h]

end Devices

/-! ### What was written before -/

/-- A run does the same whatever has been written before, and adds to it. -/
theorem Machine.Ends.setOutput {code : Code} {m : Machine} {outcome : Machine × Except Fault Unit}
    (h : m.Ends code outcome) :
    ∃ written : Array UInt8, ∀ output, (m.setOutput output).Ends code
      (outcome.1.setOutput (output ++ written), outcome.2) := by
  -- The run is followed step by step, and what its steps write adds up.
  obtain ⟨fuel, hwalk⟩ := walk_eq_some_iff.mpr h
  suffices hother : ∃ written : Array UInt8, ∀ output, (m.setOutput output).walk code fuel =
      some (outcome.1.setOutput (output ++ written), outcome.2) by
    obtain ⟨written, hwritten⟩ := hother
    exact ⟨written, fun output ↦ walk_eq_some_iff.mp ⟨fuel, hwritten output⟩⟩
  clear h
  induction fuel generalizing m with
  | zero => cases hwalk
  | succ fuel ih =>
    obtain ⟨first, hstep⟩ := m.step_output code
    unfold walk at hwalk
    cases heq : m.step code with
    | mk next answer =>
      rw [heq] at hwalk hstep
      cases answer with
      | error fault =>
        cases hwalk
        exact ⟨first, fun output ↦ by rw [walk, hstep]⟩
      | ok goesOn =>
        cases goesOn with
        | false =>
          cases hwalk
          exact ⟨first, fun output ↦ by rw [walk, hstep]⟩
        | true =>
          obtain ⟨rest, hrest⟩ := ih hwalk
          refine ⟨first ++ rest, fun output ↦ ?_⟩
          rw [walk, hstep, ← Array.append_assoc]
          exact hrest (output ++ first)

/-- What a run adds to the bytes of one machine it adds to those of the other. -/
theorem Machine.Ends.exists_written {code : Code} {m : Machine}
    {outcome : Machine × Except Fault Unit} (h : m.Ends code outcome) (before : Array UInt8) :
    ∃ written : Array UInt8, outcome.1.output = m.output ++ written ∧
      (m.setOutput before).Ends code (outcome.1.setOutput (before ++ written), outcome.2) := by
  obtain ⟨written, hwritten⟩ := h.setOutput
  have hself : outcome = (outcome.1.setOutput (m.output ++ written), outcome.2) :=
    h.unique (hwritten m.output)
  exact ⟨written, congrArg (fun outcome ↦ outcome.1.output) hself, hwritten before⟩

namespace Session

variable {config : Config} {s ready other : Session} {code : Code} {listing : Listing}
  {input taken : Input} {output given : Output} {data : List UInt8}
  {outcome : Machine × Except Fault Unit}

/-- Machines that are ready to run the same code over the same answers differ in what was written
before, and in nothing else. -/
theorem start_machine (s : Session) (code : Code) {devices different : Devices}
    {source another : Source} (hpending : devices.pending source = different.pending another)
    (output given : Output) :
    (s.start code different another given).machine =
      (s.start code devices source output).machine.setOutput
        ((different.openSink given).1.received (different.openSink given).2.drain).bytes := by
  have hmachine (devices : Devices) (source : Source) (output : Output) :
      (s.start code devices source output).machine =
        { tape := s.engine.rewind.tape
          pointer := s.engine.rewind.pointer
          pc := s.engine.rewind.pc
          steps := s.engine.rewind.steps
          failure := s.engine.rewind.failure
          input := devices.pending source
          output := ((devices.openSink output).1.received (devices.openSink output).2.drain).bytes
          journal := s.journal ++ [Event.loaded code.program.size code.index.size] } := by
    cases output <;> rfl
  rw [hmachine, hmachine, hpending]
  rfl

/-- Whatever holds the bytes and wherever the output goes, an accepted program is ready to run. -/
theorem exists_ready (code : Code) (hlisting : listing.toProgram = .ok code.program)
    (hbuild : BracketIndex.build code.program = .ok code.index)
    (hinput : input.Holds s.devices data) (houtput : output.Exists s.devices) :
    ∃ devices source, s.load listing input output =
        (s.start code devices source output, .ok (.ok code)) ∧
      devices.pending source = .ofBytes data ∧
      (s.start code devices source output).engine.sink.drain = output.drain s.devices ∧
      output.drain s.devices < (s.start code devices source output).devices.drains.size ∧
      ((devices.openSink output).1.received (devices.openSink output).2.drain).bytes =
        (s.devices.received (output.drain s.devices)).bytes := by
  obtain ⟨devices, source, hopened, hpending, hdrains⟩ := Devices.exists_openSource hinput
  have hsame : output.drain devices = output.drain s.devices := by
    cases output <;> simp [Output.drain, hdrains]
  have hexists : output.Exists devices := by
    simpa only [Output.Exists, hdrains] using houtput
  obtain ⟨hdrain, hlt, hreceived⟩ := devices.openSink_drain hexists
  rw [hsame] at hdrain hlt hreceived
  refine ⟨devices, source, load_eq_start code hlisting hbuild hopened output, hpending, hdrain, hlt,
    ?_⟩
  rw [hdrain, hreceived, Devices.received_congr hdrains]

/-- A run that ends for one of two machines that differ in what was written before ends for the
other one too, and both give the same answer and add the same bytes. -/
theorem exists_finish_of_setOutput {before : Array UInt8}
    (hmachine : other.machine = ready.machine.setOutput before)
    (hends : ready.machine.Ends code outcome) :
    ∃ written : Array UInt8, outcome.1.output = ready.machine.output ++ written ∧
      other.machine.Ends code (outcome.1.setOutput (before ++ written), outcome.2) := by
  rw [hmachine]
  exact hends.exists_written before

theorem finish_setOutput (ready other : Session) (outcome : Machine × Except Fault Unit)
    (output : Array UInt8) :
    (other.finish (outcome.1.setOutput output, outcome.2)).2 = (ready.finish outcome).2 := by
  unfold finish
  cases outcome.2 <;> rfl

/-- A run without an accepted program takes no notice of its source and sink. -/
theorem run_ignores_handles (s : Session) (h : ¬listing.Accepted) :
    ∃ answer, answer.1.devices = s.devices ∧
      ∀ fuel input output, s.run fuel listing input output = some answer := by
  cases hprogram : listing.toProgram with
  | error cause =>
    exact ⟨(s, .error (.program cause)), rfl, fun _ _ _ ↦ by simp only [run, load, hprogram]⟩
  | ok program =>
    cases hbuild : BracketIndex.build program with
    | error failure =>
      have hcompile : Code.compile program = .error failure := by
        simp only [Code.compile, hbuild]
        rfl
      refine ⟨(s.reject failure, .ok ⟨some failure, 0, s.engine.pointer, 0⟩), rfl, fun _ _ _ ↦ ?_⟩
      simp only [run, load, hprogram, hcompile]
      rfl
    | ok index => exact absurd ⟨⟨program, index⟩, hprogram, hbuild⟩ h

/-- It makes no difference to a run which of two inputs it reads from and which of two outputs it
writes to: the run with the one comes to an end exactly if the run with the other does, and then
both give the same answer, leave the same tape, have the same left to read, and have added the same
bytes to what their sinks had received. -/
def SameThrough (s : Session) (listing : Listing) (input taken : Input)
    (output given : Output) : Prop :=
  ((∃ fuel outcome, s.run fuel listing input output = some outcome) ↔
    ∃ fuel outcome, s.run fuel listing taken given = some outcome) ∧
  ∀ fuel bound next last answer result,
    s.run fuel listing input output = some (next, answer) →
    s.run bound listing taken given = some (last, result) →
    answer = result ∧ next.engine.tape = last.engine.tape ∧ next.unread = last.unread ∧
    ∃ written : Array UInt8,
      (next.devices.received (output.drain s.devices)).bytes =
        (s.devices.received (output.drain s.devices)).bytes ++ written ∧
      (last.devices.received (given.drain s.devices)).bytes =
        (s.devices.received (given.drain s.devices)).bytes ++ written

theorem sameThrough_of_not_accepted (s : Session) (h : ¬listing.Accepted) (input taken : Input)
    (output given : Output) : s.SameThrough listing input taken output given := by
  obtain ⟨answer, hdevices, hrun⟩ := s.run_ignores_handles h
  refine ⟨by simp only [hrun], fun fuel bound next last first second hfirst hsecond ↦ ?_⟩
  rw [hrun] at hfirst hsecond
  cases hfirst
  cases hsecond
  exact ⟨rfl, rfl, rfl, #[], by rw [hdevices, Array.append_empty],
    by rw [hdevices, Array.append_empty]⟩

theorem sameThrough_of_accepted (code : Code) (hs : s.engine.Sound config)
    (hlisting : listing.toProgram = .ok code.program)
    (hbuild : BracketIndex.build code.program = .ok code.index)
    (hinput : input.Holds s.devices data) (htaken : taken.Holds s.devices data)
    (houtput : output.Exists s.devices) (hgiven : given.Exists s.devices) :
    s.SameThrough listing input taken output given := by
  obtain ⟨devices, source, hload, hpending, hdrain, hlt, hbefore⟩ :=
    exists_ready code hlisting hbuild hinput houtput
  obtain ⟨devices', source', hload', hpending', hdrain', hlt', hbefore'⟩ :=
    exists_ready code hlisting hbuild htaken hgiven
  have hmachine := s.start_machine code (hpending.trans hpending'.symm) output given
  have hback := s.start_machine code (hpending'.trans hpending.symm) given output
  rw [hbefore'] at hmachine
  rw [hbefore] at hback
  have hstart : (s.start code devices source output).machine.output =
      (s.devices.received (output.drain s.devices)).bytes := congrArg Machine.output hback
  obtain ⟨hcode, hsafe⟩ := safe_of_load hs hload
  obtain ⟨hcode', hsafe'⟩ := safe_of_load hs hload'
  generalize s.start code devices source output = ready at *
  generalize s.start code devices' source' given = other at *
  constructor
  · rw [exists_run_iff_of_load hsafe hload, exists_run_iff_of_load hsafe' hload']
    constructor
    · rintro ⟨outcome, hends⟩
      obtain ⟨written, -, hother⟩ := exists_finish_of_setOutput hmachine hends
      exact ⟨_, hother⟩
    · rintro ⟨outcome, hends⟩
      obtain ⟨written, -, hother⟩ := exists_finish_of_setOutput hback hends
      exact ⟨_, hother⟩
  · intro fuel bound next last answer result hrun hrun'
    obtain ⟨outcome, hends, rfl, rfl⟩ := ends_of_run hsafe hload hrun
    obtain ⟨different, hends', rfl, rfl⟩ := ends_of_run hsafe' hload' hrun'
    obtain ⟨written, hwritten, hother⟩ := exists_finish_of_setOutput hmachine hends
    obtain rfl := hends'.unique hother
    have hfollows := (follows_machine ready).ends hcode hends
    have hfollows' := (follows_machine other).ends hcode' hends'
    rw [← hdrain] at hlt
    rw [← hdrain'] at hlt'
    refine ⟨(finish_setOutput ready other outcome _).symm, rfl, ?_, written, ?_, ?_⟩
    · exact (unread_absorb hfollows).trans (unread_absorb hfollows').symm
    · rw [← hstart, ← hwritten, ← hdrain]
      exact written_finish hlt
    · rw [← hdrain']
      exact written_finish hlt'

/-- An accepted program cannot be loaded with a text that has a character beyond 255. -/
theorem load_of_wide {text : String} (haccepted : listing.Accepted)
    (hwide : ∃ c ∈ text.toList, 255 < c.toNat) (output : Output) :
    ∃ cause, (s.load listing (.text text) output).2 = .error cause := by
  obtain ⟨code, hlisting, hbuild⟩ := haccepted
  obtain ⟨cause, hcause⟩ := Text.exists_encodeError hwide
  have hopened : s.devices.openSource (.text text) = .error (.unencodable cause) := by
    rw [Devices.openSource, Devices.textSource, hcause]
  exact ⟨_, by rw [load_eq_install code hlisting hbuild hopened output]⟩

/-- With any other text it can, and then it has one number to read for each character. -/
theorem load_of_narrow {text : String} (haccepted : listing.Accepted)
    (hnarrow : ∀ c ∈ text.toList, c.toNat ≤ 255) (output : Output) :
    ∃ ready code, s.load listing (.text text) output = (ready, .ok (.ok code)) ∧
      ready.unread = .ofBytes (text.toList.map fun c ↦ UInt8.ofNat c.toNat) := by
  obtain ⟨code, hlisting, hbuild⟩ := haccepted
  have hopened : s.devices.openSource (.text text) =
      .ok (s.devices.bytesSource (text.toList.map fun c ↦ UInt8.ofNat c.toNat)) := by
    rw [Devices.openSource, Devices.textSource, Text.encodeLatin1_of_narrow hnarrow]
  refine ⟨_, code, load_eq_start code hlisting hbuild hopened output, ?_⟩
  exact (congrArg Memory.input (s.start_memory code _ _ output)).trans
    (s.devices.pending_bytesSource _)

/-- It does not matter how the bytes to read are handed over, as bytes, text, a source or a stream,
nor whether what is written goes to a buffer or to a stream: runs of every program, from every tape
and pointer and by either strategy, are the same through all of them. Text is refused by an accepted
program exactly if one of its characters is beyond 255; otherwise the program has one byte to read
for each character, and what it has read and what it leaves unread are these, in their order. -/
theorem handles_make_no_difference {config : Config} {s : Session} {data : List UInt8}
    {input taken : Input} {output given : Output} (hs : s.engine.Sound config)
    (hinput : input.Holds s.devices data) (htaken : taken.Holds s.devices data)
    (houtput : output.Exists s.devices) (hgiven : given.Exists s.devices) (listing : Listing) :
    s.SameThrough listing input taken output given ∧
    (listing.Accepted → ∀ text : String,
      ((∃ cause, (s.load listing (.text text) output).2 = .error cause) ↔
        ∃ c ∈ text.toList, 255 < c.toNat) ∧
      ((∀ c ∈ text.toList, c.toNat ≤ 255) →
        (s.load listing (.text text) output).1.unread =
          text.toList.map (fun c ↦ some (c.toNat : ℤ)) ∧
        ∀ fuel next answer, s.run fuel listing (.text text) output = some (next, answer) →
          ∃ result, answer = .ok result ∧
            .ofBytes ((s.load listing (.text text) output).1.readings result.steps) ++
              next.unread = text.toList.map fun c ↦ some (c.toNat : ℤ))) := by
  constructor
  · by_cases haccepted : listing.Accepted
    · obtain ⟨code, hlisting, hbuild⟩ := haccepted
      exact sameThrough_of_accepted code hs hlisting hbuild hinput htaken houtput hgiven
    · exact s.sameThrough_of_not_accepted haccepted input taken output given
  intro haccepted text
  constructor
  · refine ⟨fun ⟨cause, hcause⟩ ↦ ?_, fun hwide ↦ load_of_wide haccepted hwide output⟩
    rcases Text.narrow_or_wide text.toList with hnarrow | hwide
    · obtain ⟨ready, code, hload, -⟩ := load_of_narrow (s := s) haccepted hnarrow output
      simp [hload] at hcause
    · exact hwide
  · intro hnarrow
    obtain ⟨ready, code, hload, hunread⟩ := load_of_narrow (s := s) haccepted hnarrow output
    have hbytes := Feed.ofBytes_of_narrow hnarrow
    refine ⟨by rw [hload, hunread, hbytes], fun fuel next answer hrun ↦ ?_⟩
    obtain ⟨result, hanswer, -, hreadings⟩ := readings_append_unread hs hload hunread hrun
    rw [hload, ← hbytes]
    exact ⟨result, hanswer, hreadings⟩

/-- The bytes 0 and 200 are read as a text into a new buffer, and from one stream into another that
has received a 9 before. Both runs of `,.,.,` find the zero, and both ask for a third byte; a text
with a character beyond 255 is refused. -/
theorem handles_make_no_difference_to_a_zero :
    let s : Session := .new ⟨1, by decide, false, true⟩
      ⟨#[.ofChunks [[0], [200]]], #[⟨#[9], 1⟩]⟩
    let listing : Listing := .given (.text ",.,.,")
    let ended : RunResult := ⟨some (.inputExhausted 0), 4, 0, 4⟩
    (∃ next bound last, s.run 30 listing (.text "\x00È") .none = some (next, .ok ended) ∧
      s.run bound listing (.stream 0) (.stream 0) = some (last, .ok ended) ∧
      next.written = #[0, 200] ∧ (last.devices.received 0).bytes = #[9, 0, 200]) ∧
    ∃ cause, (s.load listing (.text "Ā") .none).2 = .error cause := by
  intro s listing ended
  have hs : s.engine.Sound s.engine.config := .new s.engine.config _
  have htext : (Input.text "\x00È").Holds s.devices [0, 200] := by
    have hchars : "\x00È" = String.ofList (Text.decodeLatin1 [0, 200]) := by decide +kernel
    rw [hchars]
    exact .text
  have hstream : (Input.stream 0).Holds s.devices [0, 200] := .stream 0 (by decide +kernel)
  have houtput : Output.none.Exists s.devices := trivial
  have hgiven : (Output.stream 0).Exists s.devices := by
    change 0 < s.devices.drains.size
    decide +kernel
  have hbuild : BracketIndex.build (Program.ofText ",.,.,") =
      .ok ⟨#[none, none, none, none, none]⟩ := by decide +kernel
  have haccepted : listing.Accepted := ⟨⟨Program.ofText ",.,.,", _⟩, rfl, hbuild⟩
  obtain ⟨⟨hends, hsame⟩, hrefused⟩ := handles_make_no_difference hs htext hstream houtput hgiven
    listing
  let text := (s.run 30 listing (.text "\x00È") .none).get (by decide +kernel)
  have hrun : s.run 30 listing (.text "\x00È") .none = some (text.1, .ok ended) := by
    decide +kernel
  obtain ⟨bound, ⟨last, result⟩, hlast⟩ := hends.mp ⟨30, _, hrun⟩
  obtain ⟨rfl, -, -, written, hnext, hwritten⟩ := hsame 30 bound _ last _ result hrun hlast
  have hbytes : (text.1.devices.received 2).bytes = #[0, 200] := by decide +kernel
  have hbefore : (s.devices.received 2).bytes = #[] := by decide +kernel
  have hgone : (s.devices.received 0).bytes = #[9] := by decide +kernel
  obtain rfl : #[0, 200] = written := by
    have hdrain : Output.drain s.devices .none = 2 := by decide +kernel
    rw [hdrain, hbytes, hbefore, Array.empty_append] at hnext
    exact hnext
  refine ⟨⟨text.1, bound, last, hrun, hlast, by decide +kernel, ?_⟩, ?_⟩
  · exact hwritten.trans (by rw [Output.drain, hgone]; rfl)
  · exact ((hrefused haccepted "Ā").1).mpr ⟨'Ā', by decide +kernel, by decide⟩

end Session

end TapeMachine
