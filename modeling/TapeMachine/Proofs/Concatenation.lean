import TapeMachine.Proofs.Isolation
import TapeMachine.Proofs.Strategies

/-!
Runs on a kept tape compose like program texts. Of two accepted programs the one text behind the
other is accepted too (`exists_build_append`), and each of them stands in it with its own pairs
(`within_append_left`, `within_append_right`). A machine that runs the whole text therefore shadows
the run of the first program, and from the end of the first program on it shadows the run of the
second one, which begins with the memory that the first one has left.

What stops the first program stops the whole (`Shadows.ends_of_stops`), what does not end does not
end in the whole either (`Shadows.exists_last`), and a first program that is carried out to its end
hands over to the second (`Shadows.hands_over`). Between the two runs the bytes go through the
devices, which hold afterwards what they would hold after one run (`devices_finish_finish`).
-/

set_option autoImplicit false
set_option relaxedAutoImplicit false

namespace TapeMachine

open StateTransition Matching

/-! ### One text behind the other -/

instance : Append Program := ⟨fun p q ↦ ⟨p.chars ++ q.chars⟩⟩

namespace Program

variable {p q : Program} {i j : BracketIndex}

theorem toList_append (p q : Program) :
    (p ++ q).chars.toList = p.chars.toList ++ q.chars.toList :=
  Array.toList_append

theorem size_append (p q : Program) : (p ++ q).size = p.size + q.size :=
  Array.size_append

theorem exists_build_append (hp : BracketIndex.build p = .ok i)
    (hq : BracketIndex.build q = .ok j) : ∃ index, BracketIndex.build (p ++ q) = .ok index := by
  rw [build_isOk_iff_balanced, toList_append, balanced_iff_level, List.length_append]
  have hfirst := balanced_iff_level.mp ((build_isOk_iff_balanced p).mp ⟨i, hp⟩)
  have hsecond := balanced_iff_level.mp ((build_isOk_iff_balanced q).mp ⟨j, hq⟩)
  refine ((level_append_iff le_rfl).mpr hfirst).trans ?_
  have hrest : ((p.chars.toList ++ q.chars.toList).take
      (p.chars.toList.length + q.chars.toList.length)).drop p.chars.toList.length =
        q.chars.toList := by
    rw [← List.length_append, List.take_length, List.drop_left]
  rw [← hrest, level_between_iff (by rw [hrest])] at hsecond
  rw [hrest] at hsecond
  exact hsecond

theorem within_append_left (p q : Program) (i k : BracketIndex) :
    Code.Within ⟨p, i⟩ 0 ⟨p ++ q, k⟩ := by
  unfold Code.Within
  rw [Nat.zero_add, List.drop_zero, toList_append]
  exact List.take_left

theorem within_append_right (p q : Program) (j k : BracketIndex) :
    Code.Within ⟨q, j⟩ p.size ⟨p ++ q, k⟩ := by
  have hlength : (p ++ q).chars.toList.length = p.size + q.size := by
    rw [Array.length_toList]
    exact size_append p q
  unfold Code.Within
  rw [List.take_of_length_le hlength.le, toList_append]
  exact List.drop_left

end Program

/-! ### The end of the first text -/

namespace Machine

variable {a b c : Code} {offset clock : ℕ} {m n last next : Machine}
  {outcome : Machine × Except Fault Unit}

/-- A safe machine that makes no move has come to the end of its code, unless it stops with a
failure or a fault. -/
theorem Safe.halted_of_verdict (h : last.Safe a) (hmove : last.move a = none)
    (hfailure : (verdict (last.conclude a)).failure = none)
    (hanswer : (verdict (last.conclude a)).answer = .ok ()) : last.halted a = true := by
  by_contra hhalted
  have hconclude : last.conclude a = ((last.step a).1, (last.step a).2.map fun _ ↦ ()) :=
    if_neg hhalted
  rw [hconclude] at hfailure hanswer
  rcases h.step_cases (by simpa using hhalted) with ⟨next, hnext, -⟩ |
    ⟨-, rest, failure, hstep⟩ | ⟨-, value, rest, -, -, hstep⟩
  · rw [hmove] at hnext
    cases hnext
  · rw [hstep] at hfailure
    cases hfailure
  · rw [hstep] at hanswer
    cases hanswer

namespace Shadows

/-- What stops the part stops its shadow, at the same place and with the same verdict. -/
theorem ends_of_stops (h : Shadows a offset b clock m n) (hwithin : a.Within offset b)
    (hends : m.Ends a outcome) (hstops : ¬(outcome.1.failure = none ∧ outcome.2 = .ok ())) :
    ∃ different, n.Ends b different ∧ verdict outcome = verdict different ∧
      different.1.pc = offset + outcome.1.pc ∧ different.1.steps = clock + outcome.1.steps := by
  obtain ⟨last, hlast, hverdict, hpc, hsteps⟩ := hends.exists_last
  obtain ⟨hreach, hmove⟩ := mem_eval.mp hlast
  obtain ⟨other, hreachOther, hshadows⟩ := h.reaches hwithin hreach
  have hrun : last.halted a = false := by
    by_contra hhalted
    rw [verdict_of_halted (by simpa using hhalted), hshadows.alike.failure_left] at hverdict
    exact hstops ⟨congrArg Verdict.failure hverdict, congrArg Verdict.answer hverdict⟩
  rcases hshadows.step hwithin hrun with ⟨next, -, hnext, -⟩ | ⟨-, hmoveOther, hsame⟩
  · rw [hmove] at hnext
    cases hnext
  have hother : other ∈ eval (move b) n := mem_eval.mpr ⟨hreachOther, hmoveOther⟩
  obtain ⟨different, hdifferent⟩ := exists_ends_of_mem_eval hother
  obtain ⟨ended, hended, hverdictOther, hpcOther, hstepsOther⟩ := hdifferent.exists_last
  obtain rfl : ended = other := Part.mem_unique hended hother
  have hplace := hshadows.pc_eq
  have hclock := hshadows.steps_eq
  exact ⟨different, hdifferent, by rw [hverdict, hsame, hverdictOther], by omega, by omega⟩

/-- Where the part has been carried out to its end, its shadow goes on behind it, and from there it
shadows the next run that begins with the memory of the one before. -/
theorem hands_over (h : Shadows a offset b clock m n) (hwithin : a.Within offset b)
    (hends : m.Ends a outcome) (hfailure : outcome.1.failure = none)
    (hanswer : outcome.2 = .ok ()) (hsafe : next.Safe c)
    (hmemory : next.memory = outcome.1.memory)
    (hstart : next.pc = 0 ∧ next.steps = 0 ∧ next.failure = none) :
    ∃ other, Reaches (move b) n other ∧
      Shadows c (offset + a.program.size) b (clock + outcome.1.steps) next other := by
  obtain ⟨last, hlast, hverdict, -, hsteps⟩ := hends.exists_last
  obtain ⟨hreach, hmove⟩ := mem_eval.mp hlast
  obtain ⟨other, hreachOther, hshadows⟩ := h.reaches hwithin hreach
  have hhalted : last.halted a = true := by
    apply hshadows.safe.halted_of_verdict hmove
    · rw [← hverdict]
      exact hfailure
    · rw [← hverdict]
      exact hanswer
  have hover : (a.program.size : ℤ) ≤ last.pc := by
    simpa [halted, hshadows.alike.failure_left] using hhalted
  rw [verdict_of_halted hhalted] at hverdict
  have hleft : outcome.1.memory = last.memory := congrArg Verdict.memory hverdict
  have hle := hshadows.safe.pc_le
  have hplace := hshadows.pc_eq
  have hclock := hshadows.steps_eq
  obtain ⟨hpc, hzero, hnone⟩ := hstart
  refine ⟨other, hreachOther, hsafe, hshadows.safe_whole,
    ⟨?_, hnone, hshadows.alike.failure_right⟩, ?_, ?_⟩
  · rw [hmemory, hleft, hshadows.alike.memory_eq]
  · omega
  · omega

end Shadows

end Machine

/-! ### Two runs and one -/

namespace Session

variable {p q : Program} {i j : BracketIndex} {config : Config} {a w : Code}
  {s ready second whole mid : Session} {front back listing : Listing} {input : Input}
  {output : Output} {source : Source} {sink : Sink} {fuel : ℕ} {result : RunResult}
  {outcome last : Machine × Except Fault Unit} {answer : Except Error RunResult}

/-- On a kept tape, and with the same source and sink, a run begins with the memory that the run
before it has left. -/
theorem start_memory_finish (hkeep : ready.engine.config.keepTape = true)
    (hfollows : ready.Follows outcome.1)
    (hdrain : ready.engine.sink.drain < ready.devices.drains.size) (code : Code) :
    ((ready.finish outcome).1.start code (ready.finish outcome).1.devices ready.engine.source
      (.sink ready.engine.sink)).machine.memory = outcome.1.memory := by
  have hrewind := Engine.rewind_of_keepTape (e := (ready.finish outcome).1.engine) hkeep
  have hinput : (ready.finish outcome).1.devices.pending ready.engine.source = outcome.1.input :=
    congrArg Machine.input (machine_absorb hfollows)
  have houtput : ((ready.finish outcome).1.devices.received ready.engine.sink.drain).bytes =
      outcome.1.output := written_finish hdrain
  rw [start_memory, hrewind, hinput]
  exact congrArg (Memory.mk _ _ _) houtput

/-- Two runs with the same source and sink leave the devices as the last of them would have left
them alone. -/
theorem devices_finish_finish (hfirst : ready.Follows outcome.1) (hlast : second.Follows last.1)
    (hdevices : second.devices = (ready.finish outcome).1.devices)
    (hsource : second.engine.source = ready.engine.source)
    (hsink : second.engine.sink = ready.engine.sink)
    (hdrain : ready.engine.sink.drain < ready.devices.drains.size) :
    (second.finish last).1.devices = (ready.finish last).1.devices := by
  have hwritten : ((ready.finish outcome).1.devices.received ready.engine.sink.drain).bytes =
      outcome.1.output := written_finish hdrain
  have hsize := hlast.output
  rw [hdevices, hsink, hwritten] at hsize
  have hpending (devices : Devices) (bytes : Array UInt8) :
      (devices.setWritten ready.engine.sink bytes).setPending ready.engine.source last.1.input =
        (devices.setPending ready.engine.source last.1.input).setWritten ready.engine.sink bytes :=
    rfl
  change (second.devices.setPending second.engine.source last.1.input).setWritten
    second.engine.sink last.1.output = _
  rw [hdevices, hsource, hsink]
  change (((ready.devices.setPending ready.engine.source outcome.1.input).setWritten
    ready.engine.sink outcome.1.output).setPending ready.engine.source last.1.input).setWritten
      ready.engine.sink last.1.output = _
  rw [hpending, Devices.setPending_setPending]
  exact Devices.setWritten_setWritten _ _ hfirst.output hsize

theorem load_handles (s : Session) (code : Code) {listing : Listing}
    (hlisting : listing.toProgram = .ok code.program)
    (hbuild : BracketIndex.build code.program = .ok code.index) (source : Source) (sink : Sink) :
    s.load listing (.source source) (.sink sink) =
      (s.start code s.devices source (.sink sink), .ok (.ok code)) :=
  load_eq_start code hlisting hbuild rfl (.sink sink)

/-- A run of the first text that is stopped is the run of the whole text. -/
theorem run_of_stops (h : Machine.Shadows a 0 w 0 ready.machine whole.machine)
    (hwithin : a.Within 0 w) (hload : s.load front input output = (ready, .ok (.ok a)))
    (hwhole : s.load listing input output = (whole, .ok (.ok w)))
    (hdevices : whole.devices = ready.devices)
    (hsource : whole.engine.source = ready.engine.source)
    (hsink : whole.engine.sink = ready.engine.sink)
    (hrun : s.run fuel front input output = some (mid, answer))
    (hstops : ∀ result, answer = .ok result → result.failure ≠ none) :
    ∃ bound all, s.run bound listing input output = some (all, answer) ∧ mid.SameEnd all ∧
      all.engine.pc = mid.engine.pc ∧ all.engine.steps = mid.engine.steps := by
  obtain ⟨outcome, hends, rfl, rfl⟩ := ends_of_run h.safe hload hrun
  have hstopped : ¬(outcome.1.failure = none ∧ outcome.2 = .ok ()) := by
    rintro ⟨hfailure, hanswer⟩
    exact hstops _ (finish_eq_ok_iff.mpr ⟨hanswer, rfl⟩) hfailure
  obtain ⟨different, hother, hverdict, hpc, hsteps⟩ := h.ends_of_stops hwithin hends hstopped
  obtain ⟨bound, hbound⟩ := (run_eq_some_iff_of_load h.safe_whole hwhole _).mpr ⟨_, hother, rfl⟩
  refine ⟨bound, (whole.finish different).1, ?_,
    sameEnd_finish hverdict (devices_finish _ _ hdevices hsource hsink hverdict), ?_, ?_⟩
  · rw [hbound, finish_congr hverdict (by omega) (by omega)]
  · change different.1.pc = outcome.1.pc
    omega
  · change different.1.steps = outcome.1.steps
    omega

/-- A first text whose run has no end keeps the run of the whole text from ending. -/
theorem not_run_of_not_run (h : Machine.Shadows a 0 w 0 ready.machine whole.machine)
    (hwithin : a.Within 0 w) (hload : s.load front input output = (ready, .ok (.ok a)))
    (hwhole : s.load listing input output = (whole, .ok (.ok w)))
    (hnone : ∀ fuel, s.run fuel front input output = none) (fuel : ℕ) :
    s.run fuel listing input output = none := by
  by_contra hsome
  obtain ⟨answer, hanswer⟩ := Option.ne_none_iff_exists'.mp hsome
  obtain ⟨outcome, hends⟩ :=
    (exists_run_iff_of_load h.safe_whole hwhole).mp ⟨fuel, answer, hanswer⟩
  obtain ⟨final, hfinal, -⟩ := hends.exists_last
  obtain ⟨last, hlast⟩ := h.exists_last hwithin hfinal
  obtain ⟨bound, first, hfirst⟩ :=
    (exists_run_iff_of_load h.safe hload).mpr (Machine.exists_ends_of_mem_eval hlast)
  rw [hnone] at hfirst
  cases hfirst

/-- Behind a first text that has been carried out to its end, a run of the second text and the run
of the whole text end alike, if at all. -/
theorem run_of_success (hs : s.engine.Sound config) (hkeep : config.keepTape = true)
    (hdrain : sink.drain < s.devices.drains.size) (hfront : front.toProgram = .ok p)
    (hback : back.toProgram = .ok q) (hlisting : listing.toProgram = .ok (p ++ q))
    (hp : BracketIndex.build p = .ok i) (hq : BracketIndex.build q = .ok j)
    (hrun : s.run fuel front (.source source) (.sink sink) = some (mid, .ok result))
    (hsuccess : result.failure = none) :
    ((∃ bound outcome, mid.run bound back (.source source) (.sink sink) = some outcome) ↔
      ∃ bound outcome, s.run bound listing (.source source) (.sink sink) = some outcome) ∧
    ∀ bound limit last all answer total,
      mid.run bound back (.source source) (.sink sink) = some (last, answer) →
      s.run limit listing (.source source) (.sink sink) = some (all, total) →
      last.SameEnd all ∧ all.engine.pc = p.size + last.engine.pc ∧
        all.engine.steps = result.steps + last.engine.steps ∧
        total = answer.map (.relocate (p.size + ·) (result.steps + ·)) := by
  obtain ⟨k, hk⟩ := Program.exists_build_append hp hq
  have hload := s.load_handles ⟨p, i⟩ hfront hp source sink
  have hwhole := s.load_handles ⟨p ++ q, k⟩ hlisting hk source sink
  have hsecond := mid.load_handles ⟨q, j⟩ hback hq source sink
  have hshadows := shadows_of_load hs hs hload hwhole rfl
  have hsafe := (safe_of_load (hs.run hrun) hsecond).2
  obtain ⟨outcome, hends, rfl, hresult⟩ := ends_of_run hshadows.safe hload hrun
  obtain ⟨hanswer, rfl⟩ := finish_eq_ok_iff.mp hresult.symm
  have hkept : (s.start ⟨p, i⟩ s.devices source (.sink sink)).engine.config.keepTape = true := by
    rw [(hs.start hp s.devices source (.sink sink)).config_eq, hkeep]
  have hfollows := (follows_machine _).ends rfl hends
  have hmemory := start_memory_finish hkept hfollows hdrain ⟨q, j⟩
  obtain ⟨middle, hreach, hnext⟩ := hshadows.hands_over (Program.within_append_left p q i k) hends
    hsuccess hanswer hsafe hmemory (registers_of_load hsecond)
  rw [Nat.zero_add, Nat.zero_add] at hnext
  have hsimulates := Machine.simulates_shadows (Program.within_append_right p q j k)
    (Program.size_append p q) outcome.1.steps
  constructor
  · rw [exists_run_iff_of_load hsafe hsecond, exists_run_iff_of_load hshadows.safe_whole hwhole]
    exact hsimulates.ends_iff hnext hreach
  · intro bound limit last all answer total hlast hall
    obtain ⟨ended, hended, rfl, rfl⟩ := ends_of_run hsafe hsecond hlast
    obtain ⟨different, hother, rfl, rfl⟩ := ends_of_run hshadows.safe_whole hwhole hall
    obtain ⟨hverdict, final, finalWhole, hfinal, hpc, hsteps, hpcWhole, hstepsWhole⟩ :=
      hsimulates.outcomes hnext hreach hended hother
    have hplace := hfinal.pc_eq
    have hclock := hfinal.steps_eq
    have hdevices := devices_finish_finish hfollows ((follows_machine _).ends rfl hended) rfl rfl
      rfl hdrain
    have hpcs : different.1.pc = p.size + ended.1.pc := by
      rw [hpcWhole, hplace, hpc]
    have hclocks : different.1.steps = outcome.1.steps + ended.1.steps := by
      rw [hstepsWhole, hclock, hsteps]
    refine ⟨sameEnd_finish hverdict ?_, hpcs, hclocks,
      finish_relocate _ _ _ _ hverdict hpcs hclocks⟩
    rw [hdevices]
    exact devices_finish _ _ rfl rfl rfl hverdict

/-- Runs on a kept tape, with one source and one sink that exists, compose like the program texts.
If the run of the first program is stopped, the run of both texts, one behind the other, is that
run: it has the same answer and comes to the same end, at the same position and after as many steps.
If the first program is carried out to its end, the run of the second one after it and the run of
both texts end alike, if at all, the latter at the position of the former behind the first text and
after the steps of both. If the run of the first program has no end, neither has the run of both. -/
theorem persisted_runs_compose {config : Config} {s : Session} {p q : Program}
    {i j : BracketIndex} {front back listing : Listing} {source : Source} {sink : Sink}
    (hs : s.engine.Sound config) (hkeep : config.keepTape = true)
    (hdrain : sink.drain < s.devices.drains.size) (hfront : front.toProgram = .ok p)
    (hback : back.toProgram = .ok q) (hlisting : listing.toProgram = .ok (p ++ q))
    (hp : BracketIndex.build p = .ok i) (hq : BracketIndex.build q = .ok j) :
    (∀ fuel mid answer, s.run fuel front (.source source) (.sink sink) = some (mid, answer) →
      (∀ result, answer = .ok result → result.failure ≠ none) →
      ∃ bound all, s.run bound listing (.source source) (.sink sink) = some (all, answer) ∧
        mid.SameEnd all ∧ all.engine.pc = mid.engine.pc ∧
        all.engine.steps = mid.engine.steps) ∧
    (∀ fuel mid result,
      s.run fuel front (.source source) (.sink sink) = some (mid, .ok result) →
      result.failure = none →
      ((∃ bound outcome, mid.run bound back (.source source) (.sink sink) = some outcome) ↔
        ∃ bound outcome, s.run bound listing (.source source) (.sink sink) = some outcome) ∧
      ∀ bound limit last all answer total,
        mid.run bound back (.source source) (.sink sink) = some (last, answer) →
        s.run limit listing (.source source) (.sink sink) = some (all, total) →
        last.SameEnd all ∧ all.engine.pc = p.size + last.engine.pc ∧
          all.engine.steps = result.steps + last.engine.steps ∧
          total = answer.map (.relocate (p.size + ·) (result.steps + ·))) ∧
    ((∀ fuel, s.run fuel front (.source source) (.sink sink) = none) →
      ∀ fuel, s.run fuel listing (.source source) (.sink sink) = none) := by
  obtain ⟨k, hk⟩ := Program.exists_build_append hp hq
  have hload := s.load_handles ⟨p, i⟩ hfront hp source sink
  have hwhole := s.load_handles ⟨p ++ q, k⟩ hlisting hk source sink
  have hshadows := shadows_of_load hs hs hload hwhole rfl
  have hwithin := Program.within_append_left p q i k
  refine ⟨?_, ?_, ?_⟩
  · intro fuel mid answer
    exact run_of_stops hshadows hwithin hload hwhole rfl rfl rfl
  · intro fuel mid result
    exact run_of_success hs hkeep hdrain hfront hback hlisting hp hq
  · exact not_run_of_not_run hshadows hwithin hload hwhole

/-- `,.` reads and writes a byte, and `<,.[<]` after it reads another one and leaves the tape at its
last move: so does `,.<,.[<]`, two positions further on and after two more steps. -/
theorem persisted_runs_compose_up_to_a_failure :
    let s : Session :=
      { engine := ⟨⟨2, by decide, true, true⟩, #[5, 0], 1, 0, 0, none, none, ⟨.bytes, 0⟩,
          ⟨.buffer, 0⟩⟩
        devices := ⟨#[[some 7, some 9]], #[⟨#[], 0⟩]⟩
        journal := #[] }
    let source : Source := ⟨.stream, 0⟩
    let sink : Sink := ⟨.stream true, 0⟩
    s.engine.Sound s.engine.config ∧
    ∃ mid last all, s.run 9 (.given (.text ",.")) (.source source) (.sink sink) =
        some (mid, .ok ⟨none, 2, 1, 2⟩) ∧
      mid.run 9 (.given (.text "<,.[<]")) (.source source) (.sink sink) =
        some (last, .ok ⟨some (.outOfBounds 0 .left), 4, 0, 4⟩) ∧
      (∃ bound, s.run bound (.given (.text ",.<,.[<]")) (.source source) (.sink sink) =
        some (all, .ok ⟨some (.outOfBounds 0 .left), 6, 0, 6⟩)) ∧
      last.SameEnd all := by
  intro s source sink
  have hs : s.engine.Sound s.engine.config := by
    refine ⟨rfl, rfl, by decide, by decide, ?_, ?_, ?_⟩ <;> intro code hcode <;> cases hcode
  have hp : BracketIndex.build (Program.ofText ",.") = .ok ⟨#[none, none]⟩ := by decide +kernel
  have hq : BracketIndex.build (Program.ofText "<,.[<]") =
      .ok ⟨#[none, none, none, some 5, none, some 3]⟩ := by decide +kernel
  have hfront : (Listing.given (.text ",.")).toProgram = .ok (Program.ofText ",.") := rfl
  have hback : (Listing.given (.text "<,.[<]")).toProgram = .ok (Program.ofText "<,.[<]") := rfl
  have hlisting : (Listing.given (.text ",.<,.[<]")).toProgram =
      .ok (Program.ofText ",." ++ Program.ofText "<,.[<]") := by decide +kernel
  let first := (s.run 9 (.given (.text ",.")) (.source source) (.sink sink)).get
    (by decide +kernel)
  have hfirst : s.run 9 (.given (.text ",.")) (.source source) (.sink sink) =
      some (first.1, .ok ⟨none, 2, 1, 2⟩) := by decide +kernel
  let second := (first.1.run 9 (.given (.text "<,.[<]")) (.source source) (.sink sink)).get
    (by decide +kernel)
  have hsecond : first.1.run 9 (.given (.text "<,.[<]")) (.source source) (.sink sink) =
      some (second.1, .ok ⟨some (.outOfBounds 0 .left), 4, 0, 4⟩) := by decide +kernel
  obtain ⟨hends, halike⟩ :=
    (persisted_runs_compose hs rfl (by decide) hfront hback hlisting hp hq).2.1 9 _ _ hfirst rfl
  obtain ⟨bound, ⟨all, total⟩, hall⟩ := hends.mp ⟨9, _, hsecond⟩
  obtain ⟨hsame, -, -, htotal⟩ := halike 9 bound _ all _ total hsecond hall
  refine ⟨hs, first.1, second.1, all, hfirst, hsecond, ⟨bound, ?_⟩, hsame⟩
  rw [hall, htotal]
  rfl

end Session

end TapeMachine
