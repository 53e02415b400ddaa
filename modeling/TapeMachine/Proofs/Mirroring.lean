import TapeMachine.Proofs.Diagnosis
import TapeMachine.Proofs.Sweeping

/-!
Machines that do the same in different places. Two machines with the same memory that stand before
the same character, each in code of its own, both carry it out, both jump, or both come to the same
end (`Safe.mirror`). Where they stand and how far their clocks have run makes no difference, so an
end is compared by what it leaves in memory, by its failure and by its answer (`Verdict`).

A relation between machines that is kept in this way carries whole runs along: one comes to an end
exactly if the other does, in related machines and with the same verdict (`Simulates.ends_iff`,
`Simulates.outcomes`). Here this is used for code that stands inside other code
(`Code.Within`, `Shadows`): its brackets are paired there as they are in the code alone
(`Within.pairs`), so a machine inside the longer code shadows the one of the part.
-/

set_option autoImplicit false
set_option relaxedAutoImplicit false

namespace TapeMachine

open StateTransition Matching

theorem Program.lt_size_of_getElem? {program : Program} {position : ℕ} {c : Char}
    (h : program.chars.toList[position]? = some c) : position < program.size := by
  have hlt := (List.getElem?_eq_some_iff.mp h).1
  rwa [Array.length_toList] at hlt

/-- The index names two positions as partners exactly if they form a pair. -/
theorem Matching.partner?_eq_some_iff {program : Program} {index : BracketIndex}
    (h : BracketIndex.build program = .ok index) {i j : ℕ} :
    index.partner? (i : ℤ) = some (j : ℤ) ↔
      Pairs program.chars.toList i j ∨ Pairs program.chars.toList j i := by
  constructor
  · intro hpartner
    unfold BracketIndex.partner? at hpartner
    rw [if_neg (by omega), Int.toNat_natCast, Option.join_eq_some_iff,
      partners_eq_some_iff h] at hpartner
    obtain ⟨other, hother, hpair⟩ := hpartner
    rwa [Int.natCast_inj.mp hother]
  · rintro (hpair | hpair)
    · exact partner?_opening h hpair
    · exact partner?_closing h hpair

/-- How a run ends, wherever and whenever: the memory that it leaves, its failure and its answer. -/
structure Verdict where
  memory : Memory
  failure : Option Failure
  answer : Except Fault Unit

namespace Machine

variable {code a b : Code} {m n start last : Machine} {c : Char}

/-! ### Where the moves end -/

def verdict (outcome : Machine × Except Fault Unit) : Verdict :=
  ⟨outcome.1.memory, outcome.1.failure, outcome.2⟩

/-- The command that ends a run moves neither the position nor the clock. -/
theorem conclude_registers (h : m.move code = none) :
    (m.conclude code).1.pc = m.pc ∧ (m.conclude code).1.steps = m.steps := by
  by_cases hhalted : m.halted code = true
  · rw [conclude_of_halted hhalted]
    exact ⟨rfl, rfl⟩
  · have hrun : m.halted code = false := by simpa using hhalted
    unfold conclude
    rw [if_neg hhalted]
    cases hc : code.program.get? m.pc with
    | none => simp [step, hrun, hc]
    | some c =>
      rw [step_eq_settle hrun hc]
      rw [move_eq hrun hc] at h
      cases hwork : m.memory.work (Command.ofChar c) with
      | done s => simp [hwork] at h
      | jump =>
        rw [hwork, Option.map_eq_none_iff] at h
        simp [settle, jump, h]
      | fails s failure => exact ⟨rfl, rfl⟩
      | faults s fault => exact ⟨rfl, rfl⟩

theorem verdict_of_fails {s : Memory} {failure : Failure} (hrun : m.halted code = false)
    (hc : code.program.get? m.pc = some c)
    (hwork : m.memory.work (Command.ofChar c) = .fails s failure) :
    verdict (m.conclude code) = ⟨s, some failure, .ok ()⟩ := by
  rw [conclude, if_neg (by simp [hrun]), step_eq_settle hrun hc, hwork]
  rfl

theorem verdict_of_faults {s : Memory} {fault : Fault} (hrun : m.halted code = false)
    (hc : code.program.get? m.pc = some c)
    (hwork : m.memory.work (Command.ofChar c) = .faults s fault) :
    verdict (m.conclude code) = ⟨s, m.failure, .error fault⟩ := by
  rw [conclude, if_neg (by simp [hrun]), step_eq_settle hrun hc, hwork]
  rfl

theorem verdict_of_halted (h : m.halted code = true) :
    verdict (m.conclude code) = ⟨m.memory, m.failure, .ok ()⟩ := by
  rw [conclude_of_halted h]
  rfl

/-- A run ends where its moves end. -/
theorem Ends.exists_last {outcome : Machine × Except Fault Unit} (h : m.Ends code outcome) :
    ∃ last ∈ eval (move code) m, verdict outcome = verdict (last.conclude code) ∧
      outcome.1.pc = last.pc ∧ outcome.1.steps = last.steps := by
  by_cases hhalted : m.halted code = true
  · rw [(ends_of_halted hhalted).mp h]
    refine ⟨m, mem_eval.mpr ⟨.refl, move_of_halted hhalted⟩, ?_, rfl, rfl⟩
    rw [verdict_of_halted hhalted]
    rfl
  · obtain ⟨last, hlast, rfl⟩ := (ends_of_running (by simpa using hhalted)).mp h
    exact ⟨last, hlast, rfl, conclude_registers (mem_eval.mp hlast).2⟩

theorem exists_ends_of_mem_eval (h : last ∈ eval (move code) m) :
    ∃ outcome, m.Ends code outcome := by
  by_cases hhalted : m.halted code = true
  · exact ⟨_, (ends_of_halted hhalted).mpr rfl⟩
  · exact ⟨_, (ends_of_running (by simpa using hhalted)).mpr ⟨last, h, rfl⟩⟩

/-! ### One command in two places -/

/-- The machines have the same memory, and neither of them has failed. -/
structure Alike (m n : Machine) : Prop where
  memory_eq : n.memory = m.memory
  failure_left : m.failure = none
  failure_right : n.failure = none

theorem Alike.goOn (h : Alike m n) (s : Memory) (i j : ℤ) : Alike (m.goOn s i) (n.goOn s j) :=
  ⟨rfl, h.failure_left, h.failure_right⟩

/-- Only a bracket asks for a jump. -/
theorem Safe.exists_partner_of_jump (h : m.Safe code) (hrun : m.halted code = false)
    (hc : code.program.get? m.pc = some c) (hwork : m.memory.work (Command.ofChar c) = .jump) :
    ∃ other : ℕ, code.index.partner? m.pc = some (other : ℤ) := by
  obtain ⟨position, found, hposition, hfound, hget⟩ := h.fetch hrun
  obtain rfl : found = c := Option.some.inj (hget.symm.trans hc)
  rcases Memory.work_cases h.inRange (Command.ofChar found) with ⟨_, hother, -⟩ | ⟨-, hbracket⟩ |
    ⟨_, _, hother⟩ | ⟨_, _, hother, -⟩
  · simp [hwork] at hother
  · obtain ⟨other, -, hpartner⟩ := h.exists_partner hposition hfound hbracket
    exact ⟨other, hpartner⟩
  · simp [hwork] at hother
  · simp [hwork] at hother

/-- Two machines with the same memory that stand before the same character both carry it out, both
jump behind the partners of their brackets, or both end with the same verdict. -/
theorem Safe.mirror (hm : m.Safe a) (hn : n.Safe b) (halike : Alike m n)
    (hc : a.program.get? m.pc = some c) (hother : b.program.get? n.pc = some c) :
    (∃ s, m.move a = some (m.goOn s (m.pc + 1)) ∧ n.move b = some (n.goOn s (n.pc + 1))) ∨
    (∃ i j : ℕ, a.index.partner? m.pc = some (i : ℤ) ∧ b.index.partner? n.pc = some (j : ℤ) ∧
      m.move a = some (m.goOn m.memory (i + 1)) ∧ n.move b = some (n.goOn m.memory (j + 1))) ∨
    (m.move a = none ∧ n.move b = none ∧
      verdict (m.conclude a) = verdict (n.conclude b)) := by
  have hrun := hm.running_of_get? halike.failure_left hc
  have hrunOther := hn.running_of_get? halike.failure_right hother
  have hmove := move_eq hrun hc
  have hmoveOther := move_eq hrunOther hother
  rw [halike.memory_eq] at hmoveOther
  cases hwork : m.memory.work (Command.ofChar c) with
  | done s =>
    rw [hwork] at hmove hmoveOther
    exact .inl ⟨s, hmove, hmoveOther⟩
  | jump =>
    obtain ⟨i, hi⟩ := hm.exists_partner_of_jump hrun hc hwork
    obtain ⟨j, hj⟩ := hn.exists_partner_of_jump hrunOther hother (by rw [halike.memory_eq, hwork])
    rw [hwork, hi] at hmove
    rw [hwork, hj] at hmoveOther
    exact .inr (.inl ⟨i, j, hi, hj, hmove, hmoveOther⟩)
  | fails s failure =>
    rw [hwork] at hmove hmoveOther
    refine .inr (.inr ⟨hmove, hmoveOther, ?_⟩)
    rw [verdict_of_fails hrun hc hwork,
      verdict_of_fails hrunOther hother (by rw [halike.memory_eq, hwork])]
  | faults s fault =>
    rw [hwork] at hmove hmoveOther
    refine .inr (.inr ⟨hmove, hmoveOther, ?_⟩)
    rw [verdict_of_faults hrun hc hwork,
      verdict_of_faults hrunOther hother (by rw [halike.memory_eq, hwork]), halike.failure_left,
      halike.failure_right]

/-! ### Whole runs side by side -/

/-- The relation is kept: where the first of two related machines moves, moves of the second one
lead to a machine that is related again, and where the first run ends, the second one ends with the
same verdict. -/
def Simulates (a b : Code) (related : Machine → Machine → Prop) : Prop :=
  ∀ m n, related m n →
    (∃ m' n', m.move a = some m' ∧ Reaches₁ (move b) n n' ∧ related m' n') ∨
    (m.move a = none ∧ n.move b = none ∧ verdict (m.conclude a) = verdict (n.conclude b))

namespace Simulates

variable {related : Machine → Machine → Prop}

theorem respects (h : Simulates a b related) : Respects (move a) (move b) related := by
  intro m n hrelated
  rcases h m n hrelated with ⟨m', n', hmove, hreach, hnext⟩ | ⟨hmove, hother, -⟩
  · rw [hmove]
    exact ⟨n', hnext, hreach⟩
  · rw [hmove]
    exact hother

/-- A run that leads to a machine related to the start of another run ends exactly if that one
does. -/
theorem ends_iff (h : Simulates a b related) (hrelated : related m n)
    (hreach : Reaches (move b) start n) :
    (∃ outcome, m.Ends a outcome) ↔ ∃ outcome, start.Ends b outcome := by
  constructor
  · rintro ⟨outcome, hends⟩
    obtain ⟨last, hlast, -⟩ := hends.exists_last
    obtain ⟨other, -, hother⟩ := tr_eval h.respects hrelated hlast
    rw [← reaches_eval hreach] at hother
    exact exists_ends_of_mem_eval hother
  · rintro ⟨outcome, hends⟩
    obtain ⟨other, hother, -⟩ := hends.exists_last
    rw [reaches_eval hreach] at hother
    obtain ⟨last, -, hlast⟩ := tr_eval_rev h.respects hrelated hother
    exact exists_ends_of_mem_eval hlast

/-- Both runs end with the same verdict, in machines that are related. -/
theorem outcomes (h : Simulates a b related) (hrelated : related m n)
    (hreach : Reaches (move b) start n) {outcome different : Machine × Except Fault Unit}
    (hends : m.Ends a outcome) (hother : start.Ends b different) :
    verdict outcome = verdict different ∧ ∃ last other, related last other ∧
      outcome.1.pc = last.pc ∧ outcome.1.steps = last.steps ∧
      different.1.pc = other.pc ∧ different.1.steps = other.steps := by
  obtain ⟨last, hlast, hverdict, hpc, hsteps⟩ := hends.exists_last
  obtain ⟨ended, hended, hverdictOther, hpcOther, hstepsOther⟩ := hother.exists_last
  rw [reaches_eval hreach] at hended
  obtain ⟨other, hrelatedLast, hotherLast⟩ := tr_eval h.respects hrelated hlast
  obtain rfl : ended = other := Part.mem_unique hended hotherLast
  refine ⟨?_, last, ended, hrelatedLast, hpc, hsteps, hpcOther, hstepsOther⟩
  rcases h last ended hrelatedLast with ⟨next, -, hmove, -⟩ | ⟨-, -, hsame⟩
  · rw [(mem_eval.mp hlast).2] at hmove
    cases hmove
  · rw [hverdict, hsame, hverdictOther]

end Simulates

end Machine

/-! ### Code inside other code -/

/-- The text of the code stands in the other code from a position on. -/
def Code.Within (a : Code) (offset : ℕ) (b : Code) : Prop :=
  (b.program.chars.toList.take (offset + a.program.size)).drop offset = a.program.chars.toList

namespace Code.Within

variable {a b : Code} {offset i j : ℕ} {c : Char}

theorem getElem? (h : a.Within offset b) (hc : a.program.chars.toList[i]? = some c) :
    b.program.chars.toList[offset + i]? = some c := by
  have hlt := Program.lt_size_of_getElem? hc
  unfold Within at h
  rw [← h, List.getElem?_drop, List.getElem?_take_of_lt (by omega)] at hc
  exact hc

/-- Brackets that belong together in a part belong together in the whole. -/
theorem pairs (h : a.Within offset b) (hpair : Pairs a.program.chars.toList i j) :
    Pairs b.program.chars.toList (offset + i) (offset + j) := by
  refine ⟨h.getElem? hpair.opens, h.getElem? hpair.closes, ?_⟩
  have hlt := Program.lt_size_of_getElem? hpair.closes
  have hlevel := hpair.level
  unfold Within at h
  rw [← h, level_between_iff (Nat.add_le_add_left hlt.le offset)] at hlevel
  exact hlevel

theorem partner? (h : a.Within offset b)
    (hbuilt : BracketIndex.build a.program = .ok a.index)
    (hwhole : BracketIndex.build b.program = .ok b.index)
    (hpartner : a.index.partner? (i : ℤ) = some (j : ℤ)) :
    b.index.partner? ((offset + i : ℕ) : ℤ) = some ((offset + j : ℕ) : ℤ) := by
  rw [partner?_eq_some_iff hbuilt] at hpartner
  rw [partner?_eq_some_iff hwhole]
  exact hpartner.imp h.pairs h.pairs

end Code.Within

namespace Machine

variable {a b : Code} {offset clock : ℕ} {m n last final : Machine}

/-- The second machine does inside the longer code what the first one does in the part of it: with
the same memory, further on in the text and later by the clock. -/
structure Shadows (a : Code) (offset : ℕ) (b : Code) (clock : ℕ) (m n : Machine) : Prop where
  safe : m.Safe a
  safe_whole : n.Safe b
  alike : Alike m n
  pc_eq : n.pc = offset + m.pc
  steps_eq : n.steps = clock + m.steps

namespace Shadows

/-- As long as the run of the part goes on, its shadow does the same. -/
theorem step (h : Shadows a offset b clock m n) (hwithin : a.Within offset b)
    (hrun : m.halted a = false) :
    (∃ m' n', m.move a = some m' ∧ n.move b = some n' ∧ Shadows a offset b clock m' n') ∨
    (m.move a = none ∧ n.move b = none ∧
      verdict (m.conclude a) = verdict (n.conclude b)) := by
  have hpc := h.pc_eq
  have hsteps := h.steps_eq
  obtain ⟨position, c, hposition, hc, hget⟩ := h.safe.fetch hrun
  have hplace : n.pc = ((offset + position : ℕ) : ℤ) := by omega
  have hother : b.program.get? n.pc = some c := by
    rw [hplace]
    exact get?_natCast (hwithin.getElem? hc)
  have hnext {s : Memory} {i j : ℤ} (hm : m.move a = some (m.goOn s i))
      (hn : n.move b = some (n.goOn s j)) (hij : j = offset + i) :
      Shadows a offset b clock (m.goOn s i) (n.goOn s j) := by
    refine ⟨(h.safe.move hm).1, (h.safe_whole.move hn).1, h.alike.goOn s i j, hij, ?_⟩
    change n.steps + 1 = clock + (m.steps + 1)
    omega
  rcases h.safe.mirror h.safe_whole h.alike hget hother with
    ⟨s, hm, hn⟩ | ⟨i, j, hi, hj, hm, hn⟩ | hends
  · exact .inl ⟨_, _, hm, hn, hnext hm hn (by omega)⟩
  · rw [hposition] at hi
    rw [hplace, hwithin.partner? h.safe.built h.safe_whole.built hi, Option.some.injEq] at hj
    exact .inl ⟨_, _, hm, hn, hnext hm hn (by omega)⟩
  · exact .inr hends

theorem reaches (h : Shadows a offset b clock m n) (hwithin : a.Within offset b)
    (hreach : Reaches (move a) m last) :
    ∃ other, Reaches (move b) n other ∧ Shadows a offset b clock last other := by
  induction hreach with
  | refl => exact ⟨n, .refl, h⟩
  | @tail middle next _ hmove ih =>
    obtain ⟨other, hreach, hshadows⟩ := ih
    rcases hshadows.step hwithin (running_of_move hmove) with ⟨m', n', hm, hn, hnext⟩ | ⟨hm, -⟩
    · obtain rfl : m' = next := Option.some.inj (hm.symm.trans hmove)
      exact ⟨n', hreach.tail hn, hnext⟩
    · rw [Option.mem_def, hm] at hmove
      cases hmove

/-- The run of the part ends if the run of the whole does. -/
theorem exists_last (h : Shadows a offset b clock m n) (hwithin : a.Within offset b)
    (hfinal : final ∈ eval (move b) n) : ∃ last, last ∈ eval (move a) m := by
  suffices hall : ∀ m, Shadows a offset b clock m n → ∃ last, last ∈ eval (move a) m from hall m h
  refine evalInduction hfinal fun n _ ih m h ↦ ?_
  by_cases hhalted : m.halted a = true
  · exact ⟨m, mem_eval.mpr ⟨.refl, move_of_halted hhalted⟩⟩
  · rcases h.step hwithin (by simpa using hhalted) with ⟨m', n', hm, hn, hnext⟩ | ⟨hm, -⟩
    · obtain ⟨last, hlast⟩ := ih n' hn m' hnext
      have heval : eval (move a) m = eval (move a) m' := reaches_eval (.single hm)
      exact ⟨last, heval ▸ hlast⟩
    · exact ⟨m, mem_eval.mpr ⟨.refl, hm⟩⟩

end Shadows

/-- A part that ends where the whole ends is shadowed to its end. -/
theorem simulates_shadows (hwithin : a.Within offset b)
    (hend : b.program.size = offset + a.program.size) (clock : ℕ) :
    Simulates a b (Shadows a offset b clock) := by
  intro m n h
  by_cases hhalted : m.halted a = true
  · have hfailure : m.failure.isSome = false := by rw [h.alike.failure_left]; rfl
    have hover : (a.program.size : ℤ) ≤ m.pc := by
      simpa [halted, hfailure] using hhalted
    have hother : n.halted b = true := by
      have hpc := h.pc_eq
      have hle : (b.program.size : ℤ) ≤ n.pc := by omega
      simp [halted, hle]
    refine .inr ⟨move_of_halted hhalted, move_of_halted hother, ?_⟩
    rw [verdict_of_halted hhalted, verdict_of_halted hother, h.alike.memory_eq,
      h.alike.failure_left, h.alike.failure_right]
  · rcases h.step hwithin (by simpa using hhalted) with ⟨m', n', hm, hn, hnext⟩ | hends
    · exact .inl ⟨m', n', hm, .single hn, hnext⟩
    · exact .inr hends

end Machine

end TapeMachine
