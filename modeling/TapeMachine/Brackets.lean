import TapeMachine.Command
import TapeMachine.Failure
import TapeMachine.Fault
import TapeMachine.Program

/-!
The pairing of brackets. A scan over the text with a stack of open brackets either pairs every
bracket or names the first closing bracket without a partner, or else all opening brackets that
are never closed.
-/

set_option autoImplicit false
set_option relaxedAutoImplicit false

namespace TapeMachine

/-- For each position of a text, the position of its partner, if it has one. -/
structure BracketIndex where
  partners : Array (Option Int)
  deriving DecidableEq, Repr

namespace BracketIndex

/-- The number that stands for a missing partner. -/
def noPartner : Int := -1

/-- Reads an index off its numbers. -/
def ofCodes (codes : List Int) : BracketIndex :=
  ⟨(codes.map fun code ↦ if code = noPartner then none else some code).toArray⟩

/-- The index as numbers. -/
def toCodes (index : BracketIndex) : List Int :=
  index.partners.toList.map fun partner ↦ partner.getD noPartner

theorem toCodes_ofCodes (codes : List Int) : (ofCodes codes).toCodes = codes := by
  simp only [ofCodes, toCodes, List.map_map]
  rw [List.map_congr_left (g := id)]
  · exact List.map_id codes
  · intro code _
    by_cases h : code = noPartner
    · simp [h]
    · simp [h]

/-- Reads an index off numbers that are kept in words of 32 bits. The first number that does not
fit is a fault. -/
def ofOffsets (codes : List Int) : Except Fault BracketIndex :=
  match codes.find? fun code ↦ code < -2147483648 ∨ 2147483648 ≤ code with
  | some code => .error (.ofOffset code)
  | none => .ok (ofCodes codes)

/-- The same index for jumps that are counted in words of 32 bits: the largest number there has the
smallest one behind it. -/
def wrapped (index : BracketIndex) : BracketIndex :=
  ⟨index.partners.map fun partner ↦
    partner.map fun other ↦ Int.bmod (other + 1) 4294967296 - 1⟩

/-- The partner of a position, if the position is in the text and has one. -/
def partner? (index : BracketIndex) (position : Int) : Option Int :=
  if position < 0 then none else (index.partners[position.toNat]?).join

/-- The partner of a position that has to have one. -/
def get (index : BracketIndex) (position : Int) : Except Fault Int :=
  match index.partner? position with
  | some other => .ok other
  | none => .error (.noPartner position)

/-- The value is an integer that has a partner. A truth value is taken for zero or one, but an
entry that it names cannot be read. -/
def contains (index : BracketIndex) : Argument → Except Fault Bool
  | .int position => .ok (index.partner? position).isSome
  | .bool value => if value.toNat < index.partners.size then .error .notScalar else .ok false
  | _ => .ok false

/-- The number of pairs: half the number of positions with a partner. -/
def size (index : BracketIndex) : Nat :=
  (index.partners.toList.countP Option.isSome) / 2

/-- The pairs, by their first positions. -/
def pairs (index : BracketIndex) : List (Nat × Int) :=
  index.partners.toList.zipIdx.filterMap fun (partner, position) ↦
    match partner with
    | some other => if (position : Int) < other then some (position, other) else none
    | none => none

/-- Where control goes on from a bracket that jumps: just past its partner. A bracket without a
partner sends it to the start. -/
def jumpTarget (index : BracketIndex) (position : Int) : Except Fault Int :=
  match entry? index.partners position with
  | some partner => .ok (partner.getD noPartner + 1)
  | none => .error (.ofIndex position index.partners.size)

/-- The index in a few words. -/
def write (index : BracketIndex) : String :=
  "BracketIndex(pairs=" ++ toString index.size ++ ", program_length=" ++
    toString index.partners.size ++ ")"

/-- Scans the text from `position` on. `stack` holds the open brackets, innermost first. -/
def scan (position : Nat) (stack : List Nat) (partners : Array (Option Int)) :
    List Char → Except Failure (Array (Option Int))
  | [] =>
    if stack.isEmpty then .ok partners
    else .error (.unclosedOpens (stack.reverse.map Int.ofNat))
  | c :: rest =>
    if c = '[' then scan (position + 1) (position :: stack) partners rest
    else if c = ']' then
      match stack with
      | [] => .error (.unmatchedClose position)
      | start :: stack =>
        scan (position + 1) stack
          ((partners.setIfInBounds start (some (position : Int))).setIfInBounds position
            (some (start : Int))) rest
    else scan (position + 1) stack partners rest

/-- Pairs the brackets of a program. -/
def build (program : Program) : Except Failure BracketIndex := do
  let partners ← scan 0 [] (Array.replicate program.size none) program.chars.toList
  return ⟨partners⟩

end BracketIndex

/-- A program together with the pairing of its brackets: what a machine executes. -/
structure Code where
  program : Program
  index : BracketIndex
  deriving DecidableEq, Repr

/-- Pairs the brackets of a program that is to be executed. -/
def Code.compile (program : Program) : Except Failure Code := do
  let index ← BracketIndex.build program
  return ⟨program, index⟩

end TapeMachine
