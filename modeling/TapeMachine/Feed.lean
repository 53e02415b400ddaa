/-!
Feeds: what a source will answer when it is asked for values one by one.
-/

set_option autoImplicit false
set_option relaxedAutoImplicit false

namespace TapeMachine

/-- The answers of a source, in order: a value, or nothing where it has none to give. After the
last answer it has none to give for ever. -/
abbrev Feed := List (Option Int)

namespace Feed

def ofBytes (bytes : List UInt8) : Feed :=
  bytes.map fun b ↦ some (b.toNat : Int)

/-- The answers of a stream that is read one byte at a time, each reading giving one of the chunks.
Only a chunk of one byte is an answer. -/
def ofChunks (chunks : List (List UInt8)) : Feed :=
  chunks.map fun
    | [b] => some (b.toNat : Int)
    | _ => none

theorem ofBytes_append (first second : List UInt8) :
    ofBytes (first ++ second) = ofBytes first ++ ofBytes second := by
  simp [ofBytes]

/-- A stream that hands over its bytes one at a time answers like the bytes themselves. -/
theorem ofChunks_singletons (bytes : List UInt8) :
    ofChunks (bytes.map fun b ↦ [b]) = ofBytes bytes := by
  simp [ofChunks, ofBytes]

end Feed

end TapeMachine
