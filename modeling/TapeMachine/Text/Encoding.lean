import TapeMachine.Text.Hex

/-!
Text as bytes. One-byte text has a byte for each character up to 255; the other encodings are
plain ASCII and UTF-8. A reader of bytes names the first span of bytes that no text can have
produced, and why.
-/

set_option autoImplicit false
set_option relaxedAutoImplicit false

namespace TapeMachine.Text

/-- A span of characters that do not fit into one byte each. -/
structure EncodeError where
  first : Nat
  last : Nat
  char : Char
  deriving DecidableEq, Repr

/-- The encodings that a program file may have. Signed UTF-8 has a mark in front, which is no part
of the text. -/
inductive Encoding where
  | utf8
  | signedUtf8
  | latin1
  | ascii
  deriving DecidableEq, Repr

/-- The name under which an encoding appears in messages. -/
def Encoding.name : Encoding → String
  | .utf8 => "utf-8"
  | .signedUtf8 => "utf-8"
  | .latin1 => "latin-1"
  | .ascii => "ascii"

/-- Why a span of bytes is no text. -/
inductive DecodeFault where
  | invalidStart
  | invalidContinuation
  | unexpectedEnd
  | notAscii
  deriving DecidableEq, Repr

def DecodeFault.describe : DecodeFault → String
  | .invalidStart => "invalid start byte"
  | .invalidContinuation => "invalid continuation byte"
  | .unexpectedEnd => "unexpected end of data"
  | .notAscii => "ordinal not in range(128)"

/-- A span of bytes that is no text in the encoding; `byte` is its first one. -/
structure DecodeError where
  encoding : Encoding
  first : Nat
  last : Nat
  byte : UInt8
  fault : DecodeFault
  deriving DecidableEq, Repr

def EncodeError.message (e : EncodeError) : String :=
  let subject :=
    if e.first = e.last then
      let code := e.char.toNat
      "character '" ++ (if code < 0x10000 then "\\u" ++ hex 4 code else "\\U" ++ hex 8 code) ++
        "' in position " ++ toString e.first
    else "characters in position " ++ toString e.first ++ "-" ++ toString e.last
  "'latin-1' codec can't encode " ++ subject ++ ": ordinal not in range(256)"

def DecodeError.message (e : DecodeError) : String :=
  let subject :=
    if e.first = e.last then "byte 0x" ++ hex 2 e.byte.toNat ++ " in position " ++ toString e.first
    else "bytes in position " ++ toString e.first ++ "-" ++ toString e.last
  "'" ++ e.encoding.name ++ "' codec can't decode " ++ subject ++ ": " ++ e.fault.describe

/-- The character needs more than one byte. -/
def isWide (c : Char) : Bool := 255 < c.toNat

/-- One byte for each character. The error spans the first run of characters beyond 255. -/
def encodeLatin1 (text : List Char) : Except EncodeError (List UInt8) :=
  match text.dropWhile (!isWide ·) with
  | [] => .ok (text.map fun c ↦ UInt8.ofNat c.toNat)
  | wide :: rest =>
    let first := (text.takeWhile (!isWide ·)).length
    .error ⟨first, first + (rest.takeWhile isWide).length, wide⟩

/-- One character for each byte. -/
def decodeLatin1 (bytes : List UInt8) : List Char :=
  bytes.map fun b ↦ Char.ofNat b.toNat

/-- The bytes of a text in UTF-8. -/
def encodeUtf8 (text : String) : List UInt8 :=
  text.toUTF8.toList

def decodeAscii (bytes : List UInt8) : Except DecodeError (List Char) :=
  match bytes.dropWhile (· < 128) with
  | [] => .ok (decodeLatin1 bytes)
  | byte :: _ =>
    let first := (bytes.takeWhile (· < 128)).length
    .error ⟨.ascii, first, first, byte, .notAscii⟩

/-- A character of several bytes that has begun: where and with which byte, how many bytes it still
needs, the range of the next one, and the bits read so far. -/
structure Begun where
  start : Nat
  lead : UInt8
  owed : Nat
  low : Nat
  high : Nat
  bits : Nat
  deriving DecidableEq, Repr

/-- The state after the first byte of a longer character, and nothing for a byte that starts none.
The second byte's range shuts out overlong forms, surrogates and numbers past the last code
point. -/
def Begun.start? (position : Nat) (byte : UInt8) : Option Begun :=
  let n := byte.toNat
  if 0xc2 ≤ n ∧ n ≤ 0xdf then some ⟨position, byte, 1, 0x80, 0xbf, n - 0xc0⟩
  else if n = 0xe0 then some ⟨position, byte, 2, 0xa0, 0xbf, 0⟩
  else if n = 0xed then some ⟨position, byte, 2, 0x80, 0x9f, 0xd⟩
  else if 0xe1 ≤ n ∧ n ≤ 0xef then some ⟨position, byte, 2, 0x80, 0xbf, n - 0xe0⟩
  else if n = 0xf0 then some ⟨position, byte, 3, 0x90, 0xbf, 0⟩
  else if 0xf1 ≤ n ∧ n ≤ 0xf3 then some ⟨position, byte, 3, 0x80, 0xbf, n - 0xf0⟩
  else if n = 0xf4 then some ⟨position, byte, 3, 0x80, 0x8f, 4⟩
  else none

/-- Reads UTF-8 byte by byte. `position` counts the bytes read and `done` holds the characters read,
last first. Beside them goes the character that has begun, if there is one. -/
def decodeUtf8From (position : Nat) (done : List Char) :
    Option Begun → List UInt8 → Except DecodeError (List Char)
  | none, [] => .ok done.reverse
  | some p, [] => .error ⟨.utf8, p.start, position - 1, p.lead, .unexpectedEnd⟩
  | none, byte :: rest =>
    if byte < 128 then decodeUtf8From (position + 1) (Char.ofNat byte.toNat :: done) none rest
    else
      match Begun.start? position byte with
      | none => .error ⟨.utf8, position, position, byte, .invalidStart⟩
      | some p => decodeUtf8From (position + 1) done (some p) rest
  | some p, byte :: rest =>
    if p.low ≤ byte.toNat ∧ byte.toNat ≤ p.high then
      let bits := 64 * p.bits + (byte.toNat - 0x80)
      if p.owed = 1 then decodeUtf8From (position + 1) (Char.ofNat bits :: done) none rest
      else
        decodeUtf8From (position + 1) done
          (some { p with owed := p.owed - 1, low := 0x80, high := 0xbf, bits := bits }) rest
    else .error ⟨.utf8, p.start, position - 1, p.lead, .invalidContinuation⟩

def decodeUtf8 (bytes : List UInt8) : Except DecodeError (List Char) :=
  decodeUtf8From 0 [] none bytes

/-- The mark in front of signed text. -/
def signature : List UInt8 := [0xef, 0xbb, 0xbf]

/-- Reads UTF-8 behind the mark, if there is one. Bytes that end within the mark are no text yet. -/
def decodeSignedUtf8 (bytes : List UInt8) : Except DecodeError (List Char) :=
  if bytes.isPrefixOf signature then .ok []
  else if signature.isPrefixOf bytes then decodeUtf8 (bytes.drop signature.length)
  else decodeUtf8 bytes

def Encoding.decode (encoding : Encoding) (bytes : List UInt8) : Except DecodeError (List Char) :=
  match encoding with
  | .utf8 => decodeUtf8 bytes
  | .signedUtf8 => decodeSignedUtf8 bytes
  | .latin1 => .ok (decodeLatin1 bytes)
  | .ascii => decodeAscii bytes

/-- Every line end becomes a newline: a return, alone or with a newline after it, counts as one. -/
def joinLineEnds (text : List Char) : List Char :=
  (text.zip (' ' :: text)).filterMap fun (c, before) ↦
    if c = '\n' ∧ before = '\r' then none else if c = '\r' then some '\n' else some c

end TapeMachine.Text
