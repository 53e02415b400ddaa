import TapeMachine.Text.Encoding

/-!
The names of encodings. Case, and which signs stand between the parts of a name, make no
difference.
-/

set_option autoImplicit false
set_option relaxedAutoImplicit false

namespace TapeMachine.Text.Encoding

/-- The character belongs to a part of a name. -/
def isNameChar (c : Char) : Bool :=
  c.isAlphanum || c = '.'

/-- The name in its plain form: in lower case, with one underscore for all that stands between two
parts, and nothing before the first or behind the last. `pending` tells that something stood behind
the part before. -/
def plainName (started pending : Bool) : List Char → List Char
  | [] => []
  | c :: rest =>
    if isNameChar c then
      let tail := c.toLower :: plainName true false rest
      if started && pending then '_' :: tail else tail
    else plainName started true rest

/-- Further names of UTF-8, in plain form. -/
def utf8Names : List String :=
  ["cp65001", "u8", "utf", "utf8", "utf8_ucs2", "utf8_ucs4"]

/-- Further names of one-byte text, in plain form. -/
def latin1Names : List String :=
  ["8859", "cp819", "csisolatin1", "ibm819", "iso8859", "iso8859_1", "iso_8859_1",
    "iso_8859_1_1987", "iso_ir_100", "l1", "latin", "latin1"]

/-- Further names of plain ASCII, in plain form. -/
def asciiNames : List String :=
  ["646", "ansi_x3.4_1968", "ansi_x3.4_1986", "ansi_x3_4_1968", "cp367", "csascii", "ibm367",
    "iso646_us", "iso_646.irv_1991", "iso_ir_6", "us", "us_ascii"]

/-- The encoding with a further name. -/
def ofFurtherName? (name : String) : Option Encoding :=
  if utf8Names.contains name then some .utf8
  else if latin1Names.contains name then some .latin1
  else if asciiNames.contains name then some .ascii
  else none

/-- The encoding with a proper name. -/
def ofProperName? (name : String) : Option Encoding :=
  if name = "utf_8" then some .utf8
  else if name = "utf_8_sig" then some .signedUtf8
  else if name = "latin_1" then some .latin1
  else if name = "ascii" then some .ascii
  else none

/-- The encoding a name stands for. In further names a dot may stand for an underscore. The name
`locale` stands for the encoding of the surroundings, which is UTF-8. -/
def ofName? (name : String) : Option Encoding :=
  if name = "locale" then some .utf8
  else
    let plain := plainName false false name.toList
    let undotted := plain.map fun c ↦ if c = '.' then '_' else c
    (ofFurtherName? (String.ofList plain)).or
      ((ofFurtherName? (String.ofList undotted)).or (ofProperName? (String.ofList plain)))

end TapeMachine.Text.Encoding
