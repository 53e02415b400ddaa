import TapeMachine.Error
import TapeMachine.Text.Encoding.Name

/-!
A directory of program files. A path is followed part by part, starting in the directory or, with a
slash in front, far above it; a file found at its end is read as text.
-/

set_option autoImplicit false
set_option relaxedAutoImplicit false

namespace TapeMachine

/-- What a name in a directory stands for. -/
inductive Entry where
  | file (bytes : List UInt8)
  | folder
  deriving DecidableEq, Repr

/-- A directory: its names, each with what it stands for. Folders in it are empty, and nothing is
known by name of what lies outside it. -/
structure Directory where
  entries : List (String × Entry)
  deriving DecidableEq, Repr

/-- Where one is on the way along a path: in the directory, above it, or at one of its entries. -/
inductive Spot where
  | here
  | above
  | entry (entry : Entry)
  deriving DecidableEq, Repr

/-- Why a path leads nowhere. -/
inductive PathFault where
  | missing
  | notDirectory
  | nameTooLong
  deriving DecidableEq, Repr

namespace Directory

/-- The parts of a path between slashes. -/
def parts (path : String) : List String :=
  path.splitOn "/"

/-- The parts of a path that lead anywhere: neither empty nor a single dot. -/
def steps (path : String) : List String :=
  (parts path).filter fun part ↦ part ≠ "" ∧ part ≠ "."

/-- The slashes that a path keeps in front. Two of them are kept as they are, more count as one. -/
def root (path : String) : String :=
  if path.startsWith "//" && !path.startsWith "///" then "//"
  else if path.startsWith "/" then "/"
  else ""

/-- The path in its plain form: no empty steps, no single dots, no slash at the end. -/
def normalize (path : String) : String :=
  let plain := root path ++ String.intercalate "/" (steps path)
  if plain = "" then "." else plain

/-- The longest name, in bytes. -/
def maxName : Nat := 255

/-- Paths have fewer bytes than this. -/
def maxPath : Nat := 4096

/-- Goes on by one part of a path. -/
def enter (directory : Directory) : Spot → String → Except PathFault Spot
  | .entry (.file _), _ => .error .notDirectory
  | spot, part =>
    if part = "" ∨ part = "." then .ok spot
    else if part = ".." then
      match spot with
      | .entry _ => .ok .here
      | _ => .ok .above
    else if maxName < part.utf8ByteSize then .error .nameTooLong
    else
      match spot with
      | .here =>
        match directory.entries.lookup part with
        | some entry => .ok (.entry entry)
        | none => .error .missing
      | _ => .error .missing

/-- Goes on by several parts of a path. -/
def follow (directory : Directory) (spot : Spot) : List String → Except PathFault Spot
  | [] => .ok spot
  | part :: rest => do
    let spot ← directory.enter spot part
    directory.follow spot rest

/-- Where a path leads. -/
def find (directory : Directory) (path : String) : Except PathFault Spot :=
  if path = "" then .error .missing
  else if maxPath ≤ path.utf8ByteSize then .error .nameTooLong
  else directory.follow (if path.startsWith "/" then .above else .here) (parts path)

/-- The bytes of the file at a path. -/
def readBytes (directory : Directory) (path : String) : Except FileError (List UInt8) :=
  if path.toList.contains '\x00' then .error .nullInPath
  else
    match directory.find path with
    | .ok (.entry (.file bytes)) => .ok bytes
    | .ok _ => .error (.directory path)
    | .error .missing => .error (.missing path)
    | .error .notDirectory => .error (.notDirectory path)
    | .error .nameTooLong => .error (.nameTooLong path)

/-- The text of the file at a path, with every line end turned into a newline. -/
def readText (directory : Directory) (path encoding : String) : Except Error String :=
  if encoding.toList.contains '\x00' then .error (.file .nullInEncoding)
  else
    match directory.readBytes path with
    | .error cause => .error (.file cause)
    | .ok bytes =>
      match Text.Encoding.ofName? encoding with
      | none => .error (.file (.unknownEncoding encoding))
      | some encoding =>
        match encoding.decode bytes with
        | .error cause => .error (.decode cause)
        | .ok chars => .ok (String.ofList (Text.joinLineEnds chars))

end Directory

end TapeMachine
