import TapeMachine.CommandLine

/-!
The program: fetches what the command line asks for, runs it, and prints.
-/

set_option autoImplicit false
set_option relaxedAutoImplicit false

namespace TapeMachine.CommandLine

/-- A bound on the length of a run that no run reaches in practice. -/
def patience : Nat := 4611686018427387904

/-- Reads the rest of a stream. -/
partial def readAll (stream : IO.FS.Stream) (bytes : ByteArray) : IO (List UInt8) := do
  let chunk ← stream.read 65536
  if chunk.isEmpty then return bytes.toList else readAll stream (bytes ++ chunk)

/-- Reads a file, telling apart why it cannot be read. -/
def fetchFile (path : String) : IO (Except FileError (List UInt8)) := do
  try
    let bytes ← IO.FS.readBinFile path
    return .ok bytes.toList
  catch
    | .noFileOrDirectory .. => return .error (.missing path)
    -- A directory can be opened: what fails is reading it, and that error names no path.
    | .inappropriateType none .. => return .error (.directory path)
    | .inappropriateType (some _) .. => return .error (.notDirectory path)
    | .invalidArgument .. => return .error (.nameTooLong path)
    | problem => throw problem

/-- A duration in milliseconds with two decimals. -/
def milliseconds (nanoseconds : Nat) : String :=
  let hundredths := nanoseconds / 10000
  toString (hundredths / 100) ++ "." ++
    String.ofList (Text.padLeft '0' 2 (Nat.toDigits 10 (hundredths % 100)))

/-- The file and the standard input that a command line asks for. -/
def fetch (words : List String) : IO (Except FileError (List UInt8) × List UInt8) := do
  match Options.parse words with
  | .error _ => return (.error (.missing ""), [])
  | .ok options =>
    let file ←
      match options.origin with
      | .ok (.file path) => fetchFile path
      | _ => pure (.error (.missing ""))
    let stdin ← if options.usesStdin then readAll (← IO.getStdin) .empty else pure []
    return (file, stdin)

end TapeMachine.CommandLine

open TapeMachine in
def main (words : List String) : IO UInt32 := do
  let (file, stdin) ← CommandLine.fetch words
  let started ← IO.monoNanosNow
  let outcome ← IO.lazyPure fun _ ↦
    CommandLine.run CommandLine.patience words (fun _ ↦ file) stdin
  let ended ← IO.monoNanosNow
  match outcome with
  | none => return 1
  | some outcome =>
    let stdout ← IO.getStdout
    stdout.write ⟨outcome.stdout⟩
    stdout.flush
    IO.eprint (outcome.stderr (CommandLine.milliseconds (ended - started)))
    match outcome.exit with
    | .ok code => return code.toUInt32
    | .error cause =>
      IO.eprintln cause.message
      return 1
