import TapeMachine.CommandLine.Options
import TapeMachine.Engine
import TapeMachine.Failure.Report

/-!
The command line tool as a function: from the words of the command line, the files it may read and
the bytes of its input to an exit code, the bytes it prints and the report it gives.
-/

set_option autoImplicit false
set_option relaxedAutoImplicit false

namespace TapeMachine.CommandLine

/-- What the tool leaves behind. An exit code is missing if an error got past it. The debug log is
kept as notes, because the time a run took is known only afterwards. -/
structure Outcome where
  exit : Except Error Nat
  stdout : Array UInt8
  log : List Event
  report : String

/-- The text on the error channel: the debug log, then the report. -/
def Outcome.stderr (outcome : Outcome) (elapsed : String) : String :=
  String.join (outcome.log.map (Event.logLine elapsed)) ++ outcome.report

def usageText : String :=
  "usage: bftape [-h] [--demo \x7bbottles,hello\x7d] [--input INPUT_TEXT]\n" ++
  "              [--tape-size TAPE_SIZE] [--no-jit] [-v]\n" ++
  "              [file]\n"

def helpText : String :=
  usageText ++
  "\n" ++
  "Run a Brainfuck program on a fixed-size byte tape.\n" ++
  "\n" ++
  "positional arguments:\n" ++
  "  file                  program file (default: read the program from stdin)\n" ++
  "\n" ++
  "options:\n" ++
  "  -h, --help            show this help message and exit\n" ++
  "  --demo \x7bbottles,hello\x7d\n" ++
  "                        run a bundled program instead of a file\n" ++
  "  --input INPUT_TEXT    bytes fed to ',' (default: stdin when the program is a\n" ++
  "                        file)\n" ++
  "  --tape-size TAPE_SIZE\n" ++
  "                        number of cells (default 30000)\n" ++
  "  --no-jit              use the pure-Python step loop\n" ++
  "  -v, --verbose         debug logging on stderr\n"

/-- Ends with exit code `code` and a report, before anything has run. -/
def Outcome.early (code : Nat) (report : String) : Outcome := ⟨.ok code, #[], [], report⟩

/-- Ends with a usage error. -/
def Outcome.usage (cause : UsageError) : Outcome :=
  .early 2 (usageText ++ "bftape: error: " ++ cause.message ++ "\n")

/-- Ends with an error that gets past the tool. -/
def Outcome.escaped (cause : Error) : Outcome := ⟨.error cause, #[], [], ""⟩

/-- Where the program comes from. -/
inductive Origin where
  | demo (text : String)
  | file (path : String)
  | stdin
  deriving DecidableEq, Repr

namespace Options

/-- The file that is named. An empty name names none. -/
def namedFile? (options : Options) : Option String :=
  match options.file with
  | some path => if path = "" then none else some path
  | none => none

/-- The demonstration program that is named. -/
def namedDemo? (options : Options) : Option String :=
  match options.demo with
  | .value name => Bundled.demo? name
  | _ => none

/-- Where the program comes from. Naming a file and a demonstration program is an error. -/
def origin (options : Options) : Except UsageError Origin :=
  match options.namedDemo?, options.namedFile? with
  | some _, some _ => .error .fileAndDemo
  | some text, none => .ok (.demo text)
  | none, some path => .ok (.file path)
  | none, none => .ok .stdin

/-- The settings for the run. -/
def config (options : Options) : Except ConfigError Config :=
  let size :=
    match options.tapeSize with
    | .absent => .int Config.defaultTapeSize
    | .blank => .list []
    | .value size => .int size
  Config.make size false !options.stepwise

/-- The source that the program reads from: the bytes of the text given for it, else standard input
as a stream, unless that held the program. -/
def openInput (options : Options) (origin : Origin) (stdin : List UInt8) (devices : Devices) :
    Except Error (Devices × Source) :=
  match options.inputText with
  | .value text => .ok (devices.bytesSource (Text.encodeUtf8 text))
  | .blank => .error .inputNotText
  | .absent =>
    match origin with
    | .stdin => .ok (devices.bytesSource [])
    | _ => .ok (devices.streamSource stdin)

/-- Standard input is looked at, for the program or for what it reads. -/
def usesStdin (options : Options) : Bool :=
  match options.origin, options.inputText with
  | .error _, _ => false
  | .ok .stdin, _ => true
  | .ok _, .absent => true
  | .ok _, _ => false

end Options

/-- The text of a program given as bytes. -/
def decodeProgram (bytes : List UInt8) : Except Error String :=
  match Text.decodeUtf8 bytes with
  | .error cause => .error (.decode cause)
  | .ok chars => .ok (String.ofList (Text.joinLineEnds chars))

/-- The program text. A missing file is reported. -/
def programText (origin : Origin) (readFile : String → Except FileError (List UInt8))
    (stdin : List UInt8) : Except Outcome String :=
  let decoded (bytes : List UInt8) : Except Outcome String :=
    match decodeProgram bytes with
    | .error cause => .error (.escaped cause)
    | .ok text => .ok text
  match origin with
  | .demo text => .ok text
  | .file path =>
    match readFile path with
    | .error (.missing _) => .error (.early 1 ("Couldn't find file: " ++ path ++ "\n"))
    | .error cause => .error (.escaped (.file cause))
    | .ok bytes => decoded bytes
  | .stdin => decoded stdin

/-- What a run leaves behind that has written to a drain. A failure is reported. -/
def Outcome.ofRun (verbose : Bool) (text : String) (drain : Nat) :
    Session × Except Error RunResult → Outcome
  | (s, .error cause) =>
    let log := if verbose then s.journal.toList else []
    ⟨.error cause, (s.devices.received drain).bytes, log, ""⟩
  | (s, .ok result) =>
    let stdout := (s.devices.received drain).bytes
    let log := if verbose then s.journal.toList ++ [.timed result.steps] else []
    match result.failure with
    | none => ⟨.ok 0, stdout, log, ""⟩
    | some failure => ⟨.ok 1, stdout, log, failure.report text.toList ++ "\n"⟩

/-- Runs a program on a new engine that writes to standard output. -/
def execute (fuel : Nat) (config : Config) (verbose : Bool) (text : String) (devices : Devices)
    (source : Source) : Option Outcome :=
  let (devices, drain) := devices.addDrain
  let session := Session.new config devices
  let ended :=
    session.run fuel (.given (.text text)) (.source source) (.sink ⟨.stream true, drain⟩)
  ended.map (Outcome.ofRun verbose text drain)

/-- Does what the options ask for. -/
def perform (fuel : Nat) (options : Options) (readFile : String → Except FileError (List UInt8))
    (stdin : List UInt8) : Option Outcome :=
  match options.origin with
  | .error cause => some (.usage cause)
  | .ok origin =>
    match programText origin readFile stdin with
    | .error outcome => some outcome
    | .ok text =>
      match options.config with
      | .error cause => some (.usage (.config cause))
      | .ok config =>
        match options.openInput origin stdin .empty with
        | .error cause => some (.escaped cause)
        | .ok (devices, source) => execute fuel config options.verbose text devices source

/-- The whole tool. There is no outcome if the program does not end within `fuel` steps. -/
def run (fuel : Nat) (words : List String) (readFile : String → Except FileError (List UInt8))
    (stdin : List UInt8) : Option Outcome :=
  match Options.parse words with
  | .error .help => some ⟨.ok 0, (Text.encodeUtf8 helpText).toArray, [], ""⟩
  | .error (.usage cause) => some (.usage cause)
  | .ok options => perform fuel options readFile stdin

end TapeMachine.CommandLine
