import TapeMachine.Bundled
import TapeMachine.CommandLine.Word
import TapeMachine.Config
import TapeMachine.Text.Integer
import TapeMachine.Text.Quoted

/-!
What a command line asks for. Words are taken from left to right; the first one that cannot be
understood ends the reading with a usage error, and words that are left over are reported last.
-/

set_option autoImplicit false
set_option relaxedAutoImplicit false

namespace TapeMachine.CommandLine

/-- The value of an option. An option whose value is written as the bare separator was given, but
has no value. -/
inductive Given (α : Type) where
  | absent
  | blank
  | value (value : α)
  deriving DecidableEq, Repr

/-- What is asked for. -/
structure Options where
  file : Option String
  demo : Given String
  inputText : Given String
  tapeSize : Given Int
  stepwise : Bool
  verbose : Bool
  deriving DecidableEq, Repr

/-- Why a command line cannot be followed. -/
inductive UsageError where
  | ambiguous (cause : Ambiguity)
  | missingValue (switch : Switch)
  | unwantedValue (switch : Switch) (value : String)
  | noSuchDemo (name : String)
  | notInteger (text : String)
  | leftOver (words : List String)
  | fileAndDemo
  | config (cause : ConfigError)
  deriving DecidableEq, Repr

def UsageError.message : UsageError → String
  | .ambiguous cause =>
    "ambiguous option: " ++ cause.text ++ " could match " ++
      String.intercalate ", " cause.candidates
  | .missingValue switch => "argument " ++ switch.title ++ ": expected one argument"
  | .unwantedValue switch value =>
    "argument " ++ switch.title ++ ": ignored explicit argument " ++ Text.quote value
  | .noSuchDemo name =>
    "argument --demo: invalid choice: " ++ Text.quote name ++ " (choose from " ++
      String.intercalate ", " (Bundled.demos.map fun entry ↦ Text.quote entry.1) ++ ")"
  | .notInteger text => "argument --tape-size: invalid int value: " ++ Text.quote text
  | .leftOver words => "unrecognized arguments: " ++ String.intercalate " " words
  | .fileAndDemo => "give either a file or --demo, not both"
  | .config cause => cause.message

/-- What reading a command line may end with before all of it is read. -/
inductive Interruption where
  | help
  | usage (cause : UsageError)
  deriving DecidableEq, Repr

/-- The words read so far. `file` is settled as soon as a plain word was taken for it. -/
structure Reading where
  options : Options
  fileSettled : Bool
  leftOver : List String
  deriving DecidableEq, Repr

namespace Reading

def start : Reading :=
  { options :=
      { file := none
        demo := .absent
        inputText := .absent
        tapeSize := .absent
        stepwise := false
        verbose := false }
    fileSettled := false
    leftOver := [] }

/-- Puts a word aside. -/
def putAside (r : Reading) (text : String) : Reading :=
  { r with leftOver := text :: r.leftOver }

/-- Takes a word for the file. -/
def takeFile (r : Reading) (text : String) : Reading :=
  { r with options := { r.options with file := some text }, fileSettled := true }

/-- Follows an option without a value. -/
def flag (r : Reading) : Switch → Except Interruption Reading
  | .help => .error .help
  | .stepwise => .ok { r with options := { r.options with stepwise := true } }
  | .verbose => .ok { r with options := { r.options with verbose := true } }
  | switch => .error (.usage (.missingValue switch))

/-- Follows options without a value, one after another. -/
def flags (r : Reading) : List Switch → Except Interruption Reading
  | [] => .ok r
  | switch :: rest => do
    let r ← r.flag switch
    r.flags rest

/-- Follows an option with a value. -/
def setValue (r : Reading) (switch : Switch) (value : String) : Except Interruption Reading :=
  match switch with
  | .demo =>
    if value = "--" then .ok { r with options := { r.options with demo := .blank } }
    else if (Bundled.demo? value).isSome then
      .ok { r with options := { r.options with demo := .value value } }
    else .error (.usage (.noSuchDemo value))
  | .input =>
    if value = "--" then .ok { r with options := { r.options with inputText := .blank } }
    else .ok { r with options := { r.options with inputText := .value value } }
  | .tapeSize =>
    if value = "--" then .ok { r with options := { r.options with tapeSize := .blank } }
    else
      match Text.integer? value with
      | some size => .ok { r with options := { r.options with tapeSize := .value size } }
      | none => .error (.usage (.notInteger value))
  | other => .error (.usage (.unwantedValue other value))

/-- The short options run together in one word: `switch` and those named by `tail`. -/
def cluster (switch : Switch) : List Char → Except UsageError (List Switch)
  | [] => .ok [switch]
  | c :: tail =>
    match Switch.ofSpelling? (String.ofList ['-', c]) with
    | some next => (cluster next tail).map (switch :: ·)
    | none => .error (.unwantedValue switch (String.ofList (c :: tail)))

/-- Follows an option that was written with a value in the same word. -/
def explicit (r : Reading) (switch : Switch) (short : Bool) (value : String) :
    Except Interruption Reading :=
  if switch.takesValue then r.setValue switch value
  else if short && value ≠ "" then
    match cluster switch value.toList with
    | .ok switches => r.flags switches
    | .error cause => .error (.usage cause)
  else .error (.usage (.unwantedValue switch value))

/-- Reads the words. `fresh` tells that the word just before was taken for the file; a separator
there, or before the file is settled, is dropped. -/
def read (r : Reading) (fresh : Bool) : List Word → Except Interruption Reading
  | [] => .ok r
  | .plain text :: rest =>
    if r.fileSettled then (r.putAside text).read false rest else (r.takeFile text).read true rest
  | .separator :: rest =>
    if r.fileSettled && !fresh then (r.putAside "--").read false rest else r.read false rest
  | .unknown text :: rest => (r.putAside text).read false rest
  | .switch switch short (some value) :: rest => do
    let r ← r.explicit switch short value
    r.read false rest
  | .switch switch _ none :: rest =>
    if switch.takesValue then
      match rest with
      | .plain text :: rest => do
        let r ← r.setValue switch text
        r.read false rest
      | _ => .error (.usage (.missingValue switch))
    else do
      let r ← r.flag switch
      r.read false rest

end Reading

/-- Reads a command line. -/
def Options.parse (words : List String) : Except Interruption Options := do
  let words ←
    match wordsOf words with
    | .ok words => .ok words
    | .error cause => .error (.usage (.ambiguous cause))
  let r ← Reading.start.read false words
  if r.leftOver.isEmpty then return r.options
  else .error (.usage (.leftOver r.leftOver.reverse))

end TapeMachine.CommandLine
