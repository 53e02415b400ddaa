import TapeMachine.Text.Digit

/-!
The words of a command line. Each word is told apart from its spelling alone: an option, possibly
shortened and with a value after an equals sign, the separator after which no word is an option, or
a plain word.
-/

set_option autoImplicit false
set_option relaxedAutoImplicit false

namespace TapeMachine.CommandLine

/-- The options that the command line knows. -/
inductive Switch where
  | help
  | demo
  | input
  | tapeSize
  | stepwise
  | verbose
  deriving DecidableEq, Repr

namespace Switch

/-- All spellings of all options, in the order in which they are listed to users. -/
def spellings : List (String × Switch) :=
  [("-h", .help), ("--help", .help), ("--demo", .demo), ("--input", .input),
    ("--tape-size", .tapeSize), ("--no-jit", .stepwise), ("-v", .verbose),
    ("--verbose", .verbose)]

/-- The option with exactly this spelling. -/
def ofSpelling? (spelling : String) : Option Switch := spellings.lookup spelling

/-- All spellings of an option, as messages show them. -/
def title : Switch → String
  | .help => "-h/--help"
  | .demo => "--demo"
  | .input => "--input"
  | .tapeSize => "--tape-size"
  | .stepwise => "--no-jit"
  | .verbose => "-v/--verbose"

/-- The option needs a value. -/
def takesValue : Switch → Bool
  | .demo | .input | .tapeSize => true
  | .help | .stepwise | .verbose => false

end Switch

/-- A word of the command line. An option carries the value written into the same word, and whether
it was spelled with a single dash. -/
inductive Word where
  | separator
  | plain (text : String)
  | switch (switch : Switch) (short : Bool) (value : Option String)
  | unknown (text : String)
  deriving DecidableEq, Repr

/-- A shortened option that could mean several ones. -/
structure Ambiguity where
  text : String
  candidates : List String
  deriving DecidableEq, Repr

/-- The parts of a word before and after its first equals sign, if it has one. -/
def splitValue (word : List Char) : List Char × Option (List Char) :=
  match word.dropWhile (· ≠ '=') with
  | [] => (word, none)
  | _ :: value => (word.takeWhile (· ≠ '='), some value)

/-- The word reads like a negative number: a minus sign before digits, at most one point before the
last of them. A newline at the end does not count. -/
def looksNegative : List Char → Bool
  | '-' :: rest =>
    let body := if rest.getLast? = some '\n' then rest.dropLast else rest
    let whole := body.takeWhile Text.isDecimalDigit
    match body.dropWhile Text.isDecimalDigit with
    | [] => !whole.isEmpty
    | '.' :: decimals => !decimals.isEmpty && decimals.all Text.isDecimalDigit
    | _ => false
  | _ => false

/-- The options that a word with dashes in front could mean: a long option may be shortened, a
short one may have its value right behind it. -/
def candidates (word : List Char) : List (String × Switch × Bool × Option String) :=
  match word with
  | '-' :: '-' :: _ =>
    let (name, value) := splitValue word
    (Switch.spellings.filter fun entry ↦ name.isPrefixOf entry.1.toList).map fun entry ↦
      (entry.1, entry.2, false, value.map String.ofList)
  | _ =>
    (Switch.spellings.filter fun entry ↦ entry.1.toList = word.take 2).map fun entry ↦
      (entry.1, entry.2, true, some (String.ofList (word.drop 2)))

/-- The spelling starts with a single dash. -/
def isShort (spelling : String) : Bool := !spelling.startsWith "--"

/-- A word with a dash in front that is no complete option. -/
def wordOfDashed (text : String) : Except Ambiguity Word :=
  match candidates text.toList with
  | [(_, switch, short, value)] => .ok (.switch switch short value)
  | [] =>
    if looksNegative text.toList || text.toList.contains ' ' then .ok (.plain text)
    else .ok (.unknown text)
  | several => .error ⟨text, several.map (·.1)⟩

/-- Tells what a word is that stands before any separator. -/
def wordOf (text : String) : Except Ambiguity Word :=
  if !text.startsWith "-" then .ok (.plain text)
  else
    match Switch.ofSpelling? text with
    | some switch => .ok (.switch switch (isShort text) none)
    | none =>
      if text = "-" then .ok (.plain text)
      else
        match splitValue text.toList with
        | (name, some value) =>
          match Switch.ofSpelling? (String.ofList name) with
          | some switch =>
            .ok (.switch switch (isShort (String.ofList name)) (some (String.ofList value)))
          | none => wordOfDashed text
        | (_, none) => wordOfDashed text

/-- Tells what each word is. After the separator all words are plain. -/
def wordsOf : List String → Except Ambiguity (List Word)
  | [] => .ok []
  | text :: rest =>
    if text = "--" then .ok (.separator :: rest.map .plain)
    else do
      let word ← wordOf text
      let words ← wordsOf rest
      return word :: words

end TapeMachine.CommandLine
