import TapeMachine.Config
import TapeMachine.Devices
import TapeMachine.Fault
import TapeMachine.Program

/-!
Everything that can cut a call short: unsuitable arguments, unreadable files, and faults in the
middle of a run.
-/

set_option autoImplicit false
set_option relaxedAutoImplicit false

namespace TapeMachine

/-- Why a file cannot be read. -/
inductive FileError where
  | missing (path : String)
  | directory (path : String)
  | notDirectory (path : String)
  | nameTooLong (path : String)
  | nullInPath
  | unknownEncoding (name : String)
  | nullInEncoding
  deriving DecidableEq, Repr

def FileError.message : FileError → String
  | .missing path => "[Errno 2] No such file or directory: " ++ Text.quote path
  | .directory path => "[Errno 21] Is a directory: " ++ Text.quote path
  | .notDirectory path => "[Errno 20] Not a directory: " ++ Text.quote path
  | .nameTooLong path => "[Errno 36] File name too long: " ++ Text.quote path
  | .nullInPath => "embedded null byte"
  | .unknownEncoding name => "unknown encoding: " ++ name
  | .nullInEncoding => "embedded null character"

/-- Why a call ends without a result. -/
inductive Error where
  | program (cause : ProgramError)
  | config (cause : ConfigError)
  | source (cause : SourceError)
  | decode (cause : Text.DecodeError)
  | file (cause : FileError)
  | fault (cause : Fault)
  | inputNotText
  deriving DecidableEq, Repr

def Error.message : Error → String
  | .program cause => cause.message
  | .config cause => cause.message
  | .source cause => cause.message
  | .decode cause => cause.message
  | .file cause => cause.message
  | .fault cause => cause.message
  | .inputNotText => "'list' object has no attribute 'encode'"

end TapeMachine
