import ProtocolFakes.Failure
import ProtocolFakes.Selector.Edit
import ProtocolFakes.Text.Natural

/-!
# Errors of the command line

What a command reports when it cannot do its work: a message, and underneath it
the messages of what led to it.  A report is written over several lines on the
error stream, or on one line with the messages joined by colons.
-/

namespace ProtocolFakes

set_option autoImplicit false

/-! ## Errors -/

/-- Why a command fails. -/
inductive CommandError where
  | noSuchFile (path : String)
  | unresolvedFile (path : String) (cause : FileError)
  | invalidStartLine (text : String) (cause : NumberError)
  | invalidEndLine (text : String) (cause : NumberError)
  | lineZero (text : String)
  | reversedLines (text : String)
  | invalidConfig (cause : Failure)
  | missingLine (location : String)
  | swapOperands
  | renameOperands
  | invalidIndex (text : String) (cause : NumberError)
  | unreadableFile (path : String) (cause : FileError)
  | blankLine (path : String) (line : Nat)
  | noMethod (path : String) (line : Nat) (cause : Failure)
  | failedEdit (edit : SelectorEdit) (cause : EditError)
  | misfitRange (path : String)
  | unwritableFile (path : String) (cause : FileError)
  | unresolvedRoot (cause : FileError)
  | unwritableConfig (path : String) (cause : FileError)
  deriving DecidableEq

namespace CommandError

/-- What an error says.  Lines are counted from one. -/
def message : CommandError → String
  | noSuchFile path => "No such file: " ++ path
  | unresolvedFile path _ => "Failed to resolve " ++ path
  | invalidStartLine text _ => "Invalid start line in `" ++ text ++ "`"
  | invalidEndLine text _ => "Invalid end line in `" ++ text ++ "`"
  | lineZero text => "Line numbers start at 1, got `" ++ text ++ "`"
  | reversedLines text => "Line range `" ++ text ++ "` ends before it starts"
  | invalidConfig cause => cause.message
  | missingLine location => "Expected FILE:LINE, got `" ++ location ++ "`"
  | swapOperands => "--swap takes exactly two indices"
  | renameOperands => "--rename takes an index and a keyword"
  | invalidIndex text _ => "Invalid component index `" ++ text ++ "`"
  | unreadableFile path _ => "Failed to read " ++ path
  | blankLine path line =>
      "Line " ++ toString (line + 1) ++ " of " ++ path ++ " is blank or past the end"
  | noMethod path line _ =>
      "No method declaration at " ++ path ++ ":" ++ toString (line + 1)
  | failedEdit edit _ => "Failed to " ++ toString edit
  | misfitRange path => "Selector range no longer fits " ++ path
  | unwritableFile path _ => "Failed to write " ++ path
  | unresolvedRoot _ => "Failed to canonicalize project root"
  | unwritableConfig path _ => "Failed to write config to " ++ path

/-- The messages underneath, outermost first. -/
def causes : CommandError → List String
  | unresolvedFile _ cause | unreadableFile _ cause | unwritableFile _ cause
  | unresolvedRoot cause => [cause.message]
  | invalidStartLine _ cause | invalidEndLine _ cause | invalidIndex _ cause => [cause.message]
  | invalidConfig cause => cause.causes
  | noMethod _ _ cause => cause.message :: cause.causes
  | failedEdit _ cause => [cause.message]
  | unwritableConfig _ cause => (Failure.file cause).message :: (Failure.file cause).causes
  | noSuchFile _ | lineZero _ | reversedLines _ | missingLine _ | swapOperands
  | renameOperands | blankLine _ _ | misfitRange _ => []

/-! ## Reports -/

/-- A text with blanks behind each of its line feeds. -/
def indentAfterBreaks (blanks : String) (text : String) : String :=
  String.ofList (text.toList.flatMap fun c => if c = '\n' then c :: blanks.toList else [c])

/-- A number that takes at least five columns. -/
def rightAligned (n : Nat) : String :=
  let digits := toString n
  "".pushn ' ' (5 - digits.length) ++ digits

/-- The lines of the messages underneath.  Several of them are numbered. -/
def causeLines : List String → List String
  | [] => []
  | [cause] => ["    " ++ indentAfterBreaks "    " cause]
  | causes => causes.mapIdx fun index cause =>
      rightAligned index ++ ": " ++ indentAfterBreaks "       " cause

/-- The report on the error stream. -/
def report (e : CommandError) : String :=
  let under :=
    match e.causes with
    | [] => ""
    | causes => "\n\nCaused by:\n" ++ "\n".intercalate (causeLines causes)
  "Error: " ++ e.message ++ under ++ "\n"

/-- The report on one line. -/
def summary (e : CommandError) : String := ": ".intercalate (e.message :: e.causes)

end CommandError

end ProtocolFakes
