import ProtocolFakes.CommandLine.Error
import ProtocolFakes.Selection
import ProtocolFakes.Text.Search

/-!
# Arguments that name lines

A location is a path with a line number behind its last colon.  A line range is
one number, or two with a colon between them.  Both count lines from one, while
the library counts from zero.
-/

namespace ProtocolFakes.CommandLine

set_option autoImplicit false

/-- The texts before and behind the last colon of a text. -/
def splitAtLastColon? (text : List Char) : Option (List Char × List Char) :=
  match text.reverse.dropWhile (· ≠ ':') with
  | [] => none
  | _ :: before => some (before.reverse, (text.reverse.takeWhile (· ≠ ':')).reverse)

/-- The path of a location and its line, counted from zero.  Without a number
behind the last colon, all of the text is a path.  The number zero stands for
the first line, like the number one. -/
def splitLocation (location : String) : String × Option Nat :=
  match splitAtLastColon? location.toList with
  | none => (location, none)
  | some (path, line) =>
      match readNatural line with
      | .ok n => (String.ofList path, some (n - 1))
      | .error _ => (location, none)

/-- The two ends of a line range; a single line is both. -/
def splitRange (text : List Char) : List Char × List Char :=
  (Text.splitAtFirst? [':'] text).getD (text, text)

/-- The line range that a text names, counted from zero. -/
def readLineRange (text : String) : Except CommandError LineRange := do
  let (start, stop) := splitRange text.toList
  let first ← (readNatural (Text.trim start)).mapError (.invalidStartLine text)
  let last ← (readNatural (Text.trim stop)).mapError (.invalidEndLine text)
  if first = 0 ∨ last = 0 then .error (.lineZero text)
  else if last < first then .error (.reversedLines text)
  else pure { first := first - 1, last := last - 1 }

end ProtocolFakes.CommandLine
