import ProtocolFakes.CommandLine.Error
import ProtocolFakes.Text.Line

/-!
# What a command leaves behind

A command ends with an exit status, the text it printed and the text it wrote to
the error stream.
-/

namespace ProtocolFakes

set_option autoImplicit false

/-- How a command ended and what it said. -/
@[ext] structure Outcome where
  status : Nat := 0
  output : String := ""
  errors : String := ""
  deriving DecidableEq, Inhabited

namespace Outcome

/-- A command that succeeded and printed some lines. -/
def printed (lines : List String) : Outcome := { output := Text.ofLines lines }

/-- A command that failed, after it had printed some lines. -/
def failed (e : CommandError) (lines : List String) : Outcome :=
  { status := 1, output := Text.ofLines lines, errors := e.report }

/-- A command that ended with alerts. -/
def alerted (messages : List String) : Outcome :=
  { status := 1, errors := Text.ofLines (messages.map ("error: " ++ ·)) }

/-- Arguments that are no request. -/
def misused : Outcome := { status := 2 }

/-- The outcome of a command that prints lines or fails without any. -/
def ofResult : Except CommandError (List String) → Outcome
  | .ok lines => printed lines
  | .error e => failed e []

end Outcome

end ProtocolFakes
