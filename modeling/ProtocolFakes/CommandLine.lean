import ProtocolFakes.CommandLine.Generate
import ProtocolFakes.CommandLine.Init
import ProtocolFakes.CommandLine.SelectorCommand
import ProtocolFakes.CommandLine.Usage

/-!
# The command line

The arguments make up a request, and the request is run on the files of a file
system.  The working directory is where relative output directories begin and
where a configuration goes by default.
-/

namespace ProtocolFakes

set_option autoImplicit false

/-- Runs a request. -/
def Request.run {m : Type → Type} [Monad m] (fs : FileSystem m) (workingDirectory : String) :
    Request → m Outcome
  | .generate request => request.run fs workingDirectory
  | .selector request => request.run fs
  | .init request => request.run fs workingDirectory

/-- Runs what arguments ask for. -/
def CommandLine.run {m : Type → Type} [Monad m] (fs : FileSystem m) (workingDirectory : String)
    (arguments : List String) : m Outcome :=
  match Request.ofArguments? arguments with
  | none => pure .misused
  | some request => request.run fs workingDirectory

end ProtocolFakes
