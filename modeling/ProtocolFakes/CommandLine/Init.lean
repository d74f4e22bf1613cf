import ProtocolFakes.CommandLine.Outcome
import ProtocolFakes.CommandLine.Request
import ProtocolFakes.Config.File

/-!
# The init command

The command writes a configuration file with all defaults, unless there is one
already and it may not be replaced.  That is no failure; it is only said.
-/

namespace ProtocolFakes.InitRequest

set_option autoImplicit false

/-- What is said about a file that is kept. -/
def keptLines (path : String) : List String :=
  ["❌ Config already exists at: " ++ path, "   Use --force to overwrite"]

/-- What is said about a file that has been written. -/
def createdLines (path : String) : List String :=
  ["✅ Created config: " ++ path, "",
    "📌 Fakes are written to `fakes/` next to the protocol's file.",
    "   Edit the 'output' section to change that, and 'fake' to rename classes."]

variable {m : Type → Type} [Monad m]

/-- Runs the command and answers the lines to print. -/
def execute (r : InitRequest) (fs : FileSystem m) (workingDirectory : String) :
    m (Except CommandError (List String)) := do
  match ← fs.canonicalize (r.directory.getD workingDirectory) with
  | .error cause => pure (.error (.unresolvedRoot cause))
  | .ok root =>
      let path := FilePath.within root ".fakesmith.json"
      if (← fs.hasPath path) && !r.force then pure (.ok (keptLines path))
      else
        match ← Config.save fs {} path with
        | .error cause => pure (.error (.unwritableConfig path cause))
        | .ok () => pure (.ok (createdLines path))

/-- Runs the command. -/
def run (r : InitRequest) (fs : FileSystem m) (workingDirectory : String) : m Outcome := do
  pure (.ofResult (← r.execute fs workingDirectory))

end ProtocolFakes.InitRequest
