import ProtocolFakes.Config.Text
import ProtocolFakes.Failure

/-!
# Configuration files

A configuration file stands in the directory of a document or above it and has
one of two names, of which the hidden one wins.  The nearest file alone counts:
if it does not read, no file farther up is asked.
-/

namespace ProtocolFakes.Config

set_option autoImplicit false

/-- The names of a configuration file, in order of preference. -/
def fileNames : List String := [".fakesmith.json", "fakesmith.json"]

/-- The paths at which a configuration file may stand, nearest first. -/
def candidates (start : String) : List String :=
  (FilePath.ancestors start).flatMap fun directory => fileNames.map (FilePath.within directory)

variable {m : Type → Type} [Monad m]

/-- The configuration that a file holds. -/
def load (fs : FileSystem m) (path : String) : m (Except Failure Config) := do
  match ← fs.readText path with
  | .error cause => pure (.error (.file cause))
  | .ok text => pure ((ofText text).mapError .config)

/-- Writes a configuration to a file. -/
def save (fs : FileSystem m) (config : Config) (path : String) : m (Except FileError Unit) :=
  fs.writeText path config.toText

/-- The nearest configuration file at a directory or above it. -/
def findFile? (fs : FileSystem m) (start : String) : m (Option String) :=
  fs.firstPresent? (candidates start)

/-- The configuration that holds at a directory: that of the nearest file, or
the defaults if there is none. -/
def discover (fs : FileSystem m) (start : String) : m (Except Failure Config) := do
  match ← findFile? fs start with
  | some path => load fs path
  | none => pure (.ok {})

end ProtocolFakes.Config
