import ProtocolFakes.CommandLine.Argument
import ProtocolFakes.CommandLine.Outcome
import ProtocolFakes.CommandLine.Request
import ProtocolFakes.Config.File
import ProtocolFakes.Generation
import ProtocolFakes.Persistence
import ProtocolFakes.Selection.File

/-!
# The generate command

The command selects lines of a file, or all of it, and runs the action with the
configuration that holds at the file's directory.  Its host writes to files,
keeps no log, and collects the alerts, which go to the error stream.
-/

namespace ProtocolFakes

set_option autoImplicit false

variable {m : Type → Type} [Monad m]

/-- The host of the generate command: the lines of a file, with a configured
place for the fake.  Its state is the list of alerts. -/
def Host.ofFile (fs : FileSystem m) (path : String) (lines : Option LineRange)
    (output : OutputConfig) : Host (StateT (List String) m) where
  selection := StateT.lift (Selection.ofFile? fs path lines)
  location := pure (some ((Document.mk path).fakeLocation output))
  persist fake location := StateT.lift (fs.persist output.overwrite fake location.directory)
  log _ _ := pure ()
  alert message := modify (· ++ [message])

namespace GenerateRequest

/-- The lines that a request selects. -/
def lineRange (r : GenerateRequest) : Except CommandError (Option LineRange) :=
  match r.lines with
  | none => .ok none
  | some text => (CommandLine.readLineRange text).map some

/-- The configuration with what a request has to say about it. -/
def adjust (r : GenerateRequest) (workingDirectory : String) (config : Config) : Config :=
  { config with
    output :=
      { directory :=
          match r.out with
          | some out => FilePath.within workingDirectory out
          | none => config.output.directory
        overwrite := config.output.overwrite || r.force } }

/-- The absolute path of the file, the lines and the configuration. -/
def prepare (r : GenerateRequest) (fs : FileSystem m) (workingDirectory : String) :
    m (Except CommandError (String × Option LineRange × Config)) := do
  if !(← fs.hasFile r.file) then pure (.error (.noSuchFile r.file))
  else
    match ← fs.canonicalize r.file with
    | .error cause => pure (.error (.unresolvedFile r.file cause))
    | .ok path =>
        match r.lineRange with
        | .error e => pure (.error e)
        | .ok lines =>
            match ← Config.discover fs (Document.mk path).directory with
            | .error cause => pure (.error (.invalidConfig cause))
            | .ok config => pure (.ok (path, lines, r.adjust workingDirectory config))

/-- What is printed about a fake that has been written. -/
def describe (fake : PersistedFake) : List String :=
  ("✅ Generated " ++ fake.className ++ " for protocol " ++ fake.protocolName)
    :: fake.paths.map ("   📄 " ++ ·)

/-- Runs the command. -/
def run (r : GenerateRequest) (fs : FileSystem m) (workingDirectory : String) : m Outcome := do
  match ← r.prepare fs workingDirectory with
  | .error e => pure (.failed e [])
  | .ok (path, lines, config) =>
      let host := Host.ofFile fs path lines config.output
      match ← (host.generateFakeSafely config.fake).run [] with
      | (some fake, _) => pure (.printed (describe fake))
      | (none, alerts) => pure (.alerted alerts)

end GenerateRequest

end ProtocolFakes
