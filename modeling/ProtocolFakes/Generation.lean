import ProtocolFakes.Document
import ProtocolFakes.Fake
import ProtocolFakes.Protocol.Source
import ProtocolFakes.Selection

/-!
# Generating the fake of a selected protocol

The action reads the selection, makes a fake of the first protocol in it and
hands the fake to whoever writes it.  Everything around the action (the
selection, the place of the document, the writing, the log and the alerts) is
asked of a host, in any monad.

Nothing is handed over unless the whole selection reads and there is a place for
the fake.  The safe form of the action turns a failure into one entry of the log
and one alert.
-/

namespace ProtocolFakes

set_option autoImplicit false

/-! ## Hosts -/

/-- How serious an entry of the log is. -/
inductive Severity where
  | debug
  | info
  | warning
  | error
  deriving DecidableEq, Repr

instance : ToString Severity where
  toString
    | .debug => "debug"
    | .info => "info"
    | .warning => "warning"
    | .error => "error"

/-- What surrounds the action. -/
structure Host (m : Type → Type) where
  selection : m (Option Selection)
  /-- Where a fake for the current document goes, if there is a document. -/
  location : m (Option FakeLocation)
  /-- Writes a fake and answers the paths of its files. -/
  persist : Fake → FakeLocation → m (Except PersistenceError (List String))
  log : Severity → String → m Unit
  alert : String → m Unit

/-- A fake that has been written. -/
@[ext] structure PersistedFake where
  protocolName : String
  className : String
  paths : List String
  deriving DecidableEq, Inhabited

/-! ## What the log says -/

/-- The entry before a selection is read. -/
def parsingEntry (s : Selection) : String :=
  "Parsing " ++ toString (Text.byteLength s.text.toList) ++ " selected bytes at offset "
    ++ toString s.offset

/-- The entry after a fake is written. -/
def generatedEntry (className protocolName directory : String) : String :=
  "Generated " ++ className ++ " for protocol " ++ protocolName ++ " in " ++ directory

/-- The entry after a failure. -/
def failedEntry (failure : Failure) : String := "Fake generation failed: " ++ failure.message

/-! ## The action -/

namespace Host

variable {m : Type → Type} [Monad m]

/-- Makes the fake of a protocol and hands it over. -/
def deliver (host : Host m) (config : FakeConfig) (p : Protocol) :
    m (Except Failure PersistedFake) := do
  match ← host.location with
  | none => pure (.error .noDocument)
  | some location =>
      let fake := config.generate p location.headerImport
      match ← host.persist fake location with
      | .error e => pure (.error (.persistence e))
      | .ok paths => do
          host.log .info (generatedEntry fake.className p.name location.directory)
          pure (.ok { protocolName := p.name, className := fake.className, paths })

/-- Generates and writes the fake of the selected protocol. -/
def generateFake (host : Host m) (config : FakeConfig) : m (Except Failure PersistedFake) := do
  match (← host.selection).filter (!·.isBlank) with
  | none => pure (.error .emptySelection)
  | some selection => do
      host.log .debug (parsingEntry selection)
      match Protocol.ofSource selection.text selection.offset with
      | .error e => pure (.error e)
      | .ok p => host.deliver config p

/-- Generates and writes the fake of the selected protocol, or reports once why
that fails. -/
def generateFakeSafely (host : Host m) (config : FakeConfig) : m (Option PersistedFake) := do
  match ← host.generateFake config with
  | .ok fake => pure (some fake)
  | .error failure => do
      host.log .error (failedEntry failure)
      host.alert failure.userMessage
      pure none

end Host

end ProtocolFakes
