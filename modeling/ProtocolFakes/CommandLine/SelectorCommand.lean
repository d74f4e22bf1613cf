import ProtocolFakes.CommandLine.Argument
import ProtocolFakes.CommandLine.Outcome
import ProtocolFakes.CommandLine.Request
import ProtocolFakes.Json.Writer
import ProtocolFakes.Protocol.Source
import ProtocolFakes.Selector.Record

/-!
# The selector command

The command finds the method declared at a line of a file, edits its selector if
asked to, and prints the result.  Asked to write as well, it puts the new
declaration where the selector stood and leaves the rest of the file alone.

Like the readers of methods, the command takes the outline as an argument, here for
whatever text the file holds; `SelectorRequest.run` applies it to the outline of
the text itself.
-/

namespace ProtocolFakes

set_option autoImplicit false

/-! ## What is printed -/

namespace Selector

/-- The selector over several lines. -/
def describe (s : Selector) (kind : MethodKind) : List String :=
  ["🔍 Selector: " ++ s.name, "   ↩️  Returns: " ++ s.returnType,
      "   📍 Range: " ++ toString s.range]
    ++ s.describeComponents.map ("   " ++ ·)
    ++ ["   📝 " ++ s.declaration kind ++ ";"]

/-- The record of a selector with its name and its declaration. -/
def reportJson (s : Selector) (kind : MethodKind) : Json :=
  .record [("kind", kind.toJson), ("selector_string", .text s.name),
    ("declaration", .text (s.declaration kind)), ("selector", s.toJson)]

end Selector

/-! ## The command -/

/-- A method that has been found in a file and edited as asked. -/
structure EditedMethod where
  path : String
  /-- The line of the method, counted from zero. -/
  line : Nat
  source : String
  kind : MethodKind
  selector : Selector

namespace EditedMethod

/-- The text of the file with the new declaration. -/
def patched (e : EditedMethod) : Except CommandError String :=
  match (e.selector.replacement e.kind).applyTo? e.source with
  | some text => .ok text
  | none => .error (.misfitRange e.path)

end EditedMethod

namespace SelectorRequest

/-- The path, the line and the edit that a request names. -/
def operands (r : SelectorRequest) :
    Except CommandError (String × Nat × Option SelectorEdit) :=
  match CommandLine.splitLocation r.location with
  | (_, none) => .error (.missingLine r.location)
  | (path, some line) => r.edit.edit.map fun edit => (path, line, edit)

/-- The method declared at a line of a text, with an edit made. -/
def editedMethod (outline : String → Outline) (path : String) (line : Nat)
    (edit : Option SelectorEdit) (source : String) : Except CommandError EditedMethod := do
  match Text.lineContentOffset? source.toList line with
  | none => .error (.blankLine path line)
  | some offset =>
      let declared ←
        ((outline source).readMethodAt source offset).mapError (.noMethod path line)
      match edit with
      | none => pure { path, line, source, kind := declared.kind, selector := declared.selector }
      | some edit =>
          let selector ← (declared.selector.apply edit).mapError (.failedEdit edit)
          pure { path, line, source, kind := declared.kind, selector }

section

variable {m : Type → Type} [Monad m]

/-- The method that a request is about, edited as asked. -/
def find (outline : String → Outline) (r : SelectorRequest) (fs : FileSystem m) :
    m (Except CommandError EditedMethod) := do
  match r.operands with
  | .error e => pure (.error e)
  | .ok (path, line, edit) =>
      match ← fs.readText path with
      | .error cause => pure (.error (.unreadableFile path cause))
      | .ok source => pure (editedMethod outline path line edit source)

/-- The lines that show the result. -/
def resultLines (r : SelectorRequest) (e : EditedMethod) : List String :=
  if r.json then [(e.selector.reportJson e.kind).pretty] else e.selector.describe e.kind

/-- What is said after the file has been written. -/
def confirm (r : SelectorRequest) (e : EditedMethod) : List String :=
  if r.json then [] else ["✅ Updated " ++ e.path ++ ":" ++ toString (e.line + 1)]

/-- Runs the command with the outlines that `outline` gives for texts. -/
def runWith (outline : String → Outline) (r : SelectorRequest) (fs : FileSystem m) :
    m Outcome := do
  match ← r.find outline fs with
  | .error e => pure (.failed e [])
  | .ok found =>
      let lines := r.resultLines found
      if r.write then
        match found.patched with
        | .error e => pure (.failed e lines)
        | .ok text =>
            match ← fs.writeText found.path text with
            | .error cause => pure (.failed (.unwritableFile found.path cause) lines)
            | .ok () => pure (.printed (lines ++ r.confirm found))
      else pure (.printed lines)

/-- Runs the command. -/
def run (r : SelectorRequest) (fs : FileSystem m) : m Outcome := r.runWith Outline.ofSource fs

end

end SelectorRequest

end ProtocolFakes
