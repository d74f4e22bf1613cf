import ProtocolFakes.SourceRange

/-!
# Text edits

A text edit replaces one range of a document by a new text and leaves every
other byte alone.
-/

namespace ProtocolFakes

set_option autoImplicit false

/-- A replacement of one range of a document. -/
@[ext] structure TextEdit where
  range : SourceRange
  newText : String
  deriving DecidableEq, Inhabited

namespace TextEdit

/-- The document after the edit, unless the range is out of bounds or cuts a
character. -/
def applyTo? (edit : TextEdit) (source : String) : Option String := do
  let (before, _) ← Text.splitAtByte? edit.range.location source.toList
  let stop ← edit.range.stop?
  let (_, after) ← Text.splitAtByte? stop source.toList
  pure (String.ofList before ++ edit.newText ++ String.ofList after)

end TextEdit

end ProtocolFakes
