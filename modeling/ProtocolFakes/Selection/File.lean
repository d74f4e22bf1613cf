import ProtocolFakes.FileSystem
import ProtocolFakes.Selection

/-!
# Selections from files

Where there is no editor, the selection is a range of lines of a file or the
whole file.  A file that does not read, and a range that is blank or lies behind
the last line, select nothing.
-/

namespace ProtocolFakes

set_option autoImplicit false

/-- The lines of a range in a file, or the whole file, unless that is blank. -/
def Selection.ofFile? {m : Type → Type} [Monad m] (fs : FileSystem m) (path : String)
    (lines : Option LineRange) : m (Option Selection) := do
  match ← fs.readText path with
  | .error _ => pure none
  | .ok source => pure ((Selection.ofSource? source lines).filter (!·.isBlank))

end ProtocolFakes
