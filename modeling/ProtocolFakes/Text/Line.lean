import ProtocolFakes.Text.Byte
import ProtocolFakes.Text.Blank

/-!
# Lines of a text

A line ends with its line feed, so the lines of a text, one after another, are
the text (`flatten_lines`).  A text that ends with a line feed has no further
line behind it.
-/

namespace ProtocolFakes.Text

set_option autoImplicit false

/-- The lines of a text, each with its line feed. -/
def lines : List Char → List (List Char)
  | [] => []
  | c :: cs =>
      if c = '\n' then [c] :: lines cs
      else
        match lines cs with
        | [] => [[c]]
        | line :: rest => (c :: line) :: rest

/-- The lines of a text are the text. -/
theorem flatten_lines (cs : List Char) : (lines cs).flatten = cs := by
  fun_induction lines cs <;> simp_all

/-- No line is empty. -/
theorem ne_nil_of_mem_lines {cs line : List Char} (h : line ∈ lines cs) : line ≠ [] := by
  fun_induction lines cs with
  | case1 => simp at h
  | case2 cs ih =>
      rcases List.mem_cons.1 h with rfl | h
      · simp
      · exact ih h
  | case3 => simp_all
  | case4 c cs _ first rest heq ih =>
      rcases List.mem_cons.1 h with rfl | h
      · simp
      · exact ih (heq ▸ List.mem_cons_of_mem _ h)

/-- The byte offset of the first character on a line that is not blank, looked for among the
lines from `index` on, which begin at `offset`. -/
def lineContentOffsetFrom (line index offset : Nat) : List (List Char) → Option Nat
  | [] => none
  | content :: rest =>
      if index = line then
        let indent := byteLength content - byteLength (trimStart content)
        if (trim content).isEmpty then none else some (offset + indent)
      else lineContentOffsetFrom line (index + 1) (offset + byteLength content) rest

/-- The byte offset of the first character on a line that is not blank, if there
is one.  Lines are counted from zero. -/
def lineContentOffset? (cs : List Char) (line : Nat) : Option Nat :=
  lineContentOffsetFrom line 0 0 (lines cs)

/-- Lines as a text, each with its end. -/
def ofLines (lines : List String) : String := String.join (lines.map (· ++ "\n"))

end ProtocolFakes.Text
