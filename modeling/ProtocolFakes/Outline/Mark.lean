import ProtocolFakes.Outline
import ProtocolFakes.Outline.Directive
import ProtocolFakes.Text.Byte

/-!
# The marks of a source file

An outline is read from marks: words, keywords behind an at sign, literals,
single signs and directives, each with its span.  Comments and blanks leave no
mark.

Marks differ from tokens, because an outline also looks through bodies and at
names that no selector may have: a word may hold characters beyond ASCII, a
character in single quotes is a literal, and a directive may begin anywhere in a
line.
-/

namespace ProtocolFakes

set_option autoImplicit false

/-- What stands at a mark. -/
inductive MarkKind where
  | word (chars : List Char)
  | atKeyword (chars : List Char)
  | literal
  | sign (c : Char)
  /-- A directive, with its name. -/
  | directive (name : List Char)
  deriving DecidableEq, Repr

/-- A mark with its span. -/
structure Mark where
  kind : MarkKind
  span : Span
  deriving DecidableEq, Repr

/-- The keywords that open a block.  No blank has to stand behind them. -/
def blockKeywords : List (List Char) :=
  ["@protocol".toList, "@interface".toList, "@implementation".toList]

/-- The keyword with which a word behind an at sign begins. -/
def atKeywordOf (word : List Char) : List Char :=
  (blockKeywords.find? (·.isPrefixOf word)).getD word

/-- What begins with `c` and continues into `cs`, and how many characters of
`cs` it takes.  A comment that is not closed takes all. -/
def nextMark (c : Char) (cs : List Char) : Option MarkKind × Nat :=
  let word := wordWidth c.isDigit (c :: cs)
  if separatorWidth (c :: cs) ≠ 0 then (none, separatorWidth (c :: cs) - 1)
  else if word ≠ 0 then (some (.word ((c :: cs).take word)), word - 1)
  else if c = '/' ∧ cs.head? = some '*' then (none, cs.length)
  else if c = '"' ∨ c = '\'' then (some .literal, quotedWidth c cs)
  else if c = '#' then (some (.directive (directiveName cs)), directiveWidth cs)
  else if c = '@' ∧ ¬ cs.head?.any Char.isDigit ∧ wordWidth false cs ≠ 0 then
    let keyword := atKeywordOf ('@' :: cs.take (wordWidth false cs))
    (some (.atKeyword keyword), keyword.length - 1)
  else (some (.sign c), 0)

/-- The marks of a text that begins at byte offset `start`. -/
def marksFrom (start : Nat) : List Char → List Mark
  | [] => []
  | c :: cs =>
      let next := nextMark c cs
      let stop := start + Text.byteLength (c :: cs.take next.2)
      let others := marksFrom stop (cs.drop next.2)
      match next.1 with
      | some kind => ⟨kind, ⟨start, stop⟩⟩ :: others
      | none => others
termination_by cs => cs.length
decreasing_by
  simp only [List.length_drop, List.length_cons]
  omega

/-- The marks of a file.  A byte order mark at its head is no part of it, but
counts in offsets. -/
def marks : List Char → List Mark
  | '\uFEFF' :: cs => marksFrom (Text.byteLength ['\uFEFF']) cs
  | cs => marksFrom 0 cs

/-! ## Kinds of marks -/

namespace Mark

/-- Whether a mark is a given sign. -/
def isSign (c : Char) (m : Mark) : Bool := m.kind == .sign c

/-- Whether a mark is a given keyword behind an at sign. -/
def isKeyword (keyword : String) (m : Mark) : Bool := m.kind == .atKeyword keyword.toList

/-- Whether a mark is any keyword behind an at sign. -/
def isAtKeyword (m : Mark) : Bool :=
  match m.kind with
  | .atKeyword _ => true
  | _ => false

/-- Whether a mark is a word. -/
def isWord (m : Mark) : Bool :=
  match m.kind with
  | .word _ => true
  | _ => false

/-- Whether a mark is a directive. -/
def isDirective (m : Mark) : Bool :=
  match m.kind with
  | .directive _ => true
  | _ => false

/-- Whether a mark opens a group. -/
def opensGroup (m : Mark) : Bool := m.isSign '(' || m.isSign '[' || m.isSign '{'

/-- Whether a mark closes a group. -/
def closesGroup (m : Mark) : Bool := m.isSign ')' || m.isSign ']' || m.isSign '}'

/-- Whether a method begins with a mark, if one may begin there. -/
def isMethodSign (m : Mark) : Bool := m.isSign '-' || m.isSign '+'

end Mark

end ProtocolFakes
