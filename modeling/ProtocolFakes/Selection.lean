import ProtocolFakes.Text.Line

/-!
# Selections

A selection is a piece of a document together with the byte offset where it
begins.  `LineRange.select?` takes whole lines of a text; a range that goes on
behind the last line ends with it, and a range that begins there selects
nothing.
-/

namespace ProtocolFakes

set_option autoImplicit false

/-- Selected text and where it begins in its document. -/
@[ext] structure Selection where
  text : String
  offset : Nat
  deriving DecidableEq, Inhabited

namespace Selection

/-- A selection of blanks only. -/
def isBlank (s : Selection) : Bool := Text.isAllBlank s.text.toList

/-- The whole of a text. -/
def whole (source : String) : Selection := ⟨source, 0⟩

end Selection

/-- The lines from `first` to `last`, both included, counted from zero. -/
@[ext] structure LineRange where
  first : Nat
  last : Nat
  deriving DecidableEq, Repr, Inhabited

/-- Where the lines of a range begin and end, looked for among the lines from `index` on, which
begin at `offset`.  Up to there, `start` and `stop` are what is known. -/
def LineRange.boundsFrom (r : LineRange) (index offset : Nat) (start : Option Nat) (stop : Nat) :
    List (List Char) → Option Nat × Nat
  | [] => (start, stop)
  | line :: rest =>
      let start := if index = r.first then some offset else start
      let behind := offset + Text.byteLength line
      if index = r.last then (start, behind)
      else r.boundsFrom (index + 1) behind start stop rest

theorem LineRange.boundsFrom_cons (r : LineRange) (index offset : Nat) (start : Option Nat)
    (stop : Nat) (line : List Char) (rest : List (List Char)) :
    r.boundsFrom index offset start stop (line :: rest) =
      if index = r.last then
        (if index = r.first then some offset else start, offset + Text.byteLength line)
      else
        r.boundsFrom (index + 1) (offset + Text.byteLength line)
          (if index = r.first then some offset else start) stop rest := rfl

/-- The lines of a range in a text. -/
def LineRange.select? (r : LineRange) (source : String) : Option Selection :=
  if r.last < r.first then none
  else do
    let chars := source.toList
    let (start, stop) := r.boundsFrom 0 0 none (Text.byteLength chars) (Text.lines chars)
    let start ← start
    let text ← Text.sliceBytes? start stop chars
    pure { text := String.ofList text, offset := start }

/-- The lines of a range in a text, or the whole text. -/
def Selection.ofSource? (source : String) : Option LineRange → Option Selection
  | none => some (.whole source)
  | some lines => lines.select? source

end ProtocolFakes
