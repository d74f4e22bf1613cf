import ProtocolFakes.FreshName
import ProtocolFakes.Selector
import ProtocolFakes.Token

/-!
# Editing a selector

An edit changes the list of entries, so a parameter always travels with its
component: deletion removes an entry, insertion adds one, a swap exchanges two
and a rename changes one keyword.  The return type and the range stay.  An edit
that does not apply answers why and changes nothing.

An inserted entry has an empty keyword and an `id` parameter whose name is `arg` with
the first free number.
Inserted beside a bare keyword, it turns that keyword into an argument as well,
because only a keyword that stands alone may do without a colon.
-/

namespace ProtocolFakes

set_option autoImplicit false

/-- An edit of the component list. -/
inductive SelectorEdit where
  | delete (index : Nat)
  | insert (index : Nat)
  | swap (index otherIndex : Nat)
  | rename (index : Nat) (keyword : String)
  deriving DecidableEq, Repr

/-- An edit in words. -/
instance : ToString SelectorEdit where
  toString
    | .delete index => "delete component " ++ toString index
    | .insert index => "insert component at " ++ toString index
    | .swap index otherIndex =>
        "swap components " ++ toString index ++ " and " ++ toString otherIndex
    | .rename index keyword =>
        "rename component " ++ toString index ++ " to `" ++ keyword ++ "`"

namespace Selector

/-! ## Placeholders -/

/-- The type of an inserted parameter. -/
def placeholderType : String := "id"

/-- Where the parameter of a component without one is put. -/
def placeholderRange (c : SelectorComponent) : SourceRange :=
  if c.keyword.isEmpty then c.range else .emptyAt c.range.stop

/-- The entries with a placeholder parameter wherever one is missing.
`position` is the index of the first entry, and `used` are the names taken. -/
def fillPlaceholders (used : List String) (position : Nat) : List Entry → List Entry
  | [] => []
  | (c, some p) :: es => (c, some p) :: fillPlaceholders used (position + 1) es
  | (c, none) :: es =>
      let name := firstFree used "arg" position
      ({ c with takesArgument := true }, some ⟨placeholderType, name, placeholderRange c⟩)
        :: fillPlaceholders (name :: used) (position + 1) es

/-! ## The four edits -/

/-- Refuses an index behind the last component. -/
def checkIndex (s : Selector) (index : Nat) : Except EditError Unit :=
  if index < s.components.length then .ok ()
  else .error (.indexOutOfBounds index s.components.length)

/-- The selector without one component and its parameter. -/
def deleteAt (s : Selector) (index : Nat) : Except EditError Selector := do
  s.checkIndex index
  if s.components.length = 1 then .error .lastComponent
  else pure (s.withEntries (s.entries.eraseIdx index))

/-- Where a component inserted at an index stands: where the one behind it
begins, or behind all others. -/
def insertionPoint (s : Selector) (index : Nat) : Nat :=
  match s.components[index]? with
  | some next => next.range.location
  | none => (s.components.map (·.range.stop)).foldl max 0

/-- The selector with an empty component at an index. -/
def insertAt (s : Selector) (index : Nat) : Except EditError Selector :=
  if s.components.length < index then
    .error (.indexOutOfBounds index s.components.length)
  else
    let placeholder : Entry := (⟨"", true, .emptyAt (s.insertionPoint index)⟩, none)
    let entries := s.entries.insertIdx index placeholder
    .ok (s.withEntries (fillPlaceholders (s.parameters.map (·.name)) 0 entries))

/-- A list with the elements at two positions exchanged. -/
def exchange {α : Type} (l : List α) (i j : Nat) : List α :=
  match l[i]?, l[j]? with
  | some x, some y => (l.set i y).set j x
  | _, _ => l

/-- The selector with two components exchanged. -/
def swapAt (s : Selector) (index otherIndex : Nat) : Except EditError Selector := do
  s.checkIndex index
  s.checkIndex otherIndex
  pure (s.withEntries (exchange s.entries index otherIndex))

/-- Whether a component may have a keyword: an identifier, or nothing if a colon
follows. -/
def allowsKeyword (c : SelectorComponent) (keyword : String) : Bool :=
  if keyword.isEmpty then c.takesArgument else isIdentifierWord keyword.toList

/-- The selector with another keyword at an index. -/
def renameAt (s : Selector) (index : Nat) (keyword : String) : Except EditError Selector :=
  match s.components[index]? with
  | none => .error (.indexOutOfBounds index s.components.length)
  | some c =>
      if allowsKeyword c keyword then
        .ok (s.withEntries (s.entries.modify index fun (c, p) => ({ c with keyword }, p)))
      else .error (.invalidKeyword keyword)

/-- The selector after an edit. -/
def apply (s : Selector) : SelectorEdit → Except EditError Selector
  | .delete index => s.deleteAt index
  | .insert index => s.insertAt index
  | .swap index otherIndex => s.swapAt index otherIndex
  | .rename index keyword => s.renameAt index keyword

end Selector

end ProtocolFakes
