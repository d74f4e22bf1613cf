import ProtocolFakes.MethodKind
import ProtocolFakes.Selector.Error

/-!
# Method selectors

A selector is the list of its components, each a keyword with or without a
colon, together with one parameter per colon, the return type and the range of
the declaration it was read from.  Selectors are values: an edit answers a new
selector and leaves the old one as it was.

`Selector.ofFields` is the one door for fields from outside.  It refuses an empty
component list, a bare keyword beside others, a parameter too many or too few,
a range that overflows and a component outside the selector's range, in this
order.

A selector can also be seen as the list of its entries, where each component
stands beside its own parameter.  Edits are made on that list.
-/

namespace ProtocolFakes

set_option autoImplicit false

/-! ## The parts of a selector -/

/-- One keyword of a selector, such as `age:` in `setName:age:`. -/
@[ext] structure SelectorComponent where
  /-- The keyword without its colon.  It may be empty if a colon follows. -/
  keyword : String
  takesArgument : Bool
  range : SourceRange
  deriving DecidableEq, Inhabited

/-- The component as it stands in a selector: `age:` or `init`. -/
def SelectorComponent.spelling (c : SelectorComponent) : String :=
  if c.takesArgument then c.keyword ++ ":" else c.keyword

/-- The type and the local name that belong to a colon. -/
@[ext] structure Parameter where
  /-- The spelling between the parentheses, such as `NSString *`. -/
  typeName : String
  name : String
  range : SourceRange
  deriving DecidableEq, Inhabited

/-- A method selector with its parameters and return type. -/
@[ext] structure Selector where
  components : List SelectorComponent
  parameters : List Parameter
  returnType : String
  range : SourceRange
  deriving DecidableEq, Inhabited

namespace Selector

/-! ## Checked construction -/

/-- A selector has a component. -/
def emptyDefect? (components : List SelectorComponent) : Option ParseError :=
  if components.isEmpty then some .noComponents else none

/-- Beside others, every component takes an argument. -/
def bareDefect? (components : List SelectorComponent) : Option ParseError :=
  if 1 < components.length then
    (components.find? (!·.takesArgument)).map fun c => .bareComponentInKeywordSelector c.keyword
  else none

/-- There are as many parameters as components that take an argument. -/
def countDefect? (components : List SelectorComponent) (parameters : List Parameter) :
    Option ParseError :=
  let arguments := components.countP (·.takesArgument)
  if arguments = parameters.length then none
  else some (.parameterCountMismatch arguments parameters.length)

/-- Every range ends at an offset. -/
def overflowDefect? (ranges : List SourceRange) : Option ParseError :=
  (ranges.find? (·.stop?.isNone)).map fun r => .rangeOverflow r.location r.length

/-- Every component lies in the selector's range. -/
def outsideDefect? (components : List SelectorComponent) (range : SourceRange) :
    Option ParseError :=
  (components.find? (!range.encloses ·.range)).map fun c =>
    .componentOutsideRange c.keyword c.range

/-- The first reason why fields do not fit together. -/
def firstDefect? (components : List SelectorComponent) (parameters : List Parameter)
    (range : SourceRange) : Option ParseError :=
  emptyDefect? components
    |>.or (bareDefect? components)
    |>.or (countDefect? components parameters)
    |>.or (overflowDefect? (range :: components.map (·.range) ++ parameters.map (·.range)))
    |>.or (outsideDefect? components range)

/-- The selector with the given fields, if they fit together. -/
def ofFields (components : List SelectorComponent) (parameters : List Parameter)
    (returnType : String) (range : SourceRange) : Except ParseError Selector :=
  match firstDefect? components parameters range with
  | some defect => .error defect
  | none => .ok { components, parameters, returnType, range }

/-! ## Entries -/

/-- A component beside the parameter that belongs to it. -/
abbrev Entry := SelectorComponent × Option Parameter

/-- Each component beside the next parameter, if it takes an argument. -/
def pairUp : List SelectorComponent → List Parameter → List Entry
  | [], _ => []
  | c :: cs, ps =>
      if c.takesArgument then (c, ps.head?) :: pairUp cs ps.tail else (c, none) :: pairUp cs ps

theorem pairUp_cons (c : SelectorComponent) (cs : List SelectorComponent) (ps : List Parameter) :
    pairUp (c :: cs) ps =
      if c.takesArgument then (c, ps.head?) :: pairUp cs ps.tail
      else (c, none) :: pairUp cs ps := rfl

/-- The components of a selector, each beside its parameter. -/
def entries (s : Selector) : List Entry := pairUp s.components s.parameters

/-- The selector with other entries and the same return type and range. -/
def withEntries (s : Selector) (entries : List Entry) : Selector :=
  { s with components := entries.map (·.1), parameters := entries.filterMap (·.2) }

/-- The parameter of the component at an index, if it takes one. -/
def parameterAt? (s : Selector) (index : Nat) : Option Parameter := do
  let component ← s.components[index]?
  if component.takesArgument then
    s.parameters[(s.components.take index).countP (·.takesArgument)]?
  else none

/-- A selector without arguments, such as `init`. -/
def isUnary (s : Selector) : Bool := s.parameters.isEmpty

end Selector

end ProtocolFakes
