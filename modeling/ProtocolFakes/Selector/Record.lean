import ProtocolFakes.Json
import ProtocolFakes.Selector.Edit

/-!
# Selectors and edits as JSON records

A selector is written as a record of its four fields.  Reading takes any record
of that shape and then asks `Selector.ofFields` whether the fields fit together,
so no record leads around the checks.

An edit is a record that names its operation under `op`, or an array with that
name in front.
-/

namespace ProtocolFakes

set_option autoImplicit false

/-! ## Ranges -/

namespace SourceRange

/-- The record of a range. -/
def toJson (r : SourceRange) : Json :=
  .record [("location", .nat r.location), ("length", .nat r.length)]

/-- The range that a record holds. -/
def ofJson? (v : Json) : Option SourceRange := do
  match ← v.fields? ["location", "length"] with
  | [location, length] =>
      let location ← Json.required? Json.offset? location
      let length ← Json.required? Json.offset? length
      ofNats? location length
  | _ => none

end SourceRange

/-! ## Kinds -/

namespace MethodKind

/-- The name of a kind. -/
def title : MethodKind → String
  | instanceMethod => "Instance"
  | classMethod => "Class"

/-- The kind of a name. -/
def ofTitle? (name : String) : Option MethodKind :=
  if name = "Instance" then some instanceMethod
  else if name = "Class" then some classMethod
  else none

/-- The JSON value of a kind. -/
def toJson (kind : MethodKind) : Json := .text kind.title

/-- The kind that a value holds: its name, or the object that has this name as
its only member, without a value. -/
def ofJson? : Json → Option MethodKind
  | .string name => name.bind ofTitle?
  | .object [(name, .null)] => name.bind ofTitle?
  | _ => none

end MethodKind

/-! ## Selectors -/

namespace SelectorComponent

/-- The record of a component. -/
def toJson (c : SelectorComponent) : Json :=
  .record [("keyword", .text c.keyword), ("takes_argument", .bool c.takesArgument),
    ("range", c.range.toJson)]

/-- The component that a record holds. -/
def ofJson? (v : Json) : Option SelectorComponent := do
  match ← v.fields? ["keyword", "takes_argument", "range"] with
  | [keyword, takesArgument, range] =>
      let keyword ← Json.required? Json.text? keyword
      let takesArgument ← Json.required? Json.bool? takesArgument
      let range ← Json.required? SourceRange.ofJson? range
      pure { keyword, takesArgument, range }
  | _ => none

end SelectorComponent

namespace Parameter

/-- The record of a parameter. -/
def toJson (p : Parameter) : Json :=
  .record [("type_name", .text p.typeName), ("name", .text p.name), ("range", p.range.toJson)]

/-- The parameter that a record holds. -/
def ofJson? (v : Json) : Option Parameter := do
  match ← v.fields? ["type_name", "name", "range"] with
  | [typeName, name, range] =>
      let typeName ← Json.required? Json.text? typeName
      let name ← Json.required? Json.text? name
      let range ← Json.required? SourceRange.ofJson? range
      pure { typeName, name, range }
  | _ => none

end Parameter

namespace Selector

/-- The record of a selector. -/
def toJson (s : Selector) : Json :=
  .record [("components", .array (s.components.map (·.toJson))),
    ("parameters", .array (s.parameters.map (·.toJson))),
    ("return_type", .text s.returnType), ("range", s.range.toJson)]

/-- The selector that a record holds: nothing if the record has another shape,
and an error if its fields do not fit together. -/
def ofJson? (v : Json) : Option (Except ParseError Selector) := do
  match ← v.fields? ["components", "parameters", "return_type", "range"] with
  | [components, parameters, returnType, range] =>
      let components ← Json.required? (Json.listOf? SelectorComponent.ofJson?) components
      let parameters ← Json.required? (Json.listOf? Parameter.ofJson?) parameters
      let returnType ← Json.required? Json.text? returnType
      let range ← Json.required? SourceRange.ofJson? range
      pure (ofFields components parameters returnType range)
  | _ => none

end Selector

/-! ## Edits -/

namespace SelectorEdit

/-- The record of an edit. -/
def toJson : SelectorEdit → Json
  | delete index => .record [("op", .text "delete"), ("index", .nat index)]
  | insert index => .record [("op", .text "insert"), ("index", .nat index)]
  | swap index otherIndex =>
      .record [("op", .text "swap"), ("index", .nat index), ("other_index", .nat otherIndex)]
  | rename index keyword =>
      .record [("op", .text "rename"), ("index", .nat index), ("keyword", .text keyword)]

/-- The name of an operation, and the record of what it works on. -/
def operation? : Json → Option (String × Json)
  | v@(.object _) => do
      match ← v.fields? ["op"] with
      | [op] => pure (← Json.required? Json.text? op, v)
      | _ => none
  | .array (op :: operands) => do pure (← op.text?, .array operands)
  | _ => none

/-- The edit that a record holds. -/
def ofJson? (v : Json) : Option SelectorEdit := do
  let (op, operands) ← operation? v
  if op = "delete" ∨ op = "insert" then
    match ← operands.fields? ["index"] with
    | [index] =>
        let index ← Json.required? Json.offset? index
        pure (if op = "delete" then delete index else insert index)
    | _ => none
  else if op = "swap" then
    match ← operands.fields? ["index", "other_index"] with
    | [index, otherIndex] =>
        let index ← Json.required? Json.offset? index
        let otherIndex ← Json.required? Json.offset? otherIndex
        pure (swap index otherIndex)
    | _ => none
  else if op = "rename" then
    match ← operands.fields? ["index", "keyword"] with
    | [index, keyword] =>
        let index ← Json.required? Json.offset? index
        let keyword ← Json.required? Json.text? keyword
        pure (rename index keyword)
    | _ => none
  else none

end SelectorEdit

end ProtocolFakes
