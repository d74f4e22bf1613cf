import ProtocolFakes.Protocol
import ProtocolFakes.Selector.Record

/-!
# Protocols as JSON records

A protocol is written as a record of its fields, its methods as an array of
records.  A record whose selectors do not hold together is no protocol.
-/

namespace ProtocolFakes

set_option autoImplicit false

namespace ProtocolMethod

/-- The record of a method. -/
def toJson (m : ProtocolMethod) : Json :=
  .record [("kind", m.kind.toJson), ("selector", m.selector.toJson), ("optional", .bool m.optional)]

/-- The method that a record holds. -/
def ofJson? (v : Json) : Option ProtocolMethod := do
  match ← v.fields? ["kind", "selector", "optional"] with
  | [kind, selector, optional] =>
      let kind ← Json.required? MethodKind.ofJson? kind
      let selector ← Json.required? Selector.ofJson? selector
      let optional ← Json.required? Json.bool? optional
      pure { kind, selector := ← selector.toOption, optional }
  | _ => none

end ProtocolMethod

namespace Protocol

/-- The record of a protocol. -/
def toJson (p : Protocol) : Json :=
  .record [("name", .text p.name), ("conformances", .texts p.conformances),
    ("methods", .array (p.methods.map (·.toJson))), ("range", p.range.toJson)]

/-- The protocol that a record holds. -/
def ofJson? (v : Json) : Option Protocol := do
  match ← v.fields? ["name", "conformances", "methods", "range"] with
  | [name, conformances, methods, range] =>
      let name ← Json.required? Json.text? name
      let conformances ← Json.required? Json.texts? conformances
      let methods ← Json.required? (Json.listOf? ProtocolMethod.ofJson?) methods
      let range ← Json.required? SourceRange.ofJson? range
      pure { name, conformances, methods, range }
  | _ => none

end Protocol

end ProtocolFakes
