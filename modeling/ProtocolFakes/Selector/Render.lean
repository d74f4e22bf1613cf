import ProtocolFakes.Selector
import ProtocolFakes.TextEdit

/-!
# Writing a selector

A selector has a name, such as `setName:age:`, and a declaration, such as
`- (void)setName:(NSString *)name age:(NSInteger)age`.  The declaration replaces
the range that the selector was read from; whatever follows the last name there,
attributes and terminator included, lies outside that range and stays.
-/

namespace ProtocolFakes.Selector

set_option autoImplicit false

/-- The name of the selector: its components, one after another. -/
def name (s : Selector) : String := String.join (s.components.map (·.spelling))

/-- A component in a declaration, with the type and the name of its parameter. -/
def declareEntry : Entry → String
  | (c, some p) => c.keyword ++ ":(" ++ p.typeName ++ ")" ++ p.name
  | (c, none) => c.spelling

/-- The declaration without its terminator. -/
def declaration (s : Selector) (kind : MethodKind) : String :=
  toString kind ++ " (" ++ s.returnType ++ ")" ++ " ".intercalate (s.entries.map declareEntry)

/-- The edit that writes the declaration where the selector was read from. -/
def replacement (s : Selector) (kind : MethodKind) : TextEdit := ⟨s.range, s.declaration kind⟩

/-- A component on a line of its own, numbered, with its parameter. -/
def describeComponent (s : Selector) (index : Nat) (c : SelectorComponent) : String :=
  match s.parameterAt? index with
  | some p => toString index ++ ": " ++ c.spelling ++ " (" ++ p.typeName ++ ")" ++ p.name
  | none => toString index ++ ": " ++ c.spelling

/-- One line per component. -/
def describeComponents (s : Selector) : List String :=
  s.components.mapIdx fun index c => s.describeComponent index c

end ProtocolFakes.Selector
