import ProtocolFakes.Selector.Render

/-!
# Protocols and their methods

A protocol has a name, the protocols it conforms to, its methods in the order of
declaration, and the range of its declaration.  A method may be optional.
-/

namespace ProtocolFakes

set_option autoImplicit false

/-- A method that a protocol declares. -/
@[ext] structure ProtocolMethod where
  kind : MethodKind
  selector : Selector
  optional : Bool
  deriving DecidableEq, Inhabited

/-- A method declared or defined anywhere in a file.  Its range goes from the
marker to the terminator or to the end of the body. -/
@[ext] structure DeclaredMethod where
  kind : MethodKind
  selector : Selector
  range : SourceRange
  deriving DecidableEq, Inhabited

/-- A protocol with its methods. -/
@[ext] structure Protocol where
  name : String
  conformances : List String
  methods : List ProtocolMethod
  range : SourceRange
  deriving DecidableEq, Inhabited

/-- The declaration of a method, without its terminator. -/
def ProtocolMethod.declaration (m : ProtocolMethod) : String := m.selector.declaration m.kind

namespace Protocol

/-- The methods of one kind, in order. -/
def methodsOfKind (p : Protocol) (kind : MethodKind) : List ProtocolMethod :=
  p.methods.filter (·.kind = kind)

/-- The index of the first method with a selector name. -/
def indexOf? (p : Protocol) (name : String) : Option Nat :=
  p.methods.findIdx? (·.selector.name = name)

end Protocol

end ProtocolFakes
