/-!
# Instance and class methods

A method is declared with `-` when it is sent to an instance and with `+` when
it is sent to the class.
-/

namespace ProtocolFakes

set_option autoImplicit false

/-- Whether a method is sent to an instance or to its class. -/
inductive MethodKind where
  | instanceMethod
  | classMethod
  deriving DecidableEq, Repr, Inhabited

namespace MethodKind

/-- The character that a declaration of this kind begins with. -/
def marker : MethodKind → Char
  | instanceMethod => '-'
  | classMethod => '+'

/-- The kind that a marker stands for. -/
def ofMarker? (text : String) : Option MethodKind :=
  if text = "-" then some instanceMethod
  else if text = "+" then some classMethod
  else none

instance : ToString MethodKind := ⟨fun kind => kind.marker.toString⟩

/-- A marker stands for the kind that is written with it. -/
theorem ofMarker?_marker (kind : MethodKind) : ofMarker? kind.marker.toString = some kind := by
  cases kind <;> decide

end MethodKind

end ProtocolFakes
