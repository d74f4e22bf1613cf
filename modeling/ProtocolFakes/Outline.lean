/-!
# The outline of a source file

The outline of a file says where it declares methods and protocols.  Spans are
byte offsets in the file.

A method within the body of another method is not a method of the file, and a
protocol within a protocol is not a protocol of the file; `ofMethod` and
`ofProtocol` make the outline of a declaration from the outline of what stands
within it.

Reading protocols and methods needs nothing of a file but its outline, so those
readers take any outline; `Outline.ofSource` finds the one of a text.
-/

namespace ProtocolFakes

set_option autoImplicit false

/-- A stretch of a file, from a byte offset up to another. -/
@[ext] structure Span where
  start : Nat
  stop : Nat
  deriving DecidableEq, Repr, Inhabited

/-- Whether an offset lies in a span. -/
def Span.contains (s : Span) (offset : Nat) : Bool := s.start ≤ offset && offset < s.stop

/-- Where a protocol is declared. -/
structure ProtocolBlock where
  name : String
  span : Span
  /-- The methods declared within the block, in order. -/
  methods : List Span
  deriving DecidableEq, Repr, Inhabited

/-- The methods and the protocols of a file, each in order. -/
@[ext] structure Outline where
  methods : List Span
  protocols : List ProtocolBlock
  deriving DecidableEq, Repr, Inhabited

namespace Outline

/-- The outline of a stretch that declares nothing. -/
def empty : Outline := ⟨[], []⟩

/-- The outline of two stretches, one behind the other. -/
def append (o p : Outline) : Outline := ⟨o.methods ++ p.methods, o.protocols ++ p.protocols⟩

instance : Append Outline := ⟨append⟩

@[simp] theorem methods_append (o p : Outline) : (o ++ p).methods = o.methods ++ p.methods := rfl

@[simp] theorem protocols_append (o p : Outline) :
    (o ++ p).protocols = o.protocols ++ p.protocols := rfl

/-- The outline of a method with the outline of its body. -/
def ofMethod (span : Span) (body : Outline) : Outline := ⟨[span], body.protocols⟩

/-- The outline of a protocol with the outline of its members. -/
def ofProtocol (name : String) (span : Span) (members : Outline) : Outline :=
  ⟨members.methods, [⟨name, span, members.methods⟩]⟩

/-- The first protocol of a file. -/
def firstProtocol? (o : Outline) : Option ProtocolBlock := o.protocols.head?

/-- The first method whose span holds an offset. -/
def methodAt? (o : Outline) (offset : Nat) : Option Span :=
  o.methods.find? (·.contains offset)

end Outline

end ProtocolFakes
