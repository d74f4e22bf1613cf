import ProtocolFakes.Fake.Naming
import ProtocolFakes.Protocol
import ProtocolFakes.TypeSpelling

/-!
# What a fake does for each method

A fake records the calls of the instance methods of its protocol.  Each of them
has a stem of its own; from the stem follow the properties that the fake declares
for it and the statements of its body.  Properties and statements are data here
and become text in `FakeConfig.generate`, so both files of a fake are written from the
same plan.

A class method records nothing and answers nothing of its return type.
-/

namespace ProtocolFakes

set_option autoImplicit false

/-! ## Storage of a spelling -/

/-- How a value of a type is stored, by the type's spelling. -/
def storageOf (typeName : String) : StorageClass := storageClass typeName.toList

/-! ## Properties and statements -/

/-- A property in which a fake keeps something about calls. -/
@[ext] structure RecordingProperty where
  typeName : String
  name : String
  /-- Whether only the fake itself sets the property. -/
  isReadonly : Bool
  deriving DecidableEq

/-- A statement in the body of a fake's method. -/
inductive Statement where
  /-- Counts a call. -/
  | countCall (property : String)
  /-- Keeps the value of a parameter, copied if it is a block. -/
  | keepArgument (property parameter : String) (copied : Bool)
  /-- Returns the value of a property. -/
  | returnProperty (property : String)
  /-- Returns an expression. -/
  | returnValue (expression : String)
  deriving DecidableEq

/-! ## Plans -/

/-- A method of a fake, with the stem of its properties if it records calls. -/
structure MethodPlan where
  method : ProtocolMethod
  stem : Option String

/-- The plans of methods in order, when the stems `used` are taken already. -/
def planFrom (used : List String) : List ProtocolMethod → List MethodPlan
  | [] => []
  | m :: ms =>
      match m.kind with
      | .instanceMethod =>
          let stem := freeStem used m.selector.stem
          ⟨m, some stem⟩ :: planFrom (stem :: used) ms
      | .classMethod => ⟨m, none⟩ :: planFrom used ms

/-- What a fake of a protocol does for each of its methods. -/
def Protocol.plan (p : Protocol) : List MethodPlan := planFrom [] p.methods

namespace MethodPlan

/-- The properties declared for a method. -/
def properties (plan : MethodPlan) : List RecordingProperty :=
  match plan.stem with
  | none => []
  | some stem =>
      let selector := plan.method.selector
      ⟨"NSUInteger", callCountName stem, true⟩
        :: selector.parameters.map (fun p => ⟨p.typeName, argumentName stem p.name, true⟩)
        ++ (if storageOf selector.returnType = .void then []
            else [⟨selector.returnType, returnsName stem, false⟩])

/-- The statements of a method's body. -/
def statements (plan : MethodPlan) : List Statement :=
  let selector := plan.method.selector
  match plan.stem with
  | some stem =>
      .countCall (callCountName stem)
        :: selector.parameters.map (fun p =>
            .keepArgument (argumentName stem p.name) p.name (storageOf p.typeName = .block))
        ++ (if storageOf selector.returnType = .void then []
            else [.returnProperty (returnsName stem)])
  | none =>
      match zeroValue? selector.returnType.toList with
      | some zero => [.returnValue (String.ofList zero)]
      | none => []

end MethodPlan

end ProtocolFakes
