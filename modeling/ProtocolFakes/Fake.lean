import ProtocolFakes.Config
import ProtocolFakes.Fake.Plan
import ProtocolFakes.Text.Line

/-!
# Fakes

A fake is a class that conforms to a protocol and records how it is called.  It
is generated as a header, which declares the recording properties, and an
implementation, which holds one method for each method of the protocol, in the
same order.
-/

namespace ProtocolFakes

set_option autoImplicit false

/-- A generated fake: the name of the class and the text of its two files. -/
@[ext] structure Fake where
  className : String
  header : String
  implementation : String
  deriving DecidableEq, Inhabited

namespace Fake

/-- The name of the header file. -/
def headerFile (f : Fake) : String := f.className ++ ".h"

/-- The name of the implementation file. -/
def implementationFile (f : Fake) : String := f.className ++ ".m"

end Fake

/-! ## Lines -/

namespace RecordingProperty

/-- The attributes of a property: how it is stored, who sets it, and whether it
may be null where nothing else may. -/
def attributes (assumeNonnull : Bool) (p : RecordingProperty) : List String :=
  let storage := storageOf p.typeName
  ["nonatomic",
    match storage with
    | .object => "strong"
    | .block => "copy"
    | .void | .scalar => "assign"]
    ++ (if p.isReadonly then ["readonly"] else [])
    ++ (if assumeNonnull ∧ (storage = .object ∨ storage = .block) then ["nullable"] else [])

/-- The line that declares a property. -/
def line (assumeNonnull : Bool) (p : RecordingProperty) : String :=
  "@property (" ++ ", ".intercalate (p.attributes assumeNonnull) ++ ") "
    ++ String.ofList (declarator (propertySpelling p.typeName.toList) p.name.toList) ++ ";"

end RecordingProperty

/-- The line of a statement, indented. -/
def Statement.line : Statement → String
  | countCall property => "    _" ++ property ++ " += 1;"
  | keepArgument property parameter copied =>
      "    _" ++ property ++ " = "
        ++ (if copied then "[" ++ parameter ++ " copy]" else parameter) ++ ";"
  | returnProperty property => "    return _" ++ property ++ ";"
  | returnValue expression => "    return " ++ expression ++ ";"

namespace MethodPlan

/-- The lines of a method in the header: an empty one and its properties. -/
def headerLines (assumeNonnull : Bool) (plan : MethodPlan) : List String :=
  match plan.stem with
  | none => []
  | some _ => "" :: plan.properties.map (·.line assumeNonnull)

/-- The lines of a method in the implementation: an empty one, its declaration,
its body and the closing brace. -/
def implementationLines (plan : MethodPlan) : List String :=
  "" :: (plan.method.declaration ++ " \x7b") :: plan.statements.map (·.line) ++ ["\x7d"]

end MethodPlan

/-! ## The two files -/

/-- The lines of the header of a fake. -/
def headerLines (config : FakeConfig) (p : Protocol) (className protocolHeader : String) :
    List String :=
  ["#import <Foundation/Foundation.h>", "#import \"" ++ protocolHeader ++ "\""]
    ++ config.extraImports.map ("#import " ++ ·)
    ++ [""]
    ++ (if config.assumeNonnull then ["NS_ASSUME_NONNULL_BEGIN", ""] else [])
    ++ ["@interface " ++ className ++ " : " ++ config.superclass ++ " <" ++ p.name ++ ">"]
    ++ p.plan.flatMap (·.headerLines config.assumeNonnull)
    ++ ["", "@end"]
    ++ (if config.assumeNonnull then ["", "NS_ASSUME_NONNULL_END"] else [])

/-- The lines of the implementation of a fake. -/
def implementationLines (p : Protocol) (className : String) : List String :=
  ["#import \"" ++ className ++ ".h\"", "", "@implementation " ++ className]
    ++ p.plan.flatMap (·.implementationLines)
    ++ ["", "@end"]

/-- The fake of a protocol that is declared in the header file `protocolHeader`. -/
def FakeConfig.generate (config : FakeConfig) (p : Protocol) (protocolHeader : String) : Fake :=
  let className := config.classPrefix ++ p.name
  { className
    header := Text.ofLines (headerLines config p className protocolHeader)
    implementation := Text.ofLines (implementationLines p className) }

end ProtocolFakes
