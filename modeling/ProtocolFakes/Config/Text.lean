import ProtocolFakes.Config
import ProtocolFakes.Json.Reader
import ProtocolFakes.Json.Writer

/-!
# Configuration texts

A configuration is kept as a JSON record of its two sections, each a record of
its fields.  A field left out has its default; a member of another name is
ignored.  Reading also validates, so what is read can be used as it is.
-/

namespace ProtocolFakes

set_option autoImplicit false

/-! ## Sections as records -/

namespace FakeConfig

/-- The names of the fields, in order. -/
def fieldNames : List String := ["class_prefix", "superclass", "assume_nonnull", "extra_imports"]

/-- The record of a section. -/
def toJson (c : FakeConfig) : Json :=
  .record [("class_prefix", .text c.classPrefix), ("superclass", .text c.superclass),
    ("assume_nonnull", .bool c.assumeNonnull), ("extra_imports", .texts c.extraImports)]

/-- The section that a record holds. -/
def ofJson? (v : Json) : Option FakeConfig := do
  match ← v.fields? fieldNames with
  | [classPrefix, superclass, assumeNonnull, extraImports] =>
      let classPrefix ← Json.optional? "Fake" Json.text? classPrefix
      let superclass ← Json.optional? "NSObject" Json.text? superclass
      let assumeNonnull ← Json.optional? true Json.bool? assumeNonnull
      let extraImports ← Json.optional? [] Json.texts? extraImports
      pure { classPrefix, superclass, assumeNonnull, extraImports }
  | _ => none

end FakeConfig

namespace OutputConfig

/-- The names of the fields, in order. -/
def fieldNames : List String := ["directory", "overwrite"]

/-- The record of a section. -/
def toJson (c : OutputConfig) : Json :=
  .record [("directory", .text c.directory), ("overwrite", .bool c.overwrite)]

/-- The section that a record holds. -/
def ofJson? (v : Json) : Option OutputConfig := do
  match ← v.fields? fieldNames with
  | [directory, overwrite] =>
      let directory ← Json.optional? "fakes" Json.text? directory
      let overwrite ← Json.optional? false Json.bool? overwrite
      pure { directory, overwrite }
  | _ => none

end OutputConfig

/-! ## The whole configuration -/

namespace Config

/-- The names of the sections, in order. -/
def fieldNames : List String := ["fake", "output"]

/-- The record of a configuration. -/
def toJson (c : Config) : Json := .record [("fake", c.fake.toJson), ("output", c.output.toJson)]

/-- The configuration that a record holds. -/
def ofJson? (v : Json) : Option Config := do
  match ← v.fields? fieldNames with
  | [fake, output] =>
      let fake ← Json.optional? {} FakeConfig.ofJson? fake
      let output ← Json.optional? {} OutputConfig.ofJson? output
      pure { fake, output }
  | _ => none

/-- The text of a configuration file. -/
def toText (c : Config) : String := c.toJson.pretty

/-- The configuration that a text spells, if it is one and can be used. -/
def ofText (text : String) : Except ConfigError Config :=
  match (Json.read? text).bind ofJson? with
  | none => .error .unreadable
  | some config => config.validate.map fun _ => config

end Config

end ProtocolFakes
