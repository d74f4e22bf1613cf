import ProtocolFakes.Json

/-!
# Configuration

A configuration has two sections: how the fake class is written, and where its
files go.  Every field has a default, so a configuration file names only what
differs.  `Config.validate` refuses names that could not stand in a source file.
-/

namespace ProtocolFakes

set_option autoImplicit false

/-! ## Sections -/

/-- How a fake class is written. -/
@[ext] structure FakeConfig where
  /-- Stands before the protocol's name in the name of the class. -/
  classPrefix : String := "Fake"
  superclass : String := "NSObject"
  /-- Whether the header is declared free of null by default. -/
  assumeNonnull : Bool := true
  /-- Further imports of the header, each with its quotes or brackets. -/
  extraImports : List String := []
  deriving DecidableEq, Inhabited

/-- Where the files of a fake go. -/
@[ext] structure OutputConfig where
  /-- Relative to the directory of the document, unless absolute. -/
  directory : String := "fakes"
  /-- Whether files that exist are replaced. -/
  overwrite : Bool := false
  deriving DecidableEq, Inhabited

/-- A configuration. -/
@[ext] structure Config where
  fake : FakeConfig := {}
  output : OutputConfig := {}
  deriving DecidableEq, Inhabited

/-! ## Validation -/

/-- Why a configuration is refused. -/
inductive ConfigError where
  /-- The text is not a configuration at all. -/
  | unreadable
  | invalidClassPrefix (word : String)
  | invalidSuperclass (word : String)
  | invalidImport (target : String)
  | emptyDirectory
  deriving DecidableEq

/-- What a refusal says. -/
def ConfigError.message : ConfigError → String
  | unreadable => "Failed to parse config"
  | invalidClassPrefix word => "fake.class_prefix `" ++ word ++ "` is not a valid identifier"
  | invalidSuperclass word => "fake.superclass `" ++ word ++ "` is not a valid identifier"
  | invalidImport target =>
      "fake.extra_imports entry `" ++ target
        ++ "` must look like <Module/Header.h> or \"Header.h\""
  | emptyDirectory => "output.directory must not be empty"

/-- Whether a word may name a class: a letter or underscore, then letters,
digits and underscores, all of them ASCII. -/
def isClassWord : List Char → Bool
  | [] => false
  | c :: cs => (c.isAlpha || c == '_') && cs.all fun c => c.isAlphanum || c == '_'

/-- Whether a text is a file name in quotes or angle brackets. -/
def isImportTarget (target : List Char) : Bool :=
  2 < target.length
    && ((target.head? == some '"' && target.getLast? == some '"')
      || (target.head? == some '<' && target.getLast? == some '>'))

namespace Config

/-- The first reason why a configuration is refused. -/
def firstDefect? (config : Config) : Option ConfigError :=
  let fake := config.fake
  if !fake.classPrefix.isEmpty && !isClassWord fake.classPrefix.toList then
    some (.invalidClassPrefix fake.classPrefix)
  else if !isClassWord fake.superclass.toList then some (.invalidSuperclass fake.superclass)
  else
    match fake.extraImports.find? (!isImportTarget ·.toList) with
    | some target => some (.invalidImport target)
    | none => if config.output.directory.isEmpty then some .emptyDirectory else none

/-- Refuses a configuration that has a defect. -/
def validate (config : Config) : Except ConfigError Unit :=
  match config.firstDefect? with
  | some defect => .error defect
  | none => .ok ()

end Config

end ProtocolFakes
