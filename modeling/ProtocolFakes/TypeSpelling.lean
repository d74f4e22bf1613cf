import ProtocolFakes.Text.Blank
import ProtocolFakes.Text.Search

/-!
# Type spellings and storage

A type is known by its spelling, such as `NSString *` or `void (^)(BOOL)`.  From
the spelling follow how a property of the type is stored, which expression
stands for nothing of the type, and where a name goes when a variable of the
type is declared.

Nullability annotations and `__kindof` say nothing about storage.  They are
dropped word by word first; an annotation glued to a star leaves the star.
-/

namespace ProtocolFakes

set_option autoImplicit false

/-! ## Annotations -/

/-- The words that say nothing about storage. -/
def annotations : List String :=
  ["nullable", "nonnull", "null_unspecified", "_Nullable", "_Nonnull", "_Null_unspecified",
   "__nullable", "__nonnull", "__kindof"]

/-- Whether a word is an annotation. -/
def isAnnotation (word : List Char) : Bool := annotations.any (·.toList == word)

/-- What is left of a word: a star without the annotation glued to it, nothing
of an annotation, and any other word as it is. -/
def stripWord? (word : List Char) : Option (List Char) :=
  match word with
  | '*' :: rest => if isAnnotation rest then some ['*'] else some word
  | _ => if isAnnotation word then none else some word

/-- A spelling without annotations, its words one space apart. -/
def stripAnnotations (spelling : List Char) : List Char :=
  [' '].intercalate ((Text.words spelling).filterMap stripWord?)

/-- The spelling with which a property is declared.  `instancetype` is a return
type only, so a property has `id` instead. -/
def propertySpelling (spelling : List Char) : List Char :=
  let stripped := stripAnnotations spelling
  if stripped = "instancetype".toList then "id".toList else stripped

/-! ## Storage -/

/-- How a value of a type is stored. -/
inductive StorageClass where
  /-- There is no value. -/
  | void
  /-- A reference to an object. -/
  | object
  /-- A block, which is copied. -/
  | block
  /-- Anything else: numbers, structures, plain pointers. -/
  | scalar
  deriving DecidableEq, Repr, Inhabited

/-- The character of an ordinary word of a type. -/
def isWordChar (c : Char) : Bool := c.isAlphanum || c == '_'

/-- The stars at the end of a spelling, blanks between them left out. -/
def pointerDepth (spelling : List Char) : Nat :=
  (spelling.reverse.takeWhile fun c => c == '*' || Text.isBlank c).countP (· == '*')

/-- Whether a word is the name of a class: it begins with a capital and is
neither a name of Core Graphics or Core Foundation nor one of three scalars. -/
def isClassName (word : List Char) : Bool :=
  (match word with
    | c :: _ => c.isUpper
    | [] => false)
    && !"CG".toList.isPrefixOf word && !"CF".toList.isPrefixOf word
    && !(["BOOL", "SEL", "IMP"].any (·.toList == word))

/-- Whether a spelling is that of an untyped object or of a class object. -/
def isUntypedObject (spelling : List Char) : Bool :=
  ["id", "instancetype", "Class"].any (·.toList == spelling)
    || "id<".toList.isPrefixOf spelling || "id <".toList.isPrefixOf spelling

/-- The spelling that decides on storage: without annotations and without the
constness in front. -/
def storageSpelling (spelling : List Char) : List Char :=
  Text.trim (Text.dropRepeatedPrefix "const ".toList (stripAnnotations spelling))

/-- How a value of a type is stored. -/
def storageClass (spelling : List Char) : StorageClass :=
  let base := storageSpelling spelling
  if base = "void".toList then .void
  else if Text.containsPattern "(^".toList base then .block
  else if isUntypedObject base then .object
  else if pointerDepth base = 1 ∧ isClassName (base.takeWhile isWordChar) = true then .object
  else .scalar

/-! ## Nothing of a type -/

/-- The numeric types whose nothing is written as a plain zero. -/
def numericTypes : List String :=
  ["NSInteger", "NSUInteger", "CGFloat", "NSTimeInterval", "double", "float", "int", "unsigned",
   "long", "short", "char", "size_t", "int8_t", "int16_t", "int32_t", "int64_t", "uint8_t",
   "uint16_t", "uint32_t", "uint64_t"]

/-- The expression for nothing of a type, if the type has values. -/
def zeroValue? (spelling : List Char) : Option (List Char) :=
  let declared := propertySpelling spelling
  match storageClass spelling with
  | .void => none
  | .object | .block => some "nil".toList
  | .scalar =>
      if declared = "BOOL".toList then some "NO".toList
      else if numericTypes.any (·.toList == declared) || declared.getLast? == some '*' then
        some "0".toList
      else some ('(' :: declared ++ ")\x7b0\x7d".toList)

/-! ## Declaring a name -/

/-- A type with a name: the name goes behind the caret of a block and its
qualifiers, right behind a final star, and a space behind anything else. -/
def declarator (spelling name : List Char) : List Char :=
  let plain := if spelling.getLast? = some '*' then spelling ++ name else spelling ++ ' ' :: name
  match Text.splitAtFirst? "(^".toList spelling with
  | none => plain
  | some (before, after) =>
      match Text.splitAtFirst? [')'] after with
      | none => plain
      | some (qualifiers, rest) =>
          let qualifiers := Text.trim qualifiers
          let inner := if qualifiers.isEmpty then name else qualifiers ++ ' ' :: name
          before ++ "(^".toList ++ inner ++ ')' :: rest

end ProtocolFakes
