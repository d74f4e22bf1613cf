import ProtocolFakes.SourceRange

/-!
# JSON values

A value as it stands in a JSON text.  Objects keep their members in order and
keep repeated names, because a reader of records has to notice them.  A number
is either a natural number in plain digits or some other spelling, which no
record of this library can hold.

A JSON string may spell code units that make up no text, a lone half of a
surrogate pair.  Such a string can be skipped but not read: it is `none`.
-/

namespace ProtocolFakes

set_option autoImplicit false

/-- A number in a JSON text. -/
inductive JsonNumber where
  /-- Plain digits without a sign. -/
  | natural (value : Nat)
  /-- Any other spelling of a number. -/
  | other (spelling : String)
  deriving DecidableEq, Repr, Inhabited

/-- A JSON value. -/
inductive Json where
  | null
  | bool (value : Bool)
  | number (value : JsonNumber)
  | string (value : Option String)
  | array (items : List Json)
  | object (members : List (Option String × Json))
  deriving Inhabited, Repr

namespace Json

/-! ## Making values -/

/-- The string value of a text. -/
def text (s : String) : Json := string (some s)

/-- The number value of a natural number. -/
def nat (n : Nat) : Json := number (.natural n)

/-- The object with the given members. -/
def record (members : List (String × Json)) : Json :=
  object (members.map fun (name, value) => (some name, value))

/-- The array of texts. -/
def texts (ss : List String) : Json := array (ss.map text)

/-! ## Reading values -/

/-- The text of a string value. -/
def text? : Json → Option String
  | string s => s
  | _ => none

/-- The truth value of a literal. -/
def bool? : Json → Option Bool
  | bool b => some b
  | _ => none

/-- The number of a number value, if it is a 64-bit one in plain digits. -/
def offset? : Json → Option Nat
  | number (.natural n) => if n ≤ maxOffset then some n else none
  | _ => none

/-- The items of an array. -/
def items? : Json → Option (List Json)
  | array items => some items
  | _ => none

/-- The values of an array, if each of its items reads. -/
def listOf? {α : Type} (read : Json → Option α) (v : Json) : Option (List α) := do
  let items ← v.items?
  items.mapM read

/-- The texts of an array of texts. -/
def texts? : Json → Option (List String) := listOf? text?

/-- The values of the given fields of a record.  A record is written as an
object, whose members of other names are ignored and in which no field may
stand twice, or as an array of its fields in order, of which the last may be
missing. -/
def fields? (names : List String) : Json → Option (List (Option Json))
  | object members =>
      if members.all (·.1.isSome) then
        names.mapM fun name =>
          match members.filter (·.1 = some name) with
          | [] => some none
          | [(_, value)] => some (some value)
          | _ => none
      else none
  | array items =>
      if items.length ≤ names.length then
        some (items.map some ++ List.replicate (names.length - items.length) none)
      else none
  | _ => none

/-- A field that has to be there. -/
def required? {α : Type} (read : Json → Option α) (field : Option Json) : Option α :=
  field.bind read

/-- A field that may be left out. -/
def optional? {α : Type} (fallback : α) (read : Json → Option α) : Option Json → Option α
  | none => some fallback
  | some value => read value

end Json

end ProtocolFakes
