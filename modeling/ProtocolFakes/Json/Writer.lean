import ProtocolFakes.Json

/-!
# Writing JSON texts

Two layouts of a value: `compact` without any blanks, and `pretty` with one item
or member a line, indented by two spaces per level.  An empty array or object is
closed on the spot in both.  Characters outside ASCII stand as they are; quotes,
backslashes and control characters are escaped.
-/

namespace ProtocolFakes.Json

set_option autoImplicit false

/-! ## Strings -/

/-- The hexadecimal digit of a number below sixteen. -/
def hexChar (n : Nat) : Char :=
  if n < 10 then Char.ofNat ('0'.toNat + n) else Char.ofNat ('a'.toNat + (n - 10))

/-- A character as it stands in a JSON string. -/
def escapeChar (c : Char) : List Char :=
  if c = '"' then ['\\', '"']
  else if c = '\\' then ['\\', '\\']
  else if c = '\x08' then ['\\', 'b']
  else if c = '\x0C' then ['\\', 'f']
  else if c = '\n' then ['\\', 'n']
  else if c = '\r' then ['\\', 'r']
  else if c = '\t' then ['\\', 't']
  else if c.toNat < 0x20 then
    ['\\', 'u', '0', '0', hexChar (c.toNat / 16), hexChar (c.toNat % 16)]
  else [c]

/-- A text as a JSON string with its quotes. -/
def quote (cs : List Char) : List Char := '"' :: cs.flatMap escapeChar ++ ['"']

/-- A string value.  What is no text is written as the empty text. -/
def writeString (s : Option String) : List Char := quote (s.getD "").toList

/-- A number in its own spelling. -/
def writeNumber : JsonNumber → List Char
  | .natural n => (toString n).toList
  | .other spelling => spelling.toList

/-! ## Compact layout -/

mutual

/-- A value without blanks. -/
def writeCompact : Json → List Char
  | .null => "null".toList
  | .bool b => (if b then "true" else "false").toList
  | .number n => writeNumber n
  | .string s => writeString s
  | .array items => '[' :: writeCompactItems items ++ [']']
  | .object members => '\x7b' :: writeCompactMembers members ++ ['\x7d']

/-- Items with commas between them. -/
def writeCompactItems : List Json → List Char
  | [] => []
  | [v] => writeCompact v
  | v :: vs => writeCompact v ++ ',' :: writeCompactItems vs

/-- Members with commas between them. -/
def writeCompactMembers : List (Option String × Json) → List Char
  | [] => []
  | [(name, v)] => writeString name ++ ':' :: writeCompact v
  | (name, v) :: ms => writeString name ++ ':' :: writeCompact v ++ ',' :: writeCompactMembers ms

end

theorem writeCompactItems_cons (v w : Json) (vs : List Json) :
    writeCompactItems (v :: w :: vs) = writeCompact v ++ ',' :: writeCompactItems (w :: vs) := rfl

theorem writeCompactMembers_cons (name : Option String) (v : Json) (m : Option String × Json)
    (ms : List (Option String × Json)) :
    writeCompactMembers ((name, v) :: m :: ms) =
      writeString name ++ ':' :: writeCompact v ++ ',' :: writeCompactMembers (m :: ms) := rfl

/-! ## Pretty layout -/

/-- A new line indented by a number of levels. -/
def newLine (level : Nat) : List Char := '\n' :: List.replicate (2 * level) ' '

mutual

/-- A value whose first line is already indented and whose other lines are
indented by `level`. -/
def writePretty (level : Nat) : Json → List Char
  | .null => "null".toList
  | .bool b => (if b then "true" else "false").toList
  | .number n => writeNumber n
  | .string s => writeString s
  | .array [] => ['[', ']']
  | .array (v :: vs) => '[' :: writePrettyItems (level + 1) (v :: vs) ++ newLine level ++ [']']
  | .object [] => ['\x7b', '\x7d']
  | .object (m :: ms) =>
      '\x7b' :: writePrettyMembers (level + 1) (m :: ms) ++ newLine level ++ ['\x7d']

/-- Items, each on a line of its own, with commas between them. -/
def writePrettyItems (level : Nat) : List Json → List Char
  | [] => []
  | [v] => newLine level ++ writePretty level v
  | v :: vs => newLine level ++ writePretty level v ++ ',' :: writePrettyItems level vs

/-- Members, each on a line of its own, with commas between them. -/
def writePrettyMembers (level : Nat) : List (Option String × Json) → List Char
  | [] => []
  | [(name, v)] => newLine level ++ writeString name ++ ':' :: ' ' :: writePretty level v
  | (name, v) :: ms =>
      newLine level ++ writeString name ++ ':' :: ' ' :: writePretty level v
        ++ ',' :: writePrettyMembers level ms

end

section Equations

variable (level : Nat)

theorem writePretty_array (v : Json) (vs : List Json) : writePretty level (.array (v :: vs)) =
    '[' :: writePrettyItems (level + 1) (v :: vs) ++ newLine level ++ [']'] := rfl

theorem writePretty_object (m : Option String × Json) (ms : List (Option String × Json)) :
    writePretty level (.object (m :: ms)) =
      '\x7b' :: writePrettyMembers (level + 1) (m :: ms) ++ newLine level ++ ['\x7d'] := rfl

theorem writePrettyItems_singleton (v : Json) :
    writePrettyItems level [v] = newLine level ++ writePretty level v := rfl

theorem writePrettyItems_cons (v w : Json) (vs : List Json) :
    writePrettyItems level (v :: w :: vs) =
      newLine level ++ writePretty level v ++ ',' :: writePrettyItems level (w :: vs) := rfl

theorem writePrettyMembers_singleton (name : Option String) (v : Json) :
    writePrettyMembers level [(name, v)] =
      newLine level ++ writeString name ++ ':' :: ' ' :: writePretty level v := rfl

theorem writePrettyMembers_cons (name : Option String) (v : Json) (m : Option String × Json)
    (ms : List (Option String × Json)) :
    writePrettyMembers level ((name, v) :: m :: ms) =
      newLine level ++ writeString name ++ ':' :: ' ' :: writePretty level v ++
        ',' :: writePrettyMembers level (m :: ms) := rfl

end Equations

/-- A value on one line. -/
def compact (v : Json) : String := String.ofList (writeCompact v)

/-- A value laid out over lines. -/
def pretty (v : Json) : String := String.ofList (writePretty 0 v)

end ProtocolFakes.Json
