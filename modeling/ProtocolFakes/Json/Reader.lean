import ProtocolFakes.Json

/-!
# Reading JSON texts

The strict grammar of JSON: one value between blanks, no comments, no trailing
commas, no leading zeros, no raw control characters in strings and nothing
behind the value.

Every reader answers what it read and the characters that are left.  Values nest,
so their reader is bounded by the number of characters: each level takes at
least one.
-/

namespace ProtocolFakes.Json

set_option autoImplicit false

/-! ## Blanks and literals -/

/-- A character that may stand between the parts of a value. -/
def isSpace (c : Char) : Bool := c == ' ' || c == '\t' || c == '\n' || c == '\r'

/-- The text behind the blanks at its beginning. -/
def skipSpaces (cs : List Char) : List Char := cs.dropWhile isSpace

/-- The text behind a literal. -/
def skipLiteral? : List Char → List Char → Option (List Char)
  | [], cs => some cs
  | _ :: _, [] => none
  | l :: ls, c :: cs => if l = c then skipLiteral? ls cs else none

/-! ## Strings -/

/-- One unit of a string: a character, or half of a surrogate pair. -/
inductive StringUnit where
  | char (c : Char)
  | surrogate (code : Nat)
  deriving DecidableEq, Repr

/-- The value of a hexadecimal digit. -/
def hexDigit? (c : Char) : Option Nat :=
  if c.isDigit then some (c.toNat - '0'.toNat)
  else if 'a' ≤ c ∧ c ≤ 'f' then some (c.toNat - 'a'.toNat + 10)
  else if 'A' ≤ c ∧ c ≤ 'F' then some (c.toNat - 'A'.toNat + 10)
  else none

/-- The number that four hexadecimal digits spell. -/
def hex4? (a b c d : Char) : Option Nat := do
  let a ← hexDigit? a
  let b ← hexDigit? b
  let c ← hexDigit? c
  let d ← hexDigit? d
  pure (((a * 16 + b) * 16 + c) * 16 + d)

/-- The unit with a code. -/
def unitOfCode (code : Nat) : StringUnit :=
  if 0xD800 ≤ code ∧ code ≤ 0xDFFF then .surrogate code else .char (Char.ofNat code)

/-- The character that a backslash and a letter spell. -/
def escaped? : Char → Option Char
  | '"' => some '"'
  | '\\' => some '\\'
  | '/' => some '/'
  | 'b' => some '\x08'
  | 'f' => some '\x0C'
  | 'n' => some '\n'
  | 'r' => some '\r'
  | 't' => some '\t'
  | _ => none

/-- The units of a string behind its opening quote, and what is left behind the
closing one. -/
def readUnits : List Char → Option (List StringUnit × List Char)
  | [] => none
  | '"' :: cs => some ([], cs)
  | '\\' :: 'u' :: a :: b :: c :: d :: cs => do
      let code ← hex4? a b c d
      let (units, rest) ← readUnits cs
      pure (unitOfCode code :: units, rest)
  | '\\' :: e :: cs => do
      let c ← escaped? e
      let (units, rest) ← readUnits cs
      pure (.char c :: units, rest)
  | c :: cs =>
      if c = '\\' ∨ c.toNat < 0x20 then none
      else do
        let (units, rest) ← readUnits cs
        pure (.char c :: units, rest)

/-- The digits of its code stand for a unit. -/
theorem readUnits_code {a b c d : Char} {code : Nat} (digits : hex4? a b c d = some code)
    (cs : List Char) :
    readUnits ('\\' :: 'u' :: a :: b :: c :: d :: cs) =
      (readUnits cs).map fun (units, rest) => (unitOfCode code :: units, rest) := by
  change (hex4? a b c d).bind _ = _
  rw [digits]
  cases readUnits cs <;> rfl

/-- A letter behind a backslash stands for a character. -/
theorem readUnits_escaped {e c : Char} (spells : escaped? e = some c) (cs : List Char) :
    readUnits ('\\' :: e :: cs) =
      (readUnits cs).map fun (units, rest) => (.char c :: units, rest) := by
  have notUnicode : e ≠ 'u' := by
    rintro rfl
    cases spells
  rw [readUnits, spells]
  · cases readUnits cs <;> rfl
  · exact fun _ _ _ _ _ unicode => absurd unicode notUnicode

/-- A character that needs no backslash stands for itself. -/
theorem readUnits_graphic {c : Char} (notQuote : c ≠ '"') (notBackslash : c ≠ '\\')
    (graphic : 0x20 ≤ c.toNat) (cs : List Char) :
    readUnits (c :: cs) =
      (readUnits cs).map fun (units, rest) => (.char c :: units, rest) := by
  have notControl : ¬ (c = '\\' ∨ c.toNat < 0x20) := by
    rintro (backslash | control)
    · exact notBackslash backslash
    · omega
  rw [readUnits, if_neg notControl]
  · cases readUnits cs <;> rfl
  · exact notQuote
  · exact fun _ _ _ _ _ backslash => absurd backslash notBackslash
  · exact fun _ _ backslash => absurd backslash notBackslash

/-- The text that units make up, where the halves of each pair stand together. -/
def joinUnits : List StringUnit → Option (List Char)
  | [] => some []
  | .char c :: us => (joinUnits us).map (c :: ·)
  | .surrogate high :: .surrogate low :: us =>
      if high ≤ 0xDBFF ∧ 0xDC00 ≤ low then
        (joinUnits us).map (Char.ofNat (0x10000 + (high - 0xD800) * 0x400 + (low - 0xDC00)) :: ·)
      else none
  | .surrogate _ :: _ => none

/-- A string behind its opening quote, and what is left. -/
def readString (cs : List Char) : Option (Option String × List Char) := do
  let (units, rest) ← readUnits cs
  pure ((joinUnits units).map String.ofList, rest)

/-! ## Numbers -/

/-- The digits at the beginning of a text, at least one, and what is left. -/
def readDigits (cs : List Char) : Option (List Char × List Char) :=
  match cs.takeWhile Char.isDigit with
  | [] => none
  | digits => some (digits, cs.dropWhile Char.isDigit)

/-- The whole part of a number: digits that do not begin with a needless zero. -/
def readWhole (cs : List Char) : Option (List Char × List Char) := do
  let (digits, rest) ← readDigits cs
  match digits with
  | '0' :: _ :: _ => none
  | _ => pure (digits, rest)

/-- The fraction of a number, if it has one. -/
def readFraction : List Char → Option (List Char × List Char)
  | '.' :: cs => (readDigits cs).map fun (digits, rest) => ('.' :: digits, rest)
  | cs => some ([], cs)

/-- The exponent of a number, if it has one. -/
def readExponent : List Char → Option (List Char × List Char)
  | c :: cs =>
      if c = 'e' ∨ c = 'E' then
        match cs with
        | s :: ds =>
            if s = '+' ∨ s = '-' then
              (readDigits ds).map fun (digits, rest) => (c :: s :: digits, rest)
            else (readDigits cs).map fun (digits, rest) => (c :: digits, rest)
        | [] => none
      else some ([], c :: cs)
  | [] => some ([], [])

/-- The number that decimal digits spell. -/
def decimalValue (digits : List Char) : Nat :=
  digits.foldl (fun n d => n * 10 + (d.toNat - '0'.toNat)) 0

/-- A number and what is left. -/
def readNumber (cs : List Char) : Option (JsonNumber × List Char) := do
  let (sign, cs) := match cs with
    | '-' :: cs => (['-'], cs)
    | cs => ([], cs)
  let (whole, cs) ← readWhole cs
  let (fraction, cs) ← readFraction cs
  let (exponent, cs) ← readExponent cs
  if sign.isEmpty && fraction.isEmpty && exponent.isEmpty then
    pure (.natural (decimalValue whole), cs)
  else pure (.other (String.ofList (sign ++ whole ++ fraction ++ exponent)), cs)

/-! ## Values -/

mutual

/-- A value that begins the text, nested at most `depth` deep, and what is left. -/
def readValue : Nat → List Char → Option (Json × List Char)
  | 0, _ => none
  | depth + 1, cs =>
      match cs with
      | 'n' :: _ => (skipLiteral? "null".toList cs).map fun rest => (.null, rest)
      | 't' :: _ => (skipLiteral? "true".toList cs).map fun rest => (.bool true, rest)
      | 'f' :: _ => (skipLiteral? "false".toList cs).map fun rest => (.bool false, rest)
      | '"' :: cs => (readString cs).map fun (s, rest) => (.string s, rest)
      | '[' :: cs =>
          match skipSpaces cs with
          | ']' :: rest => some (.array [], rest)
          | cs => (readItems depth cs).map fun (items, rest) => (.array items, rest)
      | '\x7b' :: cs =>
          match skipSpaces cs with
          | '\x7d' :: rest => some (.object [], rest)
          | cs => (readMembers depth cs).map fun (members, rest) => (.object members, rest)
      | cs => (readNumber cs).map fun (n, rest) => (.number n, rest)

/-- The items of an array from one of them on, up to the closing bracket. -/
def readItems : Nat → List Char → Option (List Json × List Char)
  | 0, _ => none
  | depth + 1, cs => do
      let (item, cs) ← readValue depth cs
      match skipSpaces cs with
      | ']' :: rest => pure ([item], rest)
      | ',' :: cs =>
          let (items, rest) ← readItems depth (skipSpaces cs)
          pure (item :: items, rest)
      | _ => none

/-- The members of an object from one of them on, up to the closing brace. -/
def readMembers : Nat → List Char → Option (List (Option String × Json) × List Char)
  | 0, _ => none
  | depth + 1, cs =>
      match cs with
      | '"' :: cs => do
          let (name, cs) ← readString cs
          match skipSpaces cs with
          | ':' :: cs =>
              let (value, cs) ← readValue depth (skipSpaces cs)
              match skipSpaces cs with
              | '\x7d' :: rest => pure ([(name, value)], rest)
              | ',' :: cs =>
                  let (members, rest) ← readMembers depth (skipSpaces cs)
                  pure ((name, value) :: members, rest)
              | _ => none
          | _ => none
      | _ => none

end

/-! ### Equations -/

section Equations

variable (depth : Nat) (cs : List Char)

theorem readValue_quote : readValue (depth + 1) ('"' :: cs) =
    (readString cs).map fun (s, rest) => (.string s, rest) := rfl

theorem readValue_array : readValue (depth + 1) ('[' :: cs) =
    match skipSpaces cs with
    | ']' :: rest => some (.array [], rest)
    | cs => (readItems depth cs).map fun (items, rest) => (.array items, rest) := rfl

theorem readValue_object : readValue (depth + 1) ('\x7b' :: cs) =
    match skipSpaces cs with
    | '\x7d' :: rest => some (.object [], rest)
    | cs => (readMembers depth cs).map fun (members, rest) => (.object members, rest) := rfl

/-- What begins like no other value is read as a number. -/
theorem readValue_number {c : Char} (other : c ∉ ['n', 't', 'f', '"', '[', '\x7b']) :
    readValue (depth + 1) (c :: cs) =
      (readNumber (c :: cs)).map fun (n, rest) => (.number n, rest) := by
  rw [readValue]
  all_goals
    rintro _ first
    exact other (by simp [(List.cons.inj first).1])

theorem readItems_succ : readItems (depth + 1) cs =
    (readValue depth cs).bind fun (item, cs) =>
      match skipSpaces cs with
      | ']' :: rest => some ([item], rest)
      | ',' :: cs =>
          (readItems depth (skipSpaces cs)).bind fun (items, rest) => some (item :: items, rest)
      | _ => none := rfl

theorem readMembers_quote : readMembers (depth + 1) ('"' :: cs) =
    (readString cs).bind fun (name, cs) =>
      match skipSpaces cs with
      | ':' :: cs =>
          (readValue depth (skipSpaces cs)).bind fun (value, cs) =>
            match skipSpaces cs with
            | '\x7d' :: rest => some ([(name, value)], rest)
            | ',' :: cs =>
                (readMembers depth (skipSpaces cs)).bind fun (members, rest) =>
                  some ((name, value) :: members, rest)
            | _ => none
      | _ => none := rfl

end Equations

/-- The value that a text spells. -/
def read? (source : String) : Option Json := do
  let cs := source.toList
  let (value, rest) ← readValue (2 * cs.length + 2) (skipSpaces cs)
  match skipSpaces rest with
  | [] => pure value
  | _ => none

end ProtocolFakes.Json
