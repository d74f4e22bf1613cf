import ProtocolFakes.SourceRange

/-!
# Reading numbers from arguments

Line numbers and component indices are written in decimal digits, behind an
optional plus sign, and are at most the largest offset.  A text that is no such
number says why: it is empty, it holds something that is no digit, or the number
is too large.  The first character that decides wins.
-/

namespace ProtocolFakes

set_option autoImplicit false

/-- Why a text is no number. -/
inductive NumberError where
  | empty
  | invalidDigit
  | tooLarge
  deriving DecidableEq, Repr

/-- What a refusal says. -/
def NumberError.message : NumberError → String
  | empty => "cannot parse integer from empty string"
  | invalidDigit => "invalid digit found in string"
  | tooLarge => "number too large to fit in target type"

/-- The number that digits spell behind the digits of `value`. -/
def readDecimalFrom (value : Nat) : List Char → Except NumberError Nat
  | [] => .ok value
  | c :: cs =>
      if c.isDigit then
        let next := value * 10 + (c.toNat - '0'.toNat)
        if next ≤ maxOffset then readDecimalFrom next cs else .error .tooLarge
      else .error .invalidDigit

/-- The number that a text spells. -/
def readNatural (text : List Char) : Except NumberError Nat :=
  match text with
  | [] => .error .empty
  | ['+'] => .error .invalidDigit
  | '+' :: cs => readDecimalFrom 0 cs
  | cs => readDecimalFrom 0 cs

end ProtocolFakes
