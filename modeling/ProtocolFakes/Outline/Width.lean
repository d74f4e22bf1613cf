import ProtocolFakes.Token

/-!
# The widths of comments, literals and words

How many characters an item takes at the head of a text, or behind its opening
mark.  A text is cut by taking that many characters, so no cut loses anything,
whatever the widths are.

A backslash at the end of a line joins it to the next line.  Between two tokens
it counts as a blank, and it lets a line comment go on.
-/

namespace ProtocolFakes

set_option autoImplicit false

/-! ## Comments and blanks -/

/-- A line comment behind its opening mark: up to the end of a line that is not
joined to the next. -/
def lineCommentWidth : List Char → Nat
  | [] => 0
  | '\\' :: '\n' :: cs => 2 + lineCommentWidth cs
  | '\\' :: '\r' :: '\n' :: cs => 3 + lineCommentWidth cs
  | '\n' :: _ => 0
  | _ :: cs => 1 + lineCommentWidth cs

/-- A block comment behind its opening mark: up to and with its closing mark, if
it has one. -/
def blockCommentWidth? : List Char → Option Nat
  | [] => none
  | '*' :: '/' :: _ => some 2
  | _ :: cs => (blockCommentWidth? cs).map (1 + ·)

/-- A blank of code, which is a blank of ASCII. -/
def isCodeBlank (c : Char) : Bool := c == ' ' || ('\t' ≤ c && c ≤ '\r')

/-- What separates two tokens: a blank, a joint of two lines or a closed
comment.  The width is zero where none begins. -/
def separatorWidth : List Char → Nat
  | '\\' :: '\n' :: _ => 2
  | '\\' :: '\r' :: '\n' :: _ => 3
  | '/' :: '/' :: cs => 2 + lineCommentWidth cs
  | '/' :: '*' :: cs => ((blockCommentWidth? cs).map (2 + ·)).getD 0
  | c :: _ => if isCodeBlank c then 1 else 0
  | [] => 0

/-- All separators at the head of a text. -/
def separatorsWidth (cs : List Char) : Nat :=
  if _h : separatorWidth cs = 0 ∨ cs = [] then 0
  else separatorWidth cs + separatorsWidth (cs.drop (separatorWidth cs))
termination_by cs.length
decreasing_by
  have := List.length_pos_iff.2 (not_or.1 _h).2
  have := (not_or.1 _h).1
  simp only [List.length_drop]
  omega

/-! ## Literals and words -/

/-- A literal behind its opening quote: up to and with the closing quote, or up
to the end of the line.  A backslash takes the next character with it. -/
def quotedWidth (quote : Char) : List Char → Nat
  | [] => 0
  | ['\\'] => 1
  | '\\' :: _ :: cs => 2 + quotedWidth quote cs
  | c :: cs => if c = quote then 1 else if c = '\n' then 0 else 1 + quotedWidth quote cs

/-- A character of a word: of an identifier, or beyond ASCII. -/
def isOutlineWordChar (c : Char) : Bool := isIdentContinue c || 0x80 ≤ c.toNat

/-- A hexadecimal digit. -/
def isHexDigit (c : Char) : Bool :=
  c.isDigit || ('a' ≤ c && c ≤ 'f') || ('A' ≤ c && c ≤ 'F')

/-- A word or a number.  A word may spell a character by a backslash, the letter
`u` or `U` and its code; a number may hold a single quote between two digits. -/
def wordWidth (number : Bool) : List Char → Nat
  | [] => 0
  | '\\' :: c :: cs => if c = 'u' ∨ c = 'U' then 2 + wordWidth number cs else 0
  | '\'' :: c :: cs => if number ∧ isHexDigit c then 2 + wordWidth number cs else 0
  | c :: cs => if isOutlineWordChar c then 1 + wordWidth number cs else 0

end ProtocolFakes
