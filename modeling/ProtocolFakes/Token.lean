import ProtocolFakes.SourceRange

/-!
# Tokens of Objective-C declarations

Declarations are read from six lexical classes; everything else in a source is a
gap.  A token keeps its text and the range where it stands, so any stretch of
tokens can be spelled again: tokens that touch stay glued, and a gap of any size
becomes one space.
-/

namespace ProtocolFakes

set_option autoImplicit false

/-! ## Character classes -/

/-- A letter that may begin an identifier. -/
def isIdentStart (c : Char) : Bool := c.isAlpha || c == '_' || c == '$'

/-- A character that may continue an identifier. -/
def isIdentContinue (c : Char) : Bool := c.isAlphanum || c == '_' || c == '$'

/-- A character that may continue a number. -/
def isNumberContinue (c : Char) : Bool := c.isAlphanum || c == '.'

/-- A word that reads as one identifier: an identifier letter, then letters,
digits, underscores and dollar signs, all of them ASCII. -/
def isIdentifierWord : List Char → Bool
  | [] => false
  | c :: cs => isIdentStart c && cs.all isIdentContinue

/-! ## Tokens -/

/-- The lexical class of a token. -/
inductive TokenKind where
  /-- A letter, underscore or dollar sign, then any of these and digits. -/
  | identifier
  /-- An identifier behind an at sign, such as `@end`. -/
  | atKeyword
  /-- A digit, then letters, digits and points. -/
  | number
  /-- A quoted text, with or without a leading at sign. -/
  | stringLiteral
  /-- Three points. -/
  | ellipsis
  /-- Any other single character. -/
  | punct
  deriving DecidableEq, Repr, Inhabited

/-- A lexical unit: its class, its text and where it stands. -/
@[ext] structure Token where
  kind : TokenKind
  text : String
  range : SourceRange
  deriving DecidableEq, Inhabited

namespace Token

/-- The punctuation token of one character at an offset. -/
def punctAt (c : Char) (location : Nat) : Token :=
  ⟨.punct, c.toString, .clamped location c.utf8Size⟩

/-- The identifier token of a word at an offset. -/
def identifierAt (word : String) (location : Nat) : Token :=
  ⟨.identifier, word, .clamped location (Text.byteLength word.toList)⟩

/-- Whether the token is an identifier. -/
def isIdentifier (t : Token) : Bool := t.kind == .identifier

/-- Whether the token is the given punctuation character. -/
def isPunct (c : Char) (t : Token) : Bool := t.kind == .punct && t.text.toList == [c]

/-- Whether the token is the given keyword behind an at sign. -/
def isAtKeyword (keyword : String) (t : Token) : Bool := t.kind == .atKeyword && t.text == keyword

/-! ## Spelling -/

/-- The spelling of tokens that follow a token ending at offset `stop`. -/
def spellAfter (stop : Nat) : List Token → List Char
  | [] => []
  | t :: ts =>
      (if stop < t.range.location then [' '] else []) ++ t.text.toList ++ spellAfter t.range.stop ts

theorem spellAfter_cons (stop : Nat) (t : Token) (ts : List Token) :
    spellAfter stop (t :: ts) =
      (if stop < t.range.location then [' '] else []) ++ t.text.toList ++
        spellAfter t.range.stop ts := rfl

/-- The tokens written out again: touching tokens glued, every gap one space. -/
def spell : List Token → String
  | [] => ""
  | t :: ts => String.ofList (t.text.toList ++ spellAfter t.range.stop ts)

theorem spell_cons (t : Token) (ts : List Token) :
    spell (t :: ts) = String.ofList (t.text.toList ++ spellAfter t.range.stop ts) := rfl

end Token

end ProtocolFakes
