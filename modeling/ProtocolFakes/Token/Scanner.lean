import ProtocolFakes.Text.Search
import ProtocolFakes.Token.Lexer

/-!
# The scanner, step by step

`tokenize` cuts a source character by character.  A scanner does the same with a byte
position that moves forward through the source.  It runs in four loops: one between
the pieces of the source, and inside it one along a word, one along a quoted text and
one along the lines of a preprocessor directive.

A `Scanner` is what is known at the head of one of these loops, and `step` is one
turn of that loop, up to the next head.  The source is looked at through slices and
single bytes alone.  A slice that begins or ends outside the source or inside a
character stops everything; the step that asks for it has no answer.
-/

namespace ProtocolFakes

set_option autoImplicit false

/-! ## States -/

/-- A loop of the scanner. -/
inductive Scanner.Loop where
  /-- Between two pieces. -/
  | between
  /-- Along a word, of a token that began at `start`. -/
  | word (kind : TokenKind) (start : Nat)
  /-- Along a quoted text, of a token that began at `start`. -/
  | quoted (start : Nat)
  /-- Along the lines of a preprocessor directive. -/
  | directive
  deriving DecidableEq

/-- The scanner at the head of a loop. -/
@[ext] structure Scanner where
  /-- How many bytes of the source are read. -/
  pos : Nat
  /-- Whether a preprocessor directive may begin. -/
  lineStart : Bool
  tokens : List Token
  loop : Scanner.Loop
  deriving DecidableEq

namespace Scanner

/-- What a turn of a loop leads to: the head of a loop, or the tokens of the source. -/
inductive Outcome where
  | goOn (next : Scanner)
  | finish (tokens : List Token)
  deriving DecidableEq

/-- The scanner in front of a source. -/
def initial : Scanner := ⟨0, true, [], .between⟩

/-! ## Looking at the source -/

/-- The slice of a source from an offset on. -/
def rest? (source : String) (offset : Nat) : Option (List Char) :=
  (Text.splitAtByte? offset source.toList).map (·.2)

/-- The byte of a source at an offset, if the source is that long. -/
def byteAt? (source : String) (offset : Nat) : Option UInt8 := source.toByteArray.data[offset]?

/-- Whether a text ends in a backslash, carriage returns behind it left out. -/
def endsInBackslash (text : List Char) : Bool :=
  (text.reverse.dropWhile (· = '\r')).head? == some '\\'

/-- Which characters continue a word of a class. -/
def continuesWord : TokenKind → Char → Bool
  | .number => isNumberContinue
  | _ => isIdentContinue

/-! ## Parts of a turn

Each goes from a state to a state, unless a slice has no answer. -/

variable (source : String) (base : Nat)

/-- Ends a token that began at `start`. -/
def emit (kind : TokenKind) (start : Nat) (s : Scanner) : Option Scanner := do
  let text ← Text.sliceBytes? start s.pos source.toList
  let range := (SourceRange.ofBounds start s.pos).shift base
  pure { s with tokens := s.tokens ++ [⟨kind, String.ofList text, range⟩], loop := .between }

/-- Goes to the next newline, or to the end of the source. -/
def skipLine (s : Scanner) : Option Scanner := do
  match Text.splitAtFirst? ['\n'] (← rest? source s.pos) with
  | some (line, _) => pure { s with pos := s.pos + Text.byteLength line }
  | none => pure { s with pos := source.utf8ByteSize }

/-- Goes behind the next closing mark of a comment, or to the end of the source. -/
def skipBlockComment (s : Scanner) : Option Scanner := do
  match Text.splitAtFirst? ['*', '/'] (← rest? source (s.pos + 2)) with
  | some (inside, _) => pure { s with pos := s.pos + (Text.byteLength inside + 4) }
  | none => pure { s with pos := source.utf8ByteSize }

/-- Begins the token that the character `c` at the position begins.  A token of fixed
length is ended at once. -/
def beginToken (c : Char) (s : Scanner) : Option Scanner :=
  if isIdentStart c then some { s with loop := .word .identifier s.pos }
  else if c.isDigit then some { s with loop := .word .number s.pos }
  else if c = '"' then some { s with pos := s.pos + 1, loop := .quoted s.pos }
  else if c = '@' ∧ byteAt? source (s.pos + 1) = some '"'.toUInt8 then
    some { s with pos := s.pos + 2, loop := .quoted s.pos }
  else if c = '@' ∧ ((rest? source (s.pos + 1)).bind (·.head?)).any isIdentStart then
    some { s with pos := s.pos + 1, loop := .word .atKeyword s.pos }
  else if c = '.' then do
    if ['.', '.', '.'].isPrefixOf (← rest? source s.pos) then
      emit source base .ellipsis s.pos { s with pos := s.pos + 3 }
    else emit source base .punct s.pos { s with pos := s.pos + 1 }
  else emit source base .punct s.pos { s with pos := s.pos + c.utf8Size }

/-- Begins the piece that the character `c` at the position begins. -/
def beginPiece (c : Char) (s : Scanner) : Option Scanner :=
  if c = '\n' then some { s with pos := s.pos + 1, lineStart := true }
  else if Text.isBlank c then some { s with pos := s.pos + c.utf8Size }
  else if c = '/' ∧ byteAt? source (s.pos + 1) = some '/'.toUInt8 then skipLine source s
  else if c = '/' ∧ byteAt? source (s.pos + 1) = some '*'.toUInt8 then skipBlockComment source s
  else if c = '#' ∧ s.lineStart then some { s with loop := .directive }
  else beginToken source base c { s with lineStart := false }

/-! ## One turn of each loop -/

/-- A word goes on as long as its characters do. -/
def stepWord (kind : TokenKind) (start : Nat) (s : Scanner) : Option Scanner := do
  match (← rest? source s.pos).head? with
  | some c =>
      if continuesWord kind c then pure { s with pos := s.pos + c.utf8Size }
      else emit source base kind start s
  | none => emit source base kind start s

/-- A quoted text goes on up to a quote, or to the end of the line.  A backslash takes
the next character with it. -/
def stepQuoted (start : Nat) (s : Scanner) : Option Scanner := do
  match (← rest? source s.pos).head? with
  | some c =>
      if c = '\\' then
        match (← rest? source (s.pos + 1)).head? with
        | some escaped => pure { s with pos := s.pos + 1 + escaped.utf8Size }
        | none => pure { s with pos := s.pos + 1 }
      else if c = '"' then emit source base .stringLiteral start { s with pos := s.pos + 1 }
      else if c = '\n' then emit source base .stringLiteral start s
      else pure { s with pos := s.pos + c.utf8Size }
  | none => emit source base .stringLiteral start s

/-- A directive goes on to the end of its line, and behind it if the line is
continued and the source has not ended. -/
def stepDirective (s : Scanner) : Option Scanner := do
  let s ← skipLine source s
  let (read, _) ← Text.splitAtByte? s.pos source.toList
  if endsInBackslash read ∧ s.pos < source.utf8ByteSize then pure { s with pos := s.pos + 1 }
  else pure { s with loop := .between }

/-- One turn of the loop that the scanner is in. -/
def step (s : Scanner) : Option Outcome :=
  match s.loop with
  | .between => do
      match (← rest? source s.pos).head? with
      | some c => (beginPiece source base c s).map .goOn
      | none => pure (.finish s.tokens)
  | .word kind start => (stepWord source base kind start s).map .goOn
  | .quoted start => (stepQuoted source base start s).map .goOn
  | .directive => (stepDirective source s).map .goOn

end Scanner

end ProtocolFakes
