import ProtocolFakes.Text.Blank
import ProtocolFakes.Token

/-!
# Cutting a source into tokens and gaps

A source is cut into pieces: tokens, and the gaps between them.  A gap is a
newline, another blank, a line comment, a block comment or a preprocessor line
with its continuations.  A preprocessor line is recognised only while no token
has been read since the last newline outside comments, strings and such lines;
everywhere else a hash sign is punctuation.

The cutter loses nothing: `flatten_pieces` says that the pieces, written one
after another, are the source.  Each step takes at least one character
(`nextPiece_rest_length_lt`), which is why the recursion ends on every text,
closed or not.  Offsets enter only when the pieces are laid out, in
`tokensFrom`.
-/

namespace ProtocolFakes

set_option autoImplicit false

/-! ## Pieces -/

/-- What separates two tokens. -/
inductive GapKind where
  | newline
  | blank
  | lineComment
  | blockComment
  | directive
  deriving DecidableEq, Repr

/-- A stretch of source that is one token or one gap. -/
inductive Piece where
  | token (kind : TokenKind) (chars : List Char)
  | gap (kind : GapKind) (chars : List Char)
  deriving DecidableEq, Repr

namespace Piece

/-- The characters of a piece. -/
def chars : Piece → List Char
  | token _ cs => cs
  | gap _ cs => cs

end Piece

/-! ## Scanning to the end of a piece

Each scanner answers what it takes and what is left. -/

/-- A scan that takes `c` before what another scan takes. -/
def scanCons (c : Char) (scan : List Char × List Char) : List Char × List Char :=
  (c :: scan.1, scan.2)

@[simp] theorem append_scanCons (c : Char) (scan : List Char × List Char) :
    (scanCons c scan).1 ++ (scanCons c scan).2 = c :: (scan.1 ++ scan.2) := rfl

/-- The body of a quoted text behind its opening quote: up to and with the
closing quote, or up to the end of the line.  A backslash takes the next
character with it, whatever it is. -/
def scanQuoted : List Char → List Char × List Char
  | [] => ([], [])
  | ['\\'] => (['\\'], [])
  | '\\' :: c :: cs => scanCons '\\' (scanCons c (scanQuoted cs))
  | '"' :: cs => (['"'], cs)
  | '\n' :: cs => ([], '\n' :: cs)
  | c :: cs => scanCons c (scanQuoted cs)

/-- A block comment behind its opening mark: up to and with the closing mark,
or to the end of the source. -/
def scanBlockComment : List Char → List Char × List Char
  | [] => ([], [])
  | '*' :: '/' :: cs => (['*', '/'], cs)
  | c :: cs => scanCons c (scanBlockComment cs)

/-- The rest of a preprocessor line: up to a newline that no backslash
continues.  `continued` says whether the line so far, carriage returns at its
end left out, ends in a backslash. -/
def scanDirective (continued : Bool) : List Char → List Char × List Char
  | [] => ([], [])
  | c :: cs =>
      if c = '\n' then
        if continued then scanCons c (scanDirective false cs) else ([], c :: cs)
      else scanCons c (scanDirective (if c = '\r' then continued else c = '\\') cs)

theorem append_scanQuoted (cs : List Char) : (scanQuoted cs).1 ++ (scanQuoted cs).2 = cs := by
  fun_induction scanQuoted cs <;> simp_all

theorem append_scanBlockComment (cs : List Char) :
    (scanBlockComment cs).1 ++ (scanBlockComment cs).2 = cs := by
  fun_induction scanBlockComment cs <;> simp_all

theorem append_scanDirective (continued : Bool) (cs : List Char) :
    (scanDirective continued cs).1 ++ (scanDirective continued cs).2 = cs := by
  fun_induction scanDirective continued cs <;> simp_all

/-! ## One piece -/

/-- The token that begins with `c` and continues into `cs`, and what is left. -/
def nextToken (c : Char) (cs : List Char) : TokenKind × List Char × List Char :=
  if isIdentStart c then
    (.identifier, c :: cs.takeWhile isIdentContinue, cs.dropWhile isIdentContinue)
  else if c.isDigit then
    (.number, c :: cs.takeWhile isNumberContinue, cs.dropWhile isNumberContinue)
  else
    match c, cs with
    | '"', cs => let r := scanQuoted cs; (.stringLiteral, '"' :: r.1, r.2)
    | '@', '"' :: cs => let r := scanQuoted cs; (.stringLiteral, '@' :: '"' :: r.1, r.2)
    | '@', d :: cs =>
        if isIdentStart d then
          (.atKeyword, '@' :: d :: cs.takeWhile isIdentContinue, cs.dropWhile isIdentContinue)
        else (.punct, ['@'], d :: cs)
    | '.', '.' :: '.' :: cs => (.ellipsis, ['.', '.', '.'], cs)
    | c, cs => (.punct, [c], cs)

/-- The piece that begins with `c` and continues into `cs`, and what is left.
`lineStart` says whether a preprocessor line may begin here. -/
def nextPiece (lineStart : Bool) (c : Char) (cs : List Char) : Piece × List Char :=
  if c = '\n' then (.gap .newline ['\n'], cs)
  else if Text.isBlank c then (.gap .blank [c], cs)
  else if c = '/' ∧ cs.head? = some '/' then
    (.gap .lineComment (c :: cs.takeWhile (· ≠ '\n')), cs.dropWhile (· ≠ '\n'))
  else if c = '/' ∧ cs.head? = some '*' then
    let r := scanBlockComment cs.tail
    (.gap .blockComment ('/' :: '*' :: r.1), r.2)
  else if c = '#' ∧ lineStart then
    let r := scanDirective false cs
    (.gap .directive ('#' :: r.1), r.2)
  else
    let r := nextToken c cs
    (.token r.1 r.2.1, r.2.2)

/-- Whether a preprocessor line may begin behind a piece. -/
def Piece.lineStartAfter (lineStart : Bool) : Piece → Bool
  | .token .. => false
  | .gap .newline _ => true
  | .gap .. => lineStart

theorem append_nextToken (c : Char) (cs : List Char) :
    (nextToken c cs).2.1 ++ (nextToken c cs).2.2 = c :: cs := by
  unfold nextToken
  split
  · simp [List.takeWhile_append_dropWhile]
  split
  · simp [List.takeWhile_append_dropWhile]
  split
  · simp [append_scanQuoted]
  · simp [append_scanQuoted]
  · split <;> simp [List.takeWhile_append_dropWhile]
  · simp
  · simp

/-- A piece and what is left are the text it was cut from. -/
theorem append_nextPiece (lineStart : Bool) (c : Char) (cs : List Char) :
    (nextPiece lineStart c cs).1.chars ++ (nextPiece lineStart c cs).2 = c :: cs := by
  unfold nextPiece
  split
  · simp_all [Piece.chars]
  split
  · simp [Piece.chars]
  split
  · simp [Piece.chars, List.takeWhile_append_dropWhile]
  split
  · rename_i h
    obtain ⟨rfl, h⟩ := h
    obtain ⟨t, rfl⟩ := List.head?_eq_some_iff.1 h
    simp [Piece.chars, append_scanBlockComment]
  split
  · rename_i h
    simp [Piece.chars, append_scanDirective, h.1]
  · simp [Piece.chars, append_nextToken]

theorem nextToken_chars_ne_nil (c : Char) (cs : List Char) : (nextToken c cs).2.1 ≠ [] := by
  unfold nextToken
  split
  · simp
  split
  · simp
  split <;> try split
  all_goals simp

/-- No piece is empty. -/
theorem nextPiece_chars_ne_nil (lineStart : Bool) (c : Char) (cs : List Char) :
    (nextPiece lineStart c cs).1.chars ≠ [] := by
  unfold nextPiece
  repeat' split
  all_goals simp [Piece.chars, nextToken_chars_ne_nil]

/-- Each step leaves less. -/
theorem nextPiece_rest_length_lt (lineStart : Bool) (c : Char) (cs : List Char) :
    (nextPiece lineStart c cs).2.length < (c :: cs).length := by
  have hlen := congrArg List.length (append_nextPiece lineStart c cs)
  have hpos := List.length_pos_iff.2 (nextPiece_chars_ne_nil lineStart c cs)
  simp only [List.length_append] at hlen
  omega

/-! ## The whole source -/

/-- The pieces of a text, read with or without the right to begin with a
preprocessor line. -/
def piecesFrom (lineStart : Bool) : List Char → List Piece
  | [] => []
  | c :: cs =>
      let step := nextPiece lineStart c cs
      step.1 :: piecesFrom (step.1.lineStartAfter lineStart) step.2
termination_by cs => cs.length
decreasing_by exact nextPiece_rest_length_lt lineStart c cs

/-- The pieces of a source. -/
def pieces (source : List Char) : List Piece := piecesFrom true source

/-- The tokens among pieces that are laid out from offset `start`. -/
def tokensFrom (start : Nat) : List Piece → List Token
  | [] => []
  | .token kind cs :: ps =>
      ⟨kind, String.ofList cs, .clamped start (Text.byteLength cs)⟩
        :: tokensFrom (start + Text.byteLength cs) ps
  | .gap _ cs :: ps => tokensFrom (start + Text.byteLength cs) ps

/-- The tokens of a source whose first byte stands at offset `base` of its
document. -/
def tokenize (source : String) (base : Nat) : List Token :=
  tokensFrom base (pieces source.toList)

/-- The pieces, written one after another, are the source. -/
theorem flatten_piecesFrom (lineStart : Bool) (cs : List Char) :
    (piecesFrom lineStart cs).flatMap Piece.chars = cs := by
  fun_induction piecesFrom lineStart cs with
  | case1 => rfl
  | case2 lineStart c cs step ih =>
      rw [List.flatMap_cons, ih]
      exact append_nextPiece lineStart c cs

/-- Cutting a source into pieces loses nothing. -/
theorem flatten_pieces (source : List Char) : (pieces source).flatMap Piece.chars = source :=
  flatten_piecesFrom true source

end ProtocolFakes
