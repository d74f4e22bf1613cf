import ProtocolFakes.Proofs.Token.Layout

/-!
# Spelling tokens again

`Token.spell` glues tokens that touch and writes one space for every gap.  Here the
spelling is seen as the pieces it consists of (`spellPieces`).  Those pieces are
tokens of the old classes and texts (`lexemes_spellPieces`), and laid out anywhere
they are spelled the same way again (`spell_tokensFrom_spellPieces`).

**The cutter finds exactly those pieces in the spelling** of tokens cut from a
source (`cuts_spellPieces`).  The induction is on the pieces of the source.  Where
two tokens touched, the text behind the first one begins as it did in the source
and breaks off at the next gap at the latest; where a gap was, a space follows.
-/

namespace ProtocolFakes

set_option autoImplicit false

open Text (byteLength)

/-- One space. -/
def Piece.space : Piece := .gap .blank [' ']

/-- The pieces of the spelling of tokens that follow a token ending at `stop`. -/
def spellPiecesAfter (stop : Nat) : List Token → List Piece
  | [] => []
  | t :: ts =>
      (if stop < t.range.location then [Piece.space] else []) ++
        .token t.kind t.text.toList :: spellPiecesAfter t.range.stop ts

theorem spellPiecesAfter_cons (stop : Nat) (t : Token) (ts : List Token) :
    spellPiecesAfter stop (t :: ts) =
      (if stop < t.range.location then [Piece.space] else []) ++
        .token t.kind t.text.toList :: spellPiecesAfter t.range.stop ts := rfl

/-- The pieces of the spelling of tokens. -/
def spellPieces : List Token → List Piece
  | [] => []
  | t :: ts => .token t.kind t.text.toList :: spellPiecesAfter t.range.stop ts

theorem spellPieces_cons (t : Token) (ts : List Token) :
    spellPieces (t :: ts) = .token t.kind t.text.toList :: spellPiecesAfter t.range.stop ts := rfl

/-! ## What the pieces are -/

theorem spelling_spellPiecesAfter (stop : Nat) (ts : List Token) :
    spelling (spellPiecesAfter stop ts) = Token.spellAfter stop ts := by
  induction ts generalizing stop with
  | nil => rfl
  | cons t ts ih =>
      rw [spellPiecesAfter_cons, Token.spellAfter_cons, spelling_append, spelling_cons, ih,
        ← List.append_assoc]
      by_cases gap : stop < t.range.location
      · simp [gap, Piece.space, Piece.chars]
      · simp [gap, Piece.chars]

/-- The pieces spell what the tokens spell. -/
theorem spelling_spellPieces (ts : List Token) :
    spelling (spellPieces ts) = (Token.spell ts).toList := by
  cases ts with
  | nil => rfl
  | cons t ts =>
      rw [spellPieces_cons, Token.spell_cons, String.toList_ofList, spelling_cons,
        spelling_spellPiecesAfter]
      rfl

theorem lexemes_spellPiecesAfter (start stop : Nat) (ts : List Token) :
    (tokensFrom start (spellPiecesAfter stop ts)).map Token.lexeme = ts.map Token.lexeme := by
  induction ts generalizing start stop with
  | nil => rfl
  | cons t ts ih =>
      rw [spellPiecesAfter_cons, tokensFrom_append, List.map_append, tokensFrom_token,
        List.map_cons, ih]
      have noTokens :
          tokensFrom start (if stop < t.range.location then [Piece.space] else []) = [] := by
        split <;> rfl
      rw [noTokens]
      simp [Token.laidOut, Token.lexeme]

/-- The tokens among the pieces have the old classes and texts. -/
theorem lexemes_spellPieces (start : Nat) (ts : List Token) :
    (tokensFrom start (spellPieces ts)).map Token.lexeme = ts.map Token.lexeme := by
  cases ts with
  | nil => rfl
  | cons t ts =>
      rw [spellPieces_cons, tokensFrom_token, List.map_cons, lexemes_spellPiecesAfter]
      simp [Token.laidOut, Token.lexeme]

/-- The spelling of a token that is laid out behind another. -/
theorem spellAfter_laidOut {stop start : Nat} {kind : TokenKind} {cs : List Char}
    (fits : start + byteLength cs ≤ maxOffset) (ts : List Token) :
    Token.spellAfter stop (.laidOut start kind cs :: ts) =
      (if stop < start then [' '] else []) ++ cs ++
        Token.spellAfter (start + byteLength cs) ts := by
  obtain ⟨location, stops, -⟩ := Token.range_laidOut _ kind _ fits
  rw [Token.spellAfter_cons, location, stops, Token.laidOut, String.toList_ofList]

theorem spellAfter_tokensFrom_spellPiecesAfter {start stop : Nat} {ts : List Token}
    (fits : start + byteLength (Token.spellAfter stop ts) ≤ maxOffset) :
    Token.spellAfter start (tokensFrom start (spellPiecesAfter stop ts)) =
      Token.spellAfter stop ts := by
  induction ts generalizing start stop with
  | nil => rfl
  | cons t ts ih =>
      rw [Token.spellAfter_cons] at fits ⊢
      rw [spellPiecesAfter_cons]
      by_cases gap : stop < t.range.location
      · have space : byteLength [' '] = 1 := by decide
        simp only [gap, if_true, List.append_assoc, Text.byteLength_append, space] at fits ⊢
        rw [List.singleton_append, Piece.space, tokensFrom_gap, space, tokensFrom_token,
          spellAfter_laidOut (by omega), ih (by omega), if_pos (by omega), List.append_assoc]
      · simp only [gap, if_false, List.nil_append, Text.byteLength_append] at fits ⊢
        rw [tokensFrom_token, spellAfter_laidOut (by omega), ih (by omega), if_neg (by omega),
          List.nil_append]

/-- **The pieces are spelled the same way again**, wherever they are laid out. -/
theorem spell_tokensFrom_spellPieces {start : Nat} {ts : List Token}
    (fits : start + byteLength (Token.spell ts).toList ≤ maxOffset) :
    Token.spell (tokensFrom start (spellPieces ts)) = Token.spell ts := by
  cases ts with
  | nil => rfl
  | cons t ts =>
      rw [Token.spell_cons, String.toList_ofList, Text.byteLength_append] at fits
      obtain ⟨-, stops, -⟩ := Token.range_laidOut start t.kind t.text.toList (by omega)
      rw [spellPieces_cons, tokensFrom_token, Token.spell_cons, stops,
        spellAfter_tokensFrom_spellPiecesAfter (by omega), Token.laidOut, String.toList_ofList,
        Token.spell_cons]

/-! ## The cutter finds the pieces -/

/-- Behind a gap the spelling breaks off: a space comes, or the end of it. -/
theorem breaksOff_spellPiecesAfter {stop start : Nat} {ps : List Piece} {b : List Char}
    (gap : stop < start) (fits : start + byteLength (spelling ps) ≤ maxOffset)
    (breaks : BreaksOff b) :
    BreaksOff (spelling (spellPiecesAfter stop (tokensFrom start ps)) ++ b) := by
  induction ps generalizing start with
  | nil => exact breaks
  | cons p ps ih =>
      rw [spelling_cons, Text.byteLength_append] at fits
      cases p with
      | gap kind cs =>
          simp only [Piece.chars] at fits
          exact ih (by omega) (by omega)
      | token kind cs =>
          simp only [Piece.chars] at fits
          rw [tokensFrom_token, spellPiecesAfter_cons, (Token.range_laidOut _ _ _ (by omega)).1,
            if_pos gap]
          exact breaksOff_cons (by decide) _

/-- A space in front of a token is a gap of its own. -/
theorem readAt_space (lineStart : Bool) (rest : List Char) :
    Piece.space.ReadAt lineStart rest :=
  Piece.readAt_gap_iff.2 (.blank (by decide) (by decide))

/-- Tokens that are closed, save that the last one need not be where nothing follows. -/
def ClosedBefore (b : List Char) : List Token → Prop
  | [] => True
  | t :: ts => (t.isClosed = true ∨ ts = [] ∧ b = []) ∧ ClosedBefore b ts

theorem closedBefore_of_forall (b : List Char) {ts : List Token}
    (closed : ∀ t ∈ ts, t.isClosed = true) : ClosedBefore b ts := by
  induction ts with
  | nil => trivial
  | cons t ts ih =>
      exact ⟨.inl (closed t (List.mem_cons_self ..)),
        ih fun u member => closed u (List.mem_cons_of_mem _ member)⟩

/-- At the end of a text the last token need not be closed. -/
theorem closedBefore_nil {ts : List Token} (closed : ∀ t ∈ ts.dropLast, t.isClosed = true) :
    ClosedBefore [] ts := by
  induction ts with
  | nil => trivial
  | cons t ts ih =>
      cases ts with
      | nil => exact ⟨.inr ⟨rfl, rfl⟩, trivial⟩
      | cons u ts =>
          rw [List.dropLast_cons_cons] at closed
          exact ⟨.inl (closed t (List.mem_cons_self ..)),
            ih fun v member => closed v (List.mem_cons_of_mem _ member)⟩

theorem cuts_spellPiecesAfter {lineStart : Bool} {stop start : Nat} {ps : List Piece}
    {a b : List Char} (cuts : Cuts lineStart ps a)
    (fits : start + byteLength (spelling ps) ≤ maxOffset)
    (closed : ClosedBefore b (tokensFrom start ps)) (breaks : BreaksOff b)
    (behind : stop ≤ start) :
    Cuts false (spellPiecesAfter stop (tokensFrom start ps)) b ∧
      (stop = start → SharesStart (spelling ps ++ a)
        (spelling (spellPiecesAfter stop (tokensFrom start ps)) ++ b)) := by
  induction ps generalizing lineStart stop start with
  | nil => exact ⟨trivial, fun _ => sharesStart_of_breaksOff _ breaks⟩
  | cons p ps ih =>
      obtain ⟨read, later⟩ := cuts
      rw [spelling_cons, Text.byteLength_append] at fits
      cases p with
      | gap kind cs =>
          obtain ⟨c, cs', chars, -⟩ := read
          have wide : start < start + byteLength cs := by
            have positive := c.utf8Size_pos
            simp only [Piece.chars] at chars
            rw [chars, Text.byteLength_cons]
            omega
          simp only [Piece.chars] at fits
          rw [tokensFrom_gap] at closed ⊢
          refine ⟨(ih later (by omega) closed (by omega)).1, ?_⟩
          intro touching
          apply sharesStart_of_breaksOff
          exact breaksOff_spellPiecesAfter (by omega) (by omega) breaks
      | token kind cs =>
          simp only [Piece.chars] at fits
          rw [tokensFrom_token] at closed ⊢
          obtain ⟨location, stops, -⟩ := Token.range_laidOut start kind cs (by omega)
          obtain ⟨closedHere, closedLater⟩ := closed
          obtain ⟨cutLater, shares⟩ := ih later (by omega) closedLater (Nat.le_refl _)
          have here : Cuts false (.token kind cs ::
              spellPiecesAfter (start + byteLength cs)
                (tokensFrom (start + byteLength cs) ps)) b := by
            refine ⟨?_, cutLater⟩
            rcases closedHere with isClosed | ⟨none, rfl⟩
            · refine read.of_looksAlike (shares rfl).looksAlike ?_ fun _ => rfl
              rintro rfl
              simpa [Token.isClosed, Token.laidOut] using isClosed
            · -- Nothing follows the last token, so it may be open.
              rw [none]
              exact (read.of_shorter List.nil_prefix).of_lineStart fun _ => rfl
          rw [spellPiecesAfter_cons, location, stops, Token.laidOut, String.toList_ofList]
          constructor
          · split
            · exact ⟨readAt_space .., here⟩
            · exact here
          · intro touching
            rw [if_neg (by omega), List.nil_append, spelling_cons, spelling_cons,
              List.append_assoc, List.append_assoc]
            exact (shares rfl).append cs

/-- **The cutter finds the pieces of the spelling** of closed tokens in front of any
text that breaks off.  In front of nothing at all the last token need not be closed. -/
theorem cuts_spellPieces {lineStart : Bool} {start : Nat} {ps : List Piece} {a b : List Char}
    (cuts : Cuts lineStart ps a) (fits : start + byteLength (spelling ps) ≤ maxOffset)
    (closed : ClosedBefore b (tokensFrom start ps)) (breaks : BreaksOff b) :
    Cuts false (spellPieces (tokensFrom start ps)) b := by
  cases tokens : tokensFrom start ps with
  | nil => trivial
  | cons t ts =>
      -- From the first token on, the spelling is one behind a token that ends there.
      obtain ⟨gs, kind, cs, qs, rfl, gaps, rfl, others⟩ := exists_piece_of_tokensFrom_eq_cons tokens
      have same : tokensFrom (start + byteLength (spelling gs)) (.token kind cs :: qs) =
          .laidOut (start + byteLength (spelling gs)) kind cs :: ts := by
        rw [tokensFrom_token, others]
      rw [tokens, ← same] at closed
      rw [spelling_append, Text.byteLength_append] at fits
      have found := (cuts_spellPiecesAfter (cuts_append.1 cuts).2 (by omega) closed breaks
        (Nat.le_refl _)).1
      rw [spelling_cons, Text.byteLength_append, Piece.chars] at fits
      rw [same, spellPiecesAfter_cons, (Token.range_laidOut _ _ _ (by omega)).1,
        if_neg (by omega)] at found
      exact found

end ProtocolFakes
