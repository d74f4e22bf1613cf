import ProtocolFakes.Proofs.Token.Respelling

/-!
# Spelling is a normal form

The tokens of a source, spelled out, are a text with the same tokens: comments,
preprocessor lines and blanks of every kind have become single spaces or nothing, and yet
no two tokens merge, none splits and none turns into something else
(`lexemes_tokenize_spell`).  Spelling those tokens gives the same text again.

Quoted texts that lack their closing quote have to be excluded, because they would run on
into what is spelled behind them.  The last token may lack it: nothing is behind it.

The first token needs a word of its own.  Preprocessor lines begin at the start of a
source, so a hash sign there would swallow the spelling; but then it would have swallowed
the source as well, and no source has it for its first token
(`head?_ne_hash_of_tokenize`).
-/

namespace ProtocolFakes

set_option autoImplicit false

open Text (byteLength)

/-! ## A spelling is no longer than its source -/

theorem byteLength_spellAfter_le {stop start : Nat} {ps : List Piece}
    (fits : start + byteLength (spelling ps) ≤ maxOffset) (behind : stop ≤ start) :
    stop + byteLength (Token.spellAfter stop (tokensFrom start ps)) ≤
      start + byteLength (spelling ps) := by
  induction ps generalizing stop start with
  | nil => exact behind
  | cons p ps ih =>
      rw [spelling_cons, Text.byteLength_append] at fits ⊢
      cases p with
      | gap kind cs =>
          rw [Piece.chars] at fits ⊢
          have wide : start + byteLength cs + byteLength (spelling ps) ≤ maxOffset := by omega
          have later := ih wide (Nat.le_trans behind (Nat.le_add_right ..))
          rw [tokensFrom_gap]
          omega
      | token kind cs =>
          rw [Piece.chars] at fits ⊢
          have wide : start + byteLength cs + byteLength (spelling ps) ≤ maxOffset := by omega
          have later := ih wide (Nat.le_refl _)
          have space : byteLength [' '] = 1 := by decide
          rw [tokensFrom_token, spellAfter_laidOut (by omega), Text.byteLength_append,
            Text.byteLength_append]
          split
          · rw [space]
            omega
          · rw [Text.byteLength_nil]
            omega

/-- **A spelling is no longer than the source of its tokens.** -/
theorem byteLength_spell_le {start : Nat} {ps : List Piece}
    (fits : start + byteLength (spelling ps) ≤ maxOffset) :
    byteLength (Token.spell (tokensFrom start ps)).toList ≤ byteLength (spelling ps) := by
  cases tokens : tokensFrom start ps with
  | nil => exact Nat.zero_le _
  | cons t ts =>
      obtain ⟨gs, kind, cs, qs, rfl, -, rfl, others⟩ := exists_piece_of_tokensFrom_eq_cons tokens
      rw [spelling_append, spelling_cons, Text.byteLength_append, Text.byteLength_append,
        Piece.chars] at fits ⊢
      have stop := (Token.range_laidOut (start + byteLength (spelling gs)) kind cs (by omega)).2.1
      have wide : start + byteLength (spelling gs) + byteLength cs + byteLength (spelling qs) ≤
          maxOffset := by
        omega
      have later := byteLength_spellAfter_le wide (Nat.le_refl _)
      rw [others] at later
      rw [Token.spell_cons, stop, String.toList_ofList, Token.laidOut, String.toList_ofList,
        Text.byteLength_append]
      omega

/-! ## The pieces of a spelling -/

/-- No source has a hash sign for its first token. -/
theorem head?_ne_hash_of_tokenize {source : String} {base : Nat} {t : Token} {ts : List Token}
    (tokens : tokenize source base = t :: ts) : t.text.toList.head? ≠ some '#' := by
  obtain ⟨gs, kind, cs, qs, split, gaps, rfl, -⟩ := exists_piece_of_tokensFrom_eq_cons tokens
  have read := readAt_of_piecesFrom split
  rw [lineStartBehind_of_gaps gaps] at read
  obtain ⟨c, ds, chars, -⟩ := id read
  obtain rfl : cs = c :: ds := chars
  obtain ⟨starts, -⟩ := Piece.readAt_token_iff.1 read
  rw [Token.laidOut, String.toList_ofList]
  intro hash
  cases starts.not_directive (Option.some.inj hash)

/-- The cutter takes a spelling apart into the pieces it was spelled from. -/
theorem pieces_spell {source : String} {base : Nat}
    (fits : base + byteLength source.toList ≤ maxOffset)
    (closed : ∀ t ∈ (tokenize source base).dropLast, t.isClosed = true) :
    pieces (Token.spell (tokenize source base)).toList = spellPieces (tokenize source base) := by
  have all : piecesFrom true source.toList = pieces source.toList ++ [] := (List.append_nil _).symm
  have cuts := (cuts_of_piecesFrom all).1
  have found : Cuts false (spellPieces (tokenize source base)) [] :=
    cuts_spellPieces cuts (by rwa [spelling_pieces]) (closedBefore_nil closed) (by simp [BreaksOff])
  have atStart : Cuts true (spellPieces (tokenize source base)) [] := by
    cases tokens : tokenize source base with
    | nil => trivial
    | cons t ts =>
        rw [tokens] at found
        exact found.of_lineStart fun hash => absurd hash (head?_ne_hash_of_tokenize tokens)
  rw [← spelling_spellPieces]
  exact atStart.pieces_eq

/-- **Lexing undoes spelling.** The tokens of a source whose quoted texts, the last token
apart, have their closing quotes are the tokens of their own spelling, class by class and
text by text; and spelling is a normal form. -/
theorem lexemes_tokenize_spell {source : String} {base : Nat}
    (fits : base + byteLength source.toList ≤ maxOffset)
    (closed : ∀ t ∈ (tokenize source base).dropLast, t.isClosed = true) :
    (tokenize (Token.spell (tokenize source base)) 0).map Token.lexeme =
        (tokenize source base).map Token.lexeme ∧
      Token.spell (tokenize (Token.spell (tokenize source base)) 0) =
        Token.spell (tokenize source base) := by
  have text : spelling (pieces source.toList) = source.toList := flatten_pieces source.toList
  have short : byteLength (Token.spell (tokenize source base)).toList ≤
      byteLength (spelling (pieces source.toList)) := byteLength_spell_le (by rwa [text])
  rw [text] at short
  have again : tokenize (Token.spell (tokenize source base)) 0 =
      tokensFrom 0 (spellPieces (tokenize source base)) := by
    rw [tokenize, pieces_spell fits closed]
  rw [again]
  exact ⟨lexemes_spellPieces .., spell_tokensFrom_spellPieces (by omega)⟩

/-- Slashes, points, at signs and hash signs kept apart by comments, and an open quote. -/
def scatteredSource : String := "x// y\n/ /* a *// . ..@ #é\tend \\ \"open\n"

theorem lexemes_tokenize_spell_scattered :
    (∀ t ∈ (tokenize scatteredSource 9).dropLast, t.isClosed = true) ∧
      Token.spell (tokenize scatteredSource 9) = "x / / . ..@ #é end \\ \"open" ∧
      (tokenize "x / / . ..@ #é end \\ \"open" 0).map Token.lexeme =
        (tokenize scatteredSource 9).map Token.lexeme := by
  have closed : ∀ t ∈ (tokenize scatteredSource 9).dropLast, t.isClosed = true := by
    decide +kernel
  have spelled : Token.spell (tokenize scatteredSource 9) = "x / / . ..@ #é end \\ \"open" := by
    decide +kernel
  have lexemes := (lexemes_tokenize_spell (by decide) closed).1
  rw [spelled] at lexemes
  exact ⟨closed, spelled, lexemes⟩

end ProtocolFakes
