import ProtocolFakes.Proofs.SourceRange.Envelope
import ProtocolFakes.Proofs.Token.Balance
import ProtocolFakes.Proofs.Token.Pieces

/-!
# Laying out pieces

Tokens are pieces with offsets.  Pieces laid out one after another give the tokens
of the first ones and then those of the others, further behind
(`tokensFrom_append`); conversely a stretch of the tokens comes from a stretch of
the pieces (`exists_pieces_of_tokensFrom_eq_append`), so a token of a source is one that is
read there (`exists_readsToken_of_mem_tokenize`).  Where nothing runs past the
largest offset, every token stands where its characters stand, and the envelope of
tokens goes from the first character to the last (`envelope_tokensFrom`).
-/

namespace ProtocolFakes

set_option autoImplicit false

open Text (byteLength)

/-- The token of a piece that is laid out from offset `start`. -/
def Token.laidOut (start : Nat) (kind : TokenKind) (cs : List Char) : Token :=
  ⟨kind, String.ofList cs, .clamped start (byteLength cs)⟩

/-! ## Stretches of tokens -/

theorem tokensFrom_token (start : Nat) (kind : TokenKind) (cs : List Char) (ps : List Piece) :
    tokensFrom start (.token kind cs :: ps) =
      .laidOut start kind cs :: tokensFrom (start + byteLength cs) ps := rfl

theorem tokensFrom_gap (start : Nat) (kind : GapKind) (cs : List Char) (ps : List Piece) :
    tokensFrom start (.gap kind cs :: ps) = tokensFrom (start + byteLength cs) ps := rfl

theorem tokensFrom_append (start : Nat) (ps qs : List Piece) :
    tokensFrom start (ps ++ qs) =
      tokensFrom start ps ++ tokensFrom (start + byteLength (spelling ps)) qs := by
  induction ps generalizing start with
  | nil => simp [tokensFrom]
  | cons p ps ih => cases p <;> simp [tokensFrom, ih, Piece.chars, Nat.add_assoc]

theorem tokensFrom_of_gaps (start : Nat) {gs : List Piece} (gaps : ∀ g ∈ gs, g.isGap = true) :
    tokensFrom start gs = [] := by
  induction gs generalizing start with
  | nil => rfl
  | cons g gs ih =>
      cases g with
      | token kind cs => cases gaps (.token kind cs) (List.mem_cons_self ..)
      | gap kind cs => exact ih _ fun h member => gaps h (List.mem_cons_of_mem _ member)

/-- The classes and texts of tokens do not depend on where they are laid out. -/
theorem lexemes_tokensFrom (start start' : Nat) (ps : List Piece) :
    (tokensFrom start ps).map Token.lexeme = (tokensFrom start' ps).map Token.lexeme := by
  induction ps generalizing start start' with
  | nil => rfl
  | cons p ps ih =>
      cases p with
      | token kind cs =>
          rw [tokensFrom_token, tokensFrom_token, List.map_cons, List.map_cons, ih]
          rfl
      | gap kind cs => exact ih ..

/-- The first token comes from a piece behind gaps. -/
theorem exists_piece_of_tokensFrom_eq_cons {start : Nat} {ps : List Piece} {t : Token}
    {ts : List Token} (tokens : tokensFrom start ps = t :: ts) :
    ∃ gs kind cs qs, ps = gs ++ .token kind cs :: qs ∧ (∀ g ∈ gs, g.isGap = true) ∧
      t = .laidOut (start + byteLength (spelling gs)) kind cs ∧
      tokensFrom (start + byteLength (spelling gs) + byteLength cs) qs = ts := by
  induction ps generalizing start with
  | nil => cases tokens
  | cons p ps ih =>
      cases p with
      | token kind cs =>
          obtain ⟨first, others⟩ := List.cons.inj tokens
          exact ⟨[], kind, cs, ps, rfl, by simp, first.symm, others⟩
      | gap kind cs =>
          obtain ⟨gs, kind', cs', qs, rfl, gaps, first, others⟩ := ih tokens
          refine ⟨.gap kind cs :: gs, kind', cs', qs, rfl, ?_, ?_, ?_⟩
          · intro g member
            rcases List.mem_cons.1 member with rfl | later
            · rfl
            · exact gaps g later
          · simpa [Piece.chars, Nat.add_assoc] using first
          · simpa [Piece.chars, Nat.add_assoc] using others

/-- **A beginning of the tokens comes from a beginning of the pieces**, which can be
taken to end with a token. -/
theorem exists_pieces_of_tokensFrom_eq_append {start : Nat} {ps : List Piece}
    {ts us : List Token} (tokens : tokensFrom start ps = ts ++ us) :
    ∃ qs rs, ps = qs ++ rs ∧ tokensFrom start qs = ts ∧
      tokensFrom (start + byteLength (spelling qs)) rs = us ∧ EndsWithToken qs := by
  induction ts generalizing start ps with
  | nil => exact ⟨[], ps, rfl, rfl, tokens, by simp [EndsWithToken]⟩
  | cons t ts ih =>
      obtain ⟨gs, kind, cs, qs, rfl, gaps, rfl, others⟩ := exists_piece_of_tokensFrom_eq_cons tokens
      obtain ⟨ms, rs, rfl, front, behind, last⟩ := ih others
      refine ⟨gs ++ .token kind cs :: ms, rs, by simp, ?_, ?_, ?_⟩
      · rw [tokensFrom_append, tokensFrom_of_gaps _ gaps, tokensFrom_token, front]
        rfl
      · simpa [Piece.chars, Nat.add_assoc] using behind
      · intro q member
        rw [List.getLast?_append] at member
        refine (endsWithToken_singleton kind cs).append last q ?_
        simpa using member

/-- **A stretch of the tokens of a source comes from pieces that are cut** there. -/
theorem exists_cuts_of_infix {source : String} {base : Nat} {ts : List Token}
    (stretch : ts <:+: tokenize source base) :
    ∃ lineStart start ps rest, tokensFrom start ps = ts ∧ Cuts lineStart ps rest ∧
      start + byteLength (spelling ps) ≤ base + byteLength source.toList := by
  obtain ⟨before, after, whole⟩ := stretch
  rw [List.append_assoc] at whole
  obtain ⟨qs, rs, split, -, tokens, -⟩ := exists_pieces_of_tokensFrom_eq_append whole.symm
  obtain ⟨ms, zs, rfl, middle, -, -⟩ := exists_pieces_of_tokensFrom_eq_append tokens
  have behind := (cuts_of_piecesFrom split).2
  refine ⟨_, _, ms, _, middle, (cuts_of_piecesFrom behind).1, ?_⟩
  have total := congrArg byteLength (spelling_pieces source.toList)
  rw [split, spelling_append, spelling_append, Text.byteLength_append, Text.byteLength_append]
    at total
  omega

/-- A token of a source is one that starts, and is read, in front of some text. -/
theorem exists_readsToken_of_mem_tokenize {source : String} {base : Nat} {t : Token}
    (member : t ∈ tokenize source base) :
    ∃ lineStart c cs rest, t.text.toList = c :: cs ∧ StartsToken lineStart c (cs ++ rest) ∧
      ReadsToken rest t.kind (c :: cs) := by
  obtain ⟨before, after, split⟩ := List.append_of_mem member
  have stretch : [t] <:+: tokenize source base := ⟨before, after, by simp [split]⟩
  obtain ⟨lineStart, start, ps, rest, tokens, cuts, -⟩ := exists_cuts_of_infix stretch
  obtain ⟨gs, kind, chars, qs, rfl, -, rfl, -⟩ := exists_piece_of_tokensFrom_eq_cons tokens
  obtain ⟨c, cs, split, read⟩ := (cuts_append.1 cuts).2.1
  obtain rfl : chars = c :: cs := split
  obtain ⟨starts, reads⟩ := Piece.readAt_token_iff.1 ⟨c, cs, rfl, read⟩
  exact ⟨_, c, cs, _, String.toList_ofList, starts, reads⟩

/-! ## Where tokens stand -/

/-- A token stands where its piece is laid out. -/
theorem Token.range_laidOut (start : Nat) (kind : TokenKind) (cs : List Char)
    (fits : start + byteLength cs ≤ maxOffset) :
    (laidOut start kind cs).range.location = start ∧
      (laidOut start kind cs).range.stop = start + byteLength cs ∧
      (laidOut start kind cs).range.Fits :=
  ⟨SourceRange.location_clamped (by omega), SourceRange.stop_clamped fits,
    SourceRange.fits_clamped fits⟩

/-- Tokens stand between the ends of their pieces. -/
theorem bounds_of_mem_tokensFrom {start : Nat} {ps : List Piece}
    (fits : start + byteLength (spelling ps) ≤ maxOffset) {t : Token}
    (member : t ∈ tokensFrom start ps) :
    start ≤ t.range.location ∧ t.range.stop ≤ start + byteLength (spelling ps) ∧
      t.range.Fits := by
  induction ps generalizing start with
  | nil => cases member
  | cons p ps ih =>
      have later : start + byteLength p.chars + byteLength (spelling ps) ≤ maxOffset := by
        simpa [Nat.add_assoc] using fits
      have total : byteLength (spelling (p :: ps)) =
          byteLength p.chars + byteLength (spelling ps) := by simp
      rw [total]
      cases p with
      | token kind cs =>
          rcases List.mem_cons.1 member with rfl | behind
          · have here : start + byteLength cs ≤ maxOffset :=
              Nat.le_trans (Nat.le_add_right ..) later
            obtain ⟨location, stop, inside⟩ := Token.range_laidOut _ kind _ here
            refine ⟨Nat.le_of_eq location.symm, ?_, inside⟩
            calc _ = start + byteLength cs := stop
              _ ≤ _ := Nat.add_le_add_left (Nat.le_add_right ..) _
          · obtain ⟨lower, upper, inside⟩ := ih later behind
            exact ⟨by omega, by omega, inside⟩
      | gap kind cs =>
          obtain ⟨lower, upper, inside⟩ := ih later member
          exact ⟨by omega, by omega, inside⟩

/-- The tokens of a source that ends at an offset stand in it. -/
theorem bounds_of_mem_tokenize {source : String} {base : Nat}
    (fits : base + byteLength source.toList ≤ maxOffset) {t : Token}
    (member : t ∈ tokenize source base) :
    base ≤ t.range.location ∧ t.range.stop ≤ base + byteLength source.toList ∧
      t.range.Fits := by
  rw [← spelling_pieces source.toList] at fits ⊢
  exact bounds_of_mem_tokensFrom fits member

/-- Where pieces begin with a token, a token stands at their beginning. -/
theorem exists_mem_tokensFrom_location {start : Nat} {ps : List Piece}
    (fits : start + byteLength (spelling ps) ≤ maxOffset) (ne : ps ≠ [])
    (first : ∀ q ∈ ps.head?, q.isGap = false) :
    ∃ t ∈ tokensFrom start ps, t.range.location = start := by
  obtain ⟨p, ps, rfl⟩ := List.exists_cons_of_ne_nil ne
  cases p with
  | gap kind cs => cases first (.gap kind cs) rfl
  | token kind cs =>
      rw [spelling_cons, Piece.chars, Text.byteLength_append] at fits
      have here : start + byteLength cs ≤ maxOffset := by omega
      exact ⟨_, List.mem_cons_self .., (Token.range_laidOut _ _ _ here).1⟩

/-- Where pieces end with a token, that token stands at their end. -/
theorem exists_getLast?_tokensFrom {start : Nat} {ps : List Piece}
    (fits : start + byteLength (spelling ps) ≤ maxOffset) (ne : ps ≠ [])
    (last : EndsWithToken ps) :
    ∃ t, (tokensFrom start ps).getLast? = some t ∧
      t.range.stop = start + byteLength (spelling ps) := by
  obtain ⟨qs, q, rfl⟩ := List.eq_nil_or_concat ps |>.resolve_left ne
  rw [List.concat_eq_append] at *
  cases q with
  | gap kind cs => cases last (.gap kind cs) (by simp)
  | token kind cs =>
      have total : byteLength (spelling (qs ++ [.token kind cs])) =
          byteLength (spelling qs) + byteLength cs := by simp [Piece.chars]
      rw [total] at fits ⊢
      have here : start + byteLength (spelling qs) + byteLength cs ≤ maxOffset := by omega
      refine ⟨.laidOut (start + byteLength (spelling qs)) kind cs, ?_, ?_⟩
      · rw [tokensFrom_append, tokensFrom_token, tokensFrom, List.getLast?_concat]
      · rw [(Token.range_laidOut _ _ _ here).2.1, Nat.add_assoc]

/-- **The envelope of tokens goes from the first character to the last**, where
pieces begin and end with a token. -/
theorem envelope_tokensFrom {start : Nat} {ps : List Piece} {e : SourceRange}
    (fits : start + byteLength (spelling ps) ≤ maxOffset)
    (first : ∀ q ∈ ps.head?, q.isGap = false) (last : EndsWithToken ps)
    (found : SourceRange.envelopeOf? ((tokensFrom start ps).map (·.range)) = some e) :
    e.location = start ∧ e.stop = start + byteLength (spelling ps) := by
  have bounds : ∀ r ∈ (tokensFrom start ps).map (·.range),
      start ≤ r.location ∧ r.stop ≤ start + byteLength (spelling ps) := by
    intro r member
    obtain ⟨t, inside, rfl⟩ := List.mem_map.1 member
    obtain ⟨lower, upper, -⟩ := bounds_of_mem_tokensFrom fits inside
    exact ⟨lower, upper⟩
  have around : ∀ t ∈ tokensFrom start ps,
      e.location ≤ t.range.location ∧ t.range.stop ≤ e.stop := by
    intro t member
    apply SourceRange.encloses_iff.1
    exact SourceRange.encloses_of_envelopeOf? found (List.mem_map_of_mem member)
  have ne : ps ≠ [] := by
    rintro rfl
    cases found
  constructor
  · obtain ⟨t, member, location⟩ := exists_mem_tokensFrom_location fits ne first
    apply Nat.le_antisymm
    · exact Nat.le_trans (around t member).1 (Nat.le_of_eq location)
    · exact SourceRange.le_location_of_envelopeOf? found fun r inside => (bounds r inside).1
  · obtain ⟨t, found', stop⟩ := exists_getLast?_tokensFrom fits ne last
    apply Nat.le_antisymm
    · exact SourceRange.stop_le_of_envelopeOf? found fun r inside => (bounds r inside).2
    · exact Nat.le_trans (Nat.le_of_eq stop.symm) (around t (List.mem_of_getLast? found')).2

end ProtocolFakes
