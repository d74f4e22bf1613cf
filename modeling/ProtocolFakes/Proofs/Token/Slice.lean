import ProtocolFakes.Proofs.Token.Partition

/-!
# Lexing a slice of a source

The text from the start of one token of a source to the end of another, lexed at the
offset where it stands, gives those two tokens and the ones between them, with the ranges
that they have in the source (`tokenize_slice`).  Three things might go wrong and do not.

* At its end the slice breaks off.  A token is read again where less follows it, and every
  gap of the slice stands in front of one of its tokens (`Cuts.of_shorter`).
* At its start the slice begins a line, which the first token need not do in the source.
  That matters to a hash sign only, so the first token must not be one.
* A preprocessor line looks back for a backslash, but no further than to its hash sign.
-/

namespace ProtocolFakes

set_option autoImplicit false

open Text (byteLength)

/-- A hash sign is a token of its own. -/
theorem Piece.ReadAt.ofList_eq_hash {lineStart : Bool} {kind : TokenKind} {chars rest : List Char}
    (read : (Piece.token kind chars).ReadAt lineStart rest) (hash : chars.head? = some '#') :
    String.ofList chars = "#" := by
  obtain ⟨c, cs, split, -⟩ := id read
  obtain rfl : chars = c :: cs := split
  obtain rfl : c = '#' := Option.some.inj hash
  obtain ⟨-, reads⟩ := readAt_token_iff.1 read
  obtain rfl := reads.eq_nil (by decide) (by decide) (by decide)
  rfl

/-- Pieces that are cut to the end of their text are its pieces, wherever a preprocessor line may
begin, if they begin with a token other than a hash sign. -/
theorem Cuts.pieces_eq_of_token {lineStart : Bool} {kind : TokenKind} {chars : List Char}
    {ps : List Piece} (cuts : Cuts lineStart (.token kind chars :: ps) [])
    (notHash : String.ofList chars ≠ "#") :
    pieces (spelling (.token kind chars :: ps)) = .token kind chars :: ps := by
  have atStart : Cuts true (.token kind chars :: ps) [] :=
    cuts.of_lineStart fun hash => absurd (cuts.1.ofList_eq_hash hash) notHash
  exact atStart.pieces_eq

/-- **A stretch of the pieces of a text is cut from its own characters**, if it begins and
ends with a token and does not begin with a hash sign. -/
theorem pieces_of_stretch {text chars : List Char} {before ps after : List Piece}
    {kind : TokenKind} (split : pieces text = before ++ (.token kind chars :: ps ++ after))
    (last : EndsWithToken (.token kind chars :: ps)) (notHash : String.ofList chars ≠ "#") :
    pieces (spelling (.token kind chars :: ps)) = .token kind chars :: ps := by
  have cuts := (cuts_of_piecesFrom (cuts_of_piecesFrom split).2).1
  exact (cuts.of_shorter last List.nil_prefix).pieces_eq_of_token notHash

/-- **A stretch of the tokens of a source is lexed from its own text**, unless it begins
with a hash sign. -/
theorem exists_slice_of_tokenize {source : String} {base : Nat} {before ts after : List Token}
    {t : Token} (fits : base + byteLength source.toList ≤ maxOffset)
    (split : tokenize source base = before ++ (t :: ts ++ after)) (notHash : t.text ≠ "#") :
    ∃ front mid back u, source.toList = front ++ (mid ++ back) ∧
      t.range.location = base + byteLength front ∧ (t :: ts).getLast? = some u ∧
      u.range.stop = base + byteLength front + byteLength mid ∧
      tokenize (String.ofList mid) t.range.location = t :: ts := by
  obtain ⟨qs, rs, whole, -, tokens, -⟩ := exists_pieces_of_tokensFrom_eq_append split
  obtain ⟨ms, zs, rfl, middle, -, last⟩ := exists_pieces_of_tokensFrom_eq_append tokens
  obtain ⟨gs, kind, cs, ps, rfl, gaps, rfl, others⟩ := exists_piece_of_tokensFrom_eq_cons middle
  have stretch : pieces source.toList = (qs ++ gs) ++ (.token kind cs :: ps ++ zs) := by
    rw [whole]
    simp
  have text : source.toList =
      spelling (qs ++ gs) ++ (spelling (.token kind cs :: ps) ++ spelling zs) := by
    rw [← spelling_append, ← spelling_append, ← stretch, spelling_pieces]
  rw [text, Text.byteLength_append, Text.byteLength_append] at fits
  have inside : base + byteLength (spelling (qs ++ gs)) +
      byteLength (spelling (.token kind cs :: ps)) ≤ maxOffset := by
    omega
  have start : base + byteLength (spelling qs) + byteLength (spelling gs) =
      base + byteLength (spelling (qs ++ gs)) := by
    rw [spelling_append, Text.byteLength_append, Nat.add_assoc]
  have laid : tokensFrom (base + byteLength (spelling (qs ++ gs))) (.token kind cs :: ps) =
      .laidOut (base + byteLength (spelling (qs ++ gs))) kind cs :: ts := by
    rw [tokensFrom_token, ← start, others]
  obtain ⟨u, found, stop⟩ := exists_getLast?_tokensFrom inside (List.cons_ne_nil _ _)
    last.of_append
  have location := (Token.range_laidOut (base + byteLength (spelling (qs ++ gs))) kind cs
    (by rw [spelling_cons, Text.byteLength_append, Piece.chars] at inside; omega)).1
  rw [start]
  refine ⟨_, _, _, u, text, location, laid ▸ found, stop, ?_⟩
  rw [location, tokenize, String.toList_ofList, pieces_of_stretch stretch last.of_append notHash,
    laid]

/-- Tokens between two indices, both included, with what stands around them. -/
theorem eq_append_of_getElem? {α : Type} {l : List α} {i j : Nat} {a b : α}
    (first : l[i]? = some a) (last : l[j]? = some b) (ordered : i ≤ j) :
    ∃ mid, (l.take (j + 1)).drop i = a :: mid ∧ (a :: mid).getLast? = some b ∧
      l = l.take i ++ (a :: mid ++ l.drop (j + 1)) := by
  have front : ((l.take (j + 1)).drop i)[0]? = some a := by
    rw [List.getElem?_drop, List.getElem?_take_of_lt (by omega), ← first]
    rfl
  have back : ((l.take (j + 1)).drop i).getLast? = some b := by
    have inRange : j < l.length := (List.getElem?_eq_some_iff.1 last).1
    rw [List.getLast?_drop, if_neg (by rw [List.length_take]; omega), List.getLast?_take,
      if_neg (by omega), Nat.add_sub_cancel, last]
    rfl
  have whole : l = l.take i ++ ((l.take (j + 1)).drop i ++ l.drop (j + 1)) := by
    have shorter : l.take i = (l.take (j + 1)).take i := by
      rw [List.take_take, Nat.min_eq_left (by omega)]
    rw [shorter, ← List.append_assoc, List.take_append_drop, List.take_append_drop]
  cases between : (l.take (j + 1)).drop i with
  | nil => simp [between] at front
  | cons x mid =>
      rw [between] at front back whole
      obtain rfl : x = a := Option.some.inj front
      exact ⟨mid, rfl, back, whole⟩

/-- **Lexing a slice agrees with lexing the whole.** The text from the start of token `i`
to the end of token `j`, lexed at the offset where token `i` stands, gives the tokens from
`i` to `j` with the same classes, texts and ranges, unless token `i` is a hash sign. -/
theorem tokenize_slice {source : String} {base i j : Nat} {t u : Token}
    (fits : base + byteLength source.toList ≤ maxOffset)
    (first : (tokenize source base)[i]? = some t) (last : (tokenize source base)[j]? = some u)
    (ordered : i ≤ j) (notHash : t.text ≠ "#") :
    ∃ slice, (SourceRange.ofBounds (t.range.location - base) (u.range.stop - base)).slice? source =
        some slice ∧
      tokenize slice t.range.location = ((tokenize source base).take (j + 1)).drop i := by
  obtain ⟨ts, between, lastOf, split⟩ := eq_append_of_getElem? first last ordered
  obtain ⟨front, mid, back, u', text, location, lastOf', stop, again⟩ :=
    exists_slice_of_tokenize fits split notHash
  obtain rfl : u = u' := Option.some.inj (lastOf.symm.trans lastOf')
  rw [text, Text.byteLength_append, Text.byteLength_append] at fits
  refine ⟨String.ofList mid, SourceRange.slice?_eq text ?_ ?_, again.trans between.symm⟩
  · rw [SourceRange.location_ofBounds (by omega)]
    omega
  · rw [SourceRange.stop_ofBounds (by omega) (by omega)]
    omega

/-- A protocol with a method that stands behind a preprocessor line. -/
def conditionalSource : String := "@protocol P\n#if A\n- (void)a; // b\n@end"

theorem tokenize_slice_conditional :
    (tokenize conditionalSource 5)[1]? = some ⟨.identifier, "P", .clamped 15 1⟩ ∧
      (tokenize conditionalSource 5)[7]? = some ⟨.punct, ";", .clamped 32 1⟩ ∧
      tokenize "P\n#if A\n- (void)a;" 15 =
        ((tokenize conditionalSource 5).take 8).drop 1 := by
  have first : (tokenize conditionalSource 5)[1]? = some ⟨.identifier, "P", .clamped 15 1⟩ := by
    decide +kernel
  have last : (tokenize conditionalSource 5)[7]? = some ⟨.punct, ";", .clamped 32 1⟩ := by
    decide +kernel
  obtain ⟨slice, cut, again⟩ :=
    tokenize_slice (by decide) first last (by decide) (by decide)
  have sliced : some slice = some "P\n#if A\n- (void)a;" := by
    rw [← cut]
    decide +kernel
  obtain rfl := Option.some.inj sliced
  exact ⟨first, last, again⟩

-- Behind a token a hash sign is a token too.  Cut out, it begins a preprocessor line.
example : (tokenize "a #b" 0).map (·.text) = ["a", "#", "b"] ∧ tokenize "#b" 2 = [] := by
  decide +kernel

end ProtocolFakes
