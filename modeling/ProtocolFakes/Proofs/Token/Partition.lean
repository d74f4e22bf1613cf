import ProtocolFakes.Proofs.SourceRange.Slice
import ProtocolFakes.Proofs.Token.Layout
import ProtocolFakes.Proofs.Token.Trivia

/-!
# The partition of a source

A source is a gap, a token, a gap, a token and so on up to a last gap, and nothing else
(`Partition`).  Tokens are not empty.  Each stands at the offset of its characters and
is as long as they are, so ranges come in order and do not overlap, and a range cuts the
text of its token out of the source again.  Gaps are trivia, and a preprocessor line
begins where a line of the source begins.

**Lexing partitions every source** that ends at an offset (`exists_partition_tokenize`).
The proof weaves the pieces of the source apart, into the tokens and the runs of gaps
between them.
-/

namespace ProtocolFakes

set_option autoImplicit false

open Text (byteLength)

/-! ## Weaving tokens and gaps -/

/-- A first gap and then tokens, each with the gap behind it, as one list of pieces. -/
def weave (first : List Piece) : List (Token × List Piece) → List Piece
  | [] => first
  | (t, gap) :: later => first ++ .token t.kind t.text.toList :: weave gap later

theorem weave_append (first : List Piece) (before after : List (Token × List Piece)) (t : Token)
    (gap : List Piece) :
    weave first (before ++ (t, gap) :: after) =
      weave first before ++ .token t.kind t.text.toList :: weave gap after := by
  induction before generalizing first with
  | nil => rfl
  | cons e before ih => simp [weave, ih]

/-- Pieces are a first gap and then tokens, each with the gap behind it. -/
theorem exists_weave (start : Nat) (ps : List Piece) :
    ∃ first later, weave first later = ps ∧ later.map (·.1) = tokensFrom start ps ∧
      (∀ p ∈ first, p.isGap = true) ∧ ∀ e ∈ later, ∀ p ∈ e.2, p.isGap = true := by
  induction ps generalizing start with
  | nil => exact ⟨[], [], rfl, rfl, by simp, by simp⟩
  | cons p ps ih =>
      cases p with
      | token kind cs =>
          obtain ⟨gap, later, rfl, tokens, gaps, others⟩ := ih (start + byteLength cs)
          refine ⟨[], (.laidOut start kind cs, gap) :: later, ?_, ?_, by simp, ?_⟩
          · simp [weave, Token.laidOut]
          · rw [List.map_cons, tokens, tokensFrom_token]
          · simpa using ⟨gaps, fun t g member => others (t, g) member⟩
      | gap kind cs =>
          obtain ⟨first, later, rfl, tokens, gaps, others⟩ := ih (start + byteLength cs)
          refine ⟨.gap kind cs :: first, later, ?_, tokens, ?_, others⟩
          · cases later <;> rfl
          · simpa [Piece.isGap] using gaps

/-- A token among woven pieces is laid out behind the pieces in front of it. -/
theorem eq_laidOut_of_weave {start : Nat} {first : List Piece}
    {before after : List (Token × List Piece)} {t : Token} {gap : List Piece}
    (gaps : ∀ p ∈ first, p.isGap = true) (others : ∀ e ∈ before, ∀ p ∈ e.2, p.isGap = true)
    (tokens : (before ++ (t, gap) :: after).map (·.1) =
      tokensFrom start (weave first (before ++ (t, gap) :: after))) :
    t = .laidOut (start + byteLength (spelling (weave first before))) t.kind t.text.toList := by
  induction before generalizing start first with
  | nil =>
      rw [List.nil_append, weave, tokensFrom_append, tokensFrom_of_gaps _ gaps,
        tokensFrom_token] at tokens
      exact (List.cons.inj tokens).1
  | cons e before ih =>
      obtain ⟨u, g⟩ := e
      rw [List.cons_append, weave, tokensFrom_append, tokensFrom_of_gaps _ gaps,
        tokensFrom_token] at tokens
      have here := ih (others _ (List.mem_cons_self ..))
        (fun e member => others e (List.mem_cons_of_mem _ member)) (List.cons.inj tokens).2
      rw [weave, spelling_append, spelling_cons, Text.byteLength_append, Text.byteLength_append,
        ← Nat.add_assoc, ← Nat.add_assoc]
      exact here

/-! ## The order of tokens -/

/-- Tokens that are laid out come in order and do not overlap. -/
theorem pairwise_tokensFrom {start : Nat} {ps : List Piece}
    (fits : start + byteLength (spelling ps) ≤ maxOffset) :
    (tokensFrom start ps).Pairwise fun t u => t.range.stop ≤ u.range.location := by
  induction ps generalizing start with
  | nil => exact .nil
  | cons p ps ih =>
      rw [spelling_cons, Text.byteLength_append, ← Nat.add_assoc] at fits
      cases p with
      | gap kind cs => exact ih fits
      | token kind cs =>
          rw [Piece.chars] at fits
          refine .cons ?_ (ih fits)
          intro u member
          calc (Token.laidOut start kind cs).range.stop
              = start + byteLength cs := (Token.range_laidOut _ _ _ (by omega)).2.1
            _ ≤ u.range.location := (bounds_of_mem_tokensFrom fits member).1

/-! ## The partition -/

/-- A source at offset `base`, as a first gap and then tokens, each with the gap behind it. -/
structure Partition (source : String) (base : Nat) (first : List Piece)
    (later : List (Token × List Piece)) : Prop where
  /-- Nothing is lost and nothing is added. -/
  spelled : spelling (weave first later) = source.toList
  first_gap : ∀ p ∈ first, p.isGap = true
  later_gaps : ∀ e ∈ later, ∀ p ∈ e.2, p.isGap = true
  text_ne_empty : ∀ e ∈ later, e.1.text ≠ ""
  /-- A token stands where its characters stand. -/
  location_eq : ∀ {before t gap after}, later = before ++ (t, gap) :: after →
    t.range.location = base + byteLength (spelling (weave first before))
  length_eq : ∀ e ∈ later, e.1.range.length = byteLength e.1.text.toList
  trivia : ∀ {before kind chars after}, weave first later = before ++ .gap kind chars :: after →
    IsTrivia (spelling after) kind chars
  directives : ∀ {before chars after},
    weave first later = before ++ .gap .directive chars :: after → AtLineStart before

section Partition

variable {source : String} {base : Nat} {first : List Piece} {later : List (Token × List Piece)}

/-- A partition says where a token ends and cuts the source around it. -/
theorem Partition.around (partition : Partition source base first later)
    (fits : base + byteLength source.toList ≤ maxOffset) {t : Token}
    (member : t ∈ later.map (·.1)) :
    ∃ before after, source.toList = before ++ (t.text.toList ++ after) ∧
      t.range.location = base + byteLength before ∧
      t.range.stop = base + byteLength before + byteLength t.text.toList := by
  obtain ⟨e, inside, rfl⟩ := List.mem_map.1 member
  obtain ⟨before, after, rfl⟩ := List.append_of_mem inside
  have spelled := partition.spelled
  rw [weave_append first before after e.1 e.2, spelling_append, spelling_cons,
    Piece.chars] at spelled
  have location := partition.location_eq rfl
  have length := partition.length_eq _ inside
  rw [← spelled, Text.byteLength_append, Text.byteLength_append] at fits
  refine ⟨_, _, spelled.symm, location, ?_⟩
  rw [SourceRange.stop, location, length]
  exact clampOffset_of_le (by omega)

/-- The range of a token cuts the text of the token out of the source. -/
theorem Partition.slice?_eq (partition : Partition source base first later)
    (fits : base + byteLength source.toList ≤ maxOffset) {t : Token}
    (member : t ∈ later.map (·.1)) :
    (SourceRange.ofBounds (t.range.location - base) (t.range.stop - base)).slice? source =
      some t.text := by
  obtain ⟨before, after, whole, location, stop⟩ := partition.around fits member
  rw [whole, Text.byteLength_append, Text.byteLength_append] at fits
  have found := SourceRange.slice?_eq
    (r := .ofBounds (t.range.location - base) (t.range.stop - base)) whole
    (by rw [SourceRange.location_ofBounds (by omega)]; omega)
    (by rw [SourceRange.stop_ofBounds (by omega) (by omega)]; omega)
  rwa [String.ofList_toList] at found

end Partition

/-- The pieces of a source, woven apart, are a partition of it. -/
theorem partition_of_weave {source : String} {base : Nat} {first : List Piece}
    {later : List (Token × List Piece)} (fits : base + byteLength source.toList ≤ maxOffset)
    (woven : weave first later = pieces source.toList)
    (tokens : later.map (·.1) = tokenize source base) (firstGap : ∀ p ∈ first, p.isGap = true)
    (laterGaps : ∀ e ∈ later, ∀ p ∈ e.2, p.isGap = true) : Partition source base first later := by
  have spelled : spelling (weave first later) = source.toList := by
    rw [woven, spelling_pieces]
  have read : ∀ {before p after}, weave first later = before ++ p :: after →
      p.ReadAt (lineStartBehind true before) (spelling after) := fun split =>
    readAt_of_piecesFrom (woven.symm.trans split)
  have placed : ∀ {before t gap after}, later = before ++ (t, gap) :: after →
      t = .laidOut (base + byteLength (spelling (weave first before))) t.kind t.text.toList ∧
        base + byteLength (spelling (weave first before)) + byteLength t.text.toList ≤
          maxOffset := by
    rintro before t gap after rfl
    refine ⟨?_, ?_⟩
    · rw [tokenize, ← woven] at tokens
      exact eq_laidOut_of_weave firstGap (fun e member => laterGaps e (by simp [member])) tokens
    · rw [← spelled, weave_append, spelling_append, spelling_cons, Text.byteLength_append,
        Text.byteLength_append, Piece.chars] at fits
      omega
  refine ⟨spelled, firstGap, laterGaps, ?_, ?_, ?_, fun split => (read split).isTrivia, ?_⟩
  · rintro ⟨t, gap⟩ member empty
    obtain ⟨before, after, rfl⟩ := List.append_of_mem member
    obtain ⟨c, cs, chars, -⟩ := read (weave_append ..)
    have nothing : t.text.toList = [] := by
      rw [show t.text = "" from empty]
      rfl
    exact absurd chars (by simp [Piece.chars, nothing])
  · intro before t gap after split
    obtain ⟨same, inside⟩ := placed split
    rw [same]
    exact (Token.range_laidOut _ _ _ inside).1
  · rintro ⟨t, gap⟩ member
    obtain ⟨before, after, split⟩ := List.append_of_mem member
    obtain ⟨same, inside⟩ := placed split
    have length := congrArg (·.range.length) same
    exact length.trans (SourceRange.length_clamped (by omega))
  · intro before chars after split
    cases Piece.readAt_gap_iff.1 (read split) with
    | directive start => exact atLineStart_of_lineStartBehind start

section Lexed

variable {source : String} {base : Nat} (fits : base + byteLength source.toList ≤ maxOffset)
include fits

/-- The tokens of a source are those of a partition of it. -/
theorem exists_partition :
    ∃ first later, later.map (·.1) = tokenize source base ∧ Partition source base first later := by
  obtain ⟨first, later, woven, tokens, firstGap, laterGaps⟩ :=
    exists_weave base (pieces source.toList)
  change later.map (·.1) = tokenize source base at tokens
  exact ⟨first, later, tokens, partition_of_weave fits woven tokens firstGap laterGaps⟩

/-- A token stands where its text stands. -/
theorem exists_split_of_mem_tokenize {t : Token} (member : t ∈ tokenize source base) :
    ∃ before after, source.toList = before ++ (t.text.toList ++ after) ∧
      t.range.location = base + byteLength before ∧
      t.range.stop = base + byteLength before + byteLength t.text.toList := by
  obtain ⟨first, later, tokens, partition⟩ := exists_partition fits
  rw [← tokens] at member
  exact partition.around fits member

theorem text_ne_empty_of_mem_tokenize {t : Token} (member : t ∈ tokenize source base) :
    t.text ≠ "" := by
  obtain ⟨first, later, tokens, partition⟩ := exists_partition fits
  rw [← tokens] at member
  obtain ⟨e, inside, rfl⟩ := List.mem_map.1 member
  exact partition.text_ne_empty e inside

theorem location_lt_stop_of_mem_tokenize {t : Token} (member : t ∈ tokenize source base) :
    t.range.location < t.range.stop := by
  obtain ⟨before, after, -, location, stop⟩ := exists_split_of_mem_tokenize fits member
  have positive : 0 < byteLength t.text.toList := by
    refine Nat.pos_of_ne_zero fun zero => text_ne_empty_of_mem_tokenize fits member ?_
    exact String.toList_eq_nil_iff.1 (Text.byteLength_eq_zero.1 zero)
  omega

/-- The tokens of a source stand in order. -/
theorem pairwise_tokenize : (tokenize source base).Pairwise fun t u =>
    t.range.location < u.range.location ∧ t.range.stop ≤ u.range.location := by
  have total : byteLength (spelling (pieces source.toList)) = byteLength source.toList :=
    congrArg byteLength (flatten_pieces source.toList)
  have ordered : (tokenize source base).Pairwise fun t u => t.range.stop ≤ u.range.location :=
    pairwise_tokensFrom (by omega)
  refine ordered.imp_of_mem fun member _ apart => ⟨?_, apart⟩
  exact Nat.lt_of_lt_of_le (location_lt_stop_of_mem_tokenize fits member) apart

end Lexed

/-- **Lexing is a lossless partition of the source.** The tokens of a source that ends at
an offset, with the gaps between them, are the source; their ranges come in order, overlap
nowhere and cut their texts out of the source again. -/
theorem exists_partition_tokenize {source : String} {base : Nat}
    (fits : base + byteLength source.toList ≤ maxOffset) :
    ∃ first later, later.map (·.1) = tokenize source base ∧ Partition source base first later ∧
      (tokenize source base).Pairwise (fun t u => t.range.location < u.range.location ∧
        t.range.stop ≤ u.range.location) ∧
      ∀ t ∈ tokenize source base,
        (SourceRange.ofBounds (t.range.location - base) (t.range.stop - base)).slice? source =
          some t.text := by
  obtain ⟨first, later, tokens, partition⟩ := exists_partition fits
  refine ⟨first, later, tokens, partition, pairwise_tokenize fits, ?_⟩
  intro t member
  rw [← tokens] at member
  exact partition.slice?_eq fits member

/-- A preprocessor line that goes on, a comment, and a method on a line with another comment. -/
def guardedSource : String := "#define A \\\n b\n// c\n- /* d */ (void)é;"

theorem exists_partition_tokenize_guarded :
    ∃ first later, Partition guardedSource 7 first later ∧
      later.map (fun e => (e.1.text, e.1.range.location)) =
        [("-", 27), ("(", 37), ("void", 38), (")", 42), ("é", 43), (";", 45)] := by
  have fits : 7 + byteLength guardedSource.toList ≤ maxOffset := by decide
  obtain ⟨first, later, tokens, partition, -, -⟩ := exists_partition_tokenize fits
  refine ⟨first, later, partition, ?_⟩
  have listed : (tokenize guardedSource 7).map (fun t => (t.text, t.range.location)) =
      [("-", 27), ("(", 37), ("void", 38), (")", 42), ("é", 43), (";", 45)] := by
    decide +kernel
  rw [← listed, ← tokens, List.map_map]
  rfl

end ProtocolFakes
