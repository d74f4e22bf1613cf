import Mathlib.Data.List.Induction
import ProtocolFakes.Proofs.Text.Words
import ProtocolFakes.Proofs.Token.Slice
import ProtocolFakes.Proofs.Token.Writing

/-!
# Spellings without quoted texts

The spelling of tokens without quoted texts is made of bare pieces: tokens that are no quoted
texts, and single spaces (`isBare_of_mem_spellPieces`).  Bare pieces are cut again in front of any
text that looks like the old one (`Cuts.of_looksAlike`), and behind plain punctuation anything may
follow (`Cuts.of_plain`).

What stands in such a spelling can be found in its pieces.  A character that is plain punctuation
is a piece of its own wherever it occurs, so a spelling that is cut there is cut between pieces
(`Cuts.exists_plain`).  No token has a blank in it, so what is trimmed off is spaces
(`Cuts.exists_trim`).
-/

namespace ProtocolFakes

set_option autoImplicit false

open Text (IsWord)

/-! ## Lexemes of pieces -/

/-- The class and the text of a piece that is a token. -/
def Piece.lexeme? : Piece → Option (TokenKind × String)
  | .token kind chars => some (kind, String.ofList chars)
  | .gap .. => none

/-- The tokens that are laid out have the classes and texts of their pieces. -/
theorem lexemes_tokensFrom_eq (start : Nat) (ps : List Piece) :
    (tokensFrom start ps).map Token.lexeme = ps.filterMap Piece.lexeme? := by
  induction ps generalizing start with
  | nil => rfl
  | cons p ps ih =>
      cases p with
      | token kind chars =>
          rw [tokensFrom_token, List.map_cons, ih]
          rfl
      | gap kind chars => exact ih _

theorem lexemes_spellPieces_eq (ts : List Token) :
    (spellPieces ts).filterMap Piece.lexeme? = ts.map Token.lexeme := by
  rw [← lexemes_tokensFrom_eq 0, lexemes_spellPieces]

/-- **A text that is cut from its start has the tokens of its pieces**, if it begins with a token
other than a hash sign. -/
theorem Cuts.lexemes_tokenize {qs : List Piece} {kind : TokenKind} {chars : List Char}
    (cuts : Cuts false qs []) (first : qs.head? = some (.token kind chars))
    (notHash : String.ofList chars ≠ "#") :
    (tokenize (String.ofList (spelling qs)) 0).map Token.lexeme =
      qs.filterMap Piece.lexeme? := by
  obtain ⟨ps, rfl⟩ := List.head?_eq_some_iff.1 first
  rw [tokenize, String.toList_ofList, cuts.pieces_eq_of_token notHash, lexemes_tokensFrom_eq]

/-! ## Characters of tokens -/

theorem IsPlain.isIdentContinue_eq_false {c : Char} (plain : IsPlain c) :
    isIdentContinue c = false := by
  obtain ⟨-, -, -, -, notStart, notDigit, -⟩ := plain
  simp only [isIdentStart, Bool.or_eq_false_iff] at notStart
  simp [isIdentContinue, Char.isAlphanum, notStart, notDigit]

theorem isBlank_eq_false_of_isNumberContinue {c : Char} (continues : isNumberContinue c = true) :
    Text.isBlank c = false := by
  rw [isNumberContinue, Bool.or_eq_true] at continues
  rcases continues with ordinary | point
  · exact isBlank_eq_false_of_isIdentContinue (by simp [isIdentContinue, ordinary])
  · rw [beq_iff_eq.1 point]
    decide

/-- **Plain punctuation is in no longer token**, quoted texts apart. -/
theorem ReadsToken.eq_punct {rest chars : List Char} {kind : TokenKind} {c : Char}
    (reads : ReadsToken rest kind chars) (noQuote : kind ≠ .stringLiteral) (plain : IsPlain c)
    (member : c ∈ chars) : Piece.token kind chars = .token .punct [c] := by
  have notContinue := plain.isIdentContinue_eq_false
  obtain ⟨-, -, -, -, notStart, notDigit, -, notAt, notPoint⟩ := plain
  have inWord : ∀ cs : List Char, (∀ d ∈ cs, isIdentContinue d = true) → c ∉ cs := by
    intro cs word inside
    rw [word c inside] at notContinue
    cases notContinue
  cases reads with
  | identifier start word ends =>
      rcases List.mem_cons.1 member with rfl | later
      · rw [start] at notStart
        cases notStart
      · exact absurd later (inWord _ word)
  | number notWord digit word ends =>
      rcases List.mem_cons.1 member with rfl | later
      · rw [digit] at notDigit
        cases notDigit
      · have digits := word c later
        rw [isNumberContinue_eq_false notContinue notPoint] at digits
        cases digits
  | quoted scanned => exact absurd rfl noQuote
  | atQuoted scanned => exact absurd rfl noQuote
  | atKeyword start word ends =>
      rcases List.mem_cons.1 member with rfl | later
      · exact absurd rfl notAt
      · refine absurd later (inWord _ ?_)
        exact List.forall_mem_cons.2 ⟨isIdentContinue_of_isIdentStart start, word⟩
  | ellipsis => exact absurd (by simpa using member) notPoint
  | punct => rw [List.mem_singleton.1 member]

/-- **A token has no blanks**, quoted texts apart. -/
theorem Piece.ReadAt.isWord {lineStart : Bool} {kind : TokenKind} {chars rest : List Char}
    (read : (Piece.token kind chars).ReadAt lineStart rest) (noQuote : kind ≠ .stringLiteral) :
    IsWord chars := by
  obtain ⟨c, cs, split, -⟩ := id read
  obtain rfl : chars = c :: cs := split
  obtain ⟨starts, reads⟩ := readAt_token_iff.1 read
  have ofWord : ∀ ds : List Char, (∀ d ∈ ds, isIdentContinue d = true) →
      ∀ d ∈ ds, Text.isBlank d = false :=
    fun ds word d member => isBlank_eq_false_of_isIdentContinue (word d member)
  refine Text.isWord_cons starts.not_blank ?_
  cases reads with
  | identifier start word ends => exact ofWord _ word
  | number notWord digit word ends =>
      exact fun d member => isBlank_eq_false_of_isNumberContinue (word d member)
  | quoted scanned => exact absurd rfl noQuote
  | atQuoted scanned => exact absurd rfl noQuote
  | atKeyword start word ends =>
      exact ofWord _ (List.forall_mem_cons.2 ⟨isIdentContinue_of_isIdentStart start, word⟩)
  | ellipsis =>
      have points : IsWord ['.', '.'] := by decide
      exact points.not_blank
  | punct => simp

/-! ## Bare pieces -/

/-- A token that is no quoted text, or one space. -/
def Piece.IsBare : Piece → Prop
  | .token kind _ => kind ≠ .stringLiteral
  | .gap kind chars => kind = .blank ∧ chars = [' ']

theorem Piece.IsBare.eq_space {kind : GapKind} {chars : List Char}
    (bare : (Piece.gap kind chars).IsBare) : Piece.gap kind chars = .space := by
  obtain ⟨rfl, rfl⟩ := bare
  rfl

/-- Behind a token there may be a space in front of the spelling of the other tokens. -/
theorem exists_spellPiecesAfter_eq (stop : Nat) (ts : List Token) :
    ∃ gap, (gap = [] ∨ gap = [Piece.space]) ∧ spellPiecesAfter stop ts = gap ++ spellPieces ts := by
  cases ts with
  | nil => exact ⟨[], .inl rfl, rfl⟩
  | cons t ts =>
      refine ⟨if stop < t.range.location then [.space] else [], ?_, rfl⟩
      split
      · exact .inr rfl
      · exact .inl rfl

/-- **The pieces of a spelling without quoted texts are bare.** -/
theorem isBare_of_mem_spellPieces {ts : List Token}
    (noQuote : ∀ t ∈ ts, t.kind ≠ .stringLiteral) : ∀ q ∈ spellPieces ts, q.IsBare := by
  induction ts with
  | nil => simp [spellPieces]
  | cons t ts ih =>
      obtain ⟨first, others⟩ := List.forall_mem_cons.1 noQuote
      obtain ⟨gap, space, spelled⟩ := exists_spellPiecesAfter_eq t.range.stop ts
      rw [spellPieces_cons, spelled]
      refine List.forall_mem_cons.2 ⟨first, List.forall_mem_append.2 ⟨?_, ih others⟩⟩
      rcases space with rfl | rfl <;> simp [Piece.space, Piece.IsBare]

/-- Behind bare pieces no preprocessor line may begin where none might begin in front of them. -/
theorem lineStartBehind_of_bare {qs : List Piece} (bare : ∀ q ∈ qs, q.IsBare) :
    lineStartBehind false qs = false := by
  induction qs with
  | nil => rfl
  | cons q qs ih =>
      obtain ⟨here, others⟩ := List.forall_mem_cons.1 bare
      cases q with
      | token kind chars => exact ih others
      | gap kind chars =>
          rw [here.eq_space]
          exact ih others

theorem cuts_append_of_bare {ps qs : List Piece} {rest : List Char}
    (bare : ∀ q ∈ ps, q.IsBare) :
    Cuts false (ps ++ qs) rest ↔ Cuts false ps (spelling qs ++ rest) ∧ Cuts false qs rest := by
  rw [cuts_append, lineStartBehind_of_bare bare]

/-- **Bare pieces are cut again where the text behind them looks alike.** -/
theorem Cuts.of_looksAlike {qs : List Piece} {a b : List Char} (cuts : Cuts false qs a)
    (bare : ∀ q ∈ qs, q.IsBare) (alike : LooksAlike a b) : Cuts false qs b := by
  induction qs with
  | nil => trivial
  | cons q qs ih =>
      obtain ⟨here, others⟩ := List.forall_mem_cons.1 bare
      cases q with
      | token kind chars =>
          obtain ⟨read, later⟩ := cuts
          exact ⟨read.of_looksAlike (alike.append _) (fun quoted => absurd quoted here)
            fun _ => rfl, ih later others⟩
      | gap kind chars =>
          rw [here.eq_space] at cuts ⊢
          exact ⟨readAt_space .., ih cuts.2 others⟩

/-- **Behind plain punctuation anything may follow.** -/
theorem Cuts.of_plain {front : List Piece} {c : Char} {a : List Char}
    (cuts : Cuts false (front ++ [.token .punct [c]]) a) (bare : ∀ q ∈ front, q.IsBare)
    (plain : IsPlain c) (b : List Char) : Cuts false (front ++ [.token .punct [c]]) b := by
  rw [cuts_append_of_bare bare] at cuts ⊢
  refine ⟨cuts.1.of_looksAlike bare ?_, readAt_plain plain .., trivial⟩
  exact looksAlike_cons plain.2.2.2.2.2.2.2.2 a b

theorem Cuts.eq_nil {lineStart : Bool} {qs : List Piece} {rest : List Char}
    (cuts : Cuts lineStart qs rest) (empty : spelling qs = []) : qs = [] := by
  cases qs with
  | nil => rfl
  | cons q qs =>
      obtain ⟨c, cs, chars, -⟩ := cuts.1
      rw [spelling_cons, chars] at empty
      cases empty

/-! ## Cutting at a character -/

/-- **Plain punctuation in a spelling is a piece of its own.** -/
theorem Cuts.exists_plain {qs : List Piece} {rest u v : List Char} {c : Char}
    (cuts : Cuts false qs rest) (bare : ∀ q ∈ qs, q.IsBare) (plain : IsPlain c)
    (spelled : spelling qs = u ++ c :: v) :
    ∃ front back, qs = front ++ .token .punct [c] :: back ∧ spelling front = u ∧
      spelling back = v := by
  induction qs generalizing u with
  | nil => simp at spelled
  | cons q qs ih =>
      obtain ⟨here, bareLater⟩ := List.forall_mem_cons.1 bare
      have cutsLater : Cuts false qs rest := by
        rw [← List.singleton_append, cuts_append_of_bare (by simpa using here)] at cuts
        exact cuts.2
      have behind : ∀ w, u = q.chars ++ w → spelling qs = w ++ c :: v →
          ∃ front back, q :: qs = front ++ .token .punct [c] :: back ∧ spelling front = u ∧
            spelling back = v := by
        intro w split rest
        obtain ⟨front, back, rfl, spelledFront, spelledBack⟩ := ih cutsLater bareLater rest
        exact ⟨q :: front, back, rfl, by rw [spelling_cons, spelledFront, split], spelledBack⟩
      rw [spelling_cons] at spelled
      rcases List.append_eq_append_iff.1 spelled with ⟨w, split, tail⟩ | ⟨w, split, tail⟩
      · exact behind w split tail
      · cases w with
        | nil => exact behind [] (by simpa using split.symm) tail.symm
        | cons d w =>
            obtain ⟨rfl, later⟩ := List.cons.inj tail
            have member : c ∈ q.chars := split ▸ List.mem_append_right u (List.mem_cons_self ..)
            have alone : q = .token .punct [c] := by
              cases q with
              | token kind chars =>
                  obtain ⟨e, cs, chars, -⟩ := id cuts.1
                  obtain rfl := chars
                  exact (Piece.readAt_token_iff.1 cuts.1).2.eq_punct here plain member
              | gap kind chars =>
                  rw [here.eq_space] at member
                  rw [List.mem_singleton.1 member] at plain
                  exact absurd plain (by decide)
            subst alone
            obtain ⟨rfl, ends⟩ : u = [] ∧ [] = w := by
              cases u with
              | nil => exact ⟨rfl, (List.cons.inj split).2⟩
              | cons e u => cases u <;> cases (List.cons.inj split).2
            subst ends
            exact ⟨[], qs, rfl, rfl, later.symm⟩

/-! ## Trimming -/

theorem Cuts.exists_trimStart {qs : List Piece} {rest : List Char} (cuts : Cuts false qs rest)
    (bare : ∀ q ∈ qs, q.IsBare) :
    ∃ spaces ps, qs = spaces ++ ps ∧ (∀ q ∈ spaces, q = .space) ∧
      Text.trimStart (spelling qs) = spelling ps := by
  induction qs with
  | nil => exact ⟨[], [], rfl, by simp, rfl⟩
  | cons q qs ih =>
      obtain ⟨here, others⟩ := List.forall_mem_cons.1 bare
      cases q with
      | token kind chars =>
          refine ⟨[], _, rfl, by simp, ?_⟩
          exact (cuts.1.isWord here).trimStart_append (spelling qs)
      | gap kind chars =>
          rw [here.eq_space] at cuts ⊢
          obtain ⟨spaces, ps, rfl, all, trimmed⟩ := ih cuts.2 others
          exact ⟨.space :: spaces, ps, rfl, List.forall_mem_cons.2 ⟨rfl, all⟩, trimmed⟩

theorem Cuts.exists_trimEnd {qs : List Piece} {rest : List Char} (cuts : Cuts false qs rest)
    (bare : ∀ q ∈ qs, q.IsBare) :
    ∃ ps spaces, qs = ps ++ spaces ∧ (∀ q ∈ spaces, q = .space) ∧
      Text.trimEnd (spelling qs) = spelling ps := by
  induction qs using List.reverseRecOn generalizing rest with
  | nil => exact ⟨[], [], rfl, by simp, rfl⟩
  | append_singleton qs q ih =>
      obtain ⟨bareFront, bareLast⟩ := List.forall_mem_append.1 bare
      have here := bareLast q (List.mem_singleton_self q)
      rw [cuts_append_of_bare bareFront] at cuts
      rw [spelling_append]
      cases q with
      | token kind chars =>
          have isWord : IsWord (spelling [.token kind chars]) := by
            simpa [Piece.chars] using cuts.2.1.isWord here
          refine ⟨qs ++ [.token kind chars], [], by simp, by simp, ?_⟩
          rw [isWord.trimEnd_append, spelling_append]
      | gap kind chars =>
          rw [here.eq_space] at cuts ⊢
          obtain ⟨ps, spaces, rfl, all, trimmed⟩ := ih cuts.1 bareFront
          refine ⟨ps, spaces ++ [.space], by simp, ?_, ?_⟩
          · exact List.forall_mem_append.2 ⟨all, by simp⟩
          · rw [← trimmed]
            have blank : Text.isBlank ' ' = true := by decide
            simp [Text.trimEnd, Piece.space, Piece.chars, blank]

/-- **What is trimmed off a spelling is spaces.** -/
theorem Cuts.exists_trim {qs : List Piece} {rest : List Char} (cuts : Cuts false qs rest)
    (bare : ∀ q ∈ qs, q.IsBare) :
    ∃ spaces ps spaces', qs = spaces ++ (ps ++ spaces') ∧
      (∀ q ∈ spaces ++ spaces', q = .space) ∧ Text.trim (spelling qs) = spelling ps := by
  obtain ⟨spaces, rs, rfl, front, start⟩ := cuts.exists_trimStart bare
  obtain ⟨bareSpaces, bareBehind⟩ := List.forall_mem_append.1 bare
  rw [cuts_append_of_bare bareSpaces] at cuts
  obtain ⟨ps, spaces', rfl, back, stop⟩ := cuts.2.exists_trimEnd bareBehind
  exact ⟨spaces, ps, spaces', rfl, List.forall_mem_append.2 ⟨front, back⟩,
    by rw [Text.trim, start, stop]⟩

/-! ## Back to the tokens -/

/-- **A token among the pieces of a spelling** is one of the tokens that were spelled, and the
pieces from it on are the spelling of the tokens from it on. -/
theorem exists_tokens_of_spellPieces_eq {ts : List Token} {front back : List Piece}
    {kind : TokenKind} {chars : List Char}
    (split : spellPieces ts = front ++ .token kind chars :: back) :
    ∃ before t after, ts = before ++ t :: after ∧ t.kind = kind ∧ t.text.toList = chars ∧
      spellPieces (t :: after) = .token kind chars :: back ∧
      before.map Token.lexeme = front.filterMap Piece.lexeme? := by
  induction ts generalizing front with
  | nil => simp [spellPieces] at split
  | cons t ts ih =>
      rcases front with _ | ⟨p, front⟩
      · obtain ⟨sameKind, sameChars⟩ := Piece.token.inj (List.cons.inj split).1
        exact ⟨[], t, ts, rfl, sameKind, sameChars, split, rfl⟩
      · obtain ⟨rfl, later⟩ := List.cons.inj split
        have first : Piece.lexeme? (.token t.kind t.text.toList) = some t.lexeme := by
          simp [Piece.lexeme?, Token.lexeme]
        -- Without the space that may be in front of it, the rest is a spelling itself.
        have further : ∃ front', spellPieces ts = front' ++ .token kind chars :: back ∧
            front.filterMap Piece.lexeme? = front'.filterMap Piece.lexeme? := by
          obtain ⟨gap, rfl | rfl, spelled⟩ := exists_spellPiecesAfter_eq t.range.stop ts
          · exact ⟨front, spelled.symm.trans later, rfl⟩
          · rw [spelled] at later
            cases front with
            | nil => cases (List.cons.inj later).1
            | cons q front =>
                obtain ⟨rfl, behind⟩ := List.cons.inj later
                exact ⟨front, behind, rfl⟩
        obtain ⟨front', behind, same⟩ := further
        obtain ⟨before, u, after, rfl, sameKind, sameChars, spelled, lexemes⟩ := ih behind
        refine ⟨t :: before, u, after, rfl, sameKind, sameChars, spelled, ?_⟩
        rw [List.map_cons, lexemes, List.filterMap_cons_some first, same]

/-- The characters of a token are among those of a spelling. -/
theorem mem_spell {ts : List Token} {t : Token} {c : Char} (member : t ∈ ts)
    (inside : c ∈ t.text.toList) : c ∈ (Token.spell ts).toList := by
  induction ts with
  | nil => cases member
  | cons u ts ih =>
      obtain ⟨gap, -, spelled⟩ := exists_spellPiecesAfter_eq u.range.stop ts
      rw [← spelling_spellPieces, spellPieces_cons, spelled, spelling_cons, spelling_append,
        spelling_spellPieces, List.mem_append, List.mem_append]
      rcases List.mem_cons.1 member with rfl | later
      · exact .inl inside
      · exact .inr (.inr (ih later))

end ProtocolFakes
