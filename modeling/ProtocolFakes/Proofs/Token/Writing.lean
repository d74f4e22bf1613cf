import ProtocolFakes.Proofs.Token.Respelling

/-!
# Texts that are read as they were written

`ReadsAs text follows P` says that a text is read in the same way wherever it stands
behind a token: in front of any text that `follows` allows, the cutter takes it
apart by itself, and the tokens it is taken apart into satisfy `P`.  Two such texts,
one after the other, are one again, if the second may follow the first
(`ReadsAs.append`).

Punctuation, words, spaces and the spelling of tokens that came from a source are
all read as they were written.  A declaration is put together from them.
-/

namespace ProtocolFakes

set_option autoImplicit false

open Text (byteLength)

theorem EndsWithToken.space_cons {qs : List Piece} (last : EndsWithToken qs) (ne : qs ≠ []) :
    EndsWithToken (.space :: qs) := by
  obtain ⟨q, qs, rfl⟩ := List.exists_cons_of_ne_nil ne
  rw [EndsWithToken, List.getLast?_cons_cons]
  exact last

/-- A text that is read, in front of a text that `follows` allows, as tokens of
which `P` holds, wherever it stands behind a token. -/
def ReadsAs (text : List Char) (follows : List Char → Prop) (P : List Token → Prop) : Prop :=
  ∃ qs, spelling qs = text ∧ EndsWithToken qs ∧
    (∀ rest, follows rest → Cuts false qs rest) ∧
    ∀ start, start + byteLength text ≤ maxOffset → P (tokensFrom start qs)

/-! ## Putting texts together -/

/-- **Two texts are read one after the other**, if the second may follow the first. -/
theorem ReadsAs.append {text text' : List Char} {follows follows' : List Char → Prop}
    {P P' : List Token → Prop} (reads : ReadsAs text follows P)
    (reads' : ReadsAs text' follows' P')
    (mayFollow : ∀ rest, follows' rest → follows (text' ++ rest)) :
    ReadsAs (text ++ text') follows' fun ts => ∃ us vs, ts = us ++ vs ∧ P us ∧ P' vs := by
  obtain ⟨ps, rfl, last, cuts, holds⟩ := reads
  obtain ⟨qs, rfl, last', cuts', holds'⟩ := reads'
  refine ⟨ps ++ qs, spelling_append .., last.append last', ?_, ?_⟩
  · intro rest allowed
    rw [cuts_append, last.lineStartBehind_eq fun _ => rfl]
    exact ⟨cuts _ (mayFollow rest allowed), cuts' rest allowed⟩
  · intro start fits
    rw [Text.byteLength_append] at fits
    exact ⟨_, _, tokensFrom_append .., holds start (by omega), holds' _ (by omega)⟩

theorem ReadsAs.imp {text : List Char} {follows : List Char → Prop} {P Q : List Token → Prop}
    (reads : ReadsAs text follows P) (weaker : ∀ ts, P ts → Q ts) : ReadsAs text follows Q := by
  obtain ⟨qs, spelled, last, cuts, holds⟩ := reads
  exact ⟨qs, spelled, last, cuts, fun start fits => weaker _ (holds start fits)⟩

/-- The empty text is read as no tokens. -/
theorem readsAs_nil (follows : List Char → Prop) : ReadsAs [] follows (· = []) :=
  ⟨[], rfl, by simp [EndsWithToken], fun _ _ => trivial, fun _ _ => rfl⟩

/-- A space in front changes nothing. -/
theorem ReadsAs.space_cons {text : List Char} {follows : List Char → Prop}
    {P : List Token → Prop} (reads : ReadsAs text follows P) (ne : text ≠ []) :
    ReadsAs (' ' :: text) follows P := by
  obtain ⟨qs, rfl, last, cuts, holds⟩ := reads
  have pieces : qs ≠ [] := by
    rintro rfl
    exact ne rfl
  refine ⟨.space :: qs, rfl, last.space_cons pieces,
    fun rest allowed => ⟨readAt_space .., cuts rest allowed⟩, fun start fits => holds _ ?_⟩
  rw [Text.byteLength_cons] at fits
  simp only [Text.byteLength_cons, Text.byteLength_nil]
  omega

/-! ## Punctuation and words -/

/-- A character that is punctuation whatever follows it. -/
def IsPlain (c : Char) : Prop :=
  c ≠ '\n' ∧ Text.isBlank c = false ∧ c ≠ '/' ∧ c ≠ '#' ∧ isIdentStart c = false ∧
    c.isDigit = false ∧ c ≠ '"' ∧ c ≠ '@' ∧ c ≠ '.'

instance (c : Char) : Decidable (IsPlain c) := inferInstanceAs (Decidable (_ ∧ _))

theorem readAt_plain {c : Char} (plain : IsPlain c) (lineStart : Bool) (rest : List Char) :
    (Piece.token .punct [c]).ReadAt lineStart rest := by
  obtain ⟨notNewline, notBlank, notSlash, notHash, notWord, notDigit, notQuote, notAt, notPoint⟩ :=
    plain
  exact Piece.readAt_token_iff.2
    ⟨⟨notNewline, notBlank, fun slash => absurd slash notSlash, fun hash => absurd hash notHash⟩,
      .punct notWord notDigit notQuote (fun isAt => absurd isAt notAt)
        fun isPoint => absurd isPoint notPoint⟩

/-- Plain punctuation is read as a token of its own. -/
theorem readsAs_plain {c : Char} (plain : IsPlain c) :
    ReadsAs [c] (fun _ => True) fun ts => ∃ t, ts = [t] ∧ t.isPunct c = true :=
  ⟨[.token .punct [c]], rfl, endsWithToken_singleton _ _,
    fun rest _ => ⟨readAt_plain plain _ _, trivial⟩,
    fun start _ => ⟨_, rfl, by simp [Token.isPunct]⟩⟩

/-- A text in front of which a word ends. -/
def EndsWord (rest : List Char) : Prop := ∀ d ∈ rest.head?, isIdentContinue d = false

theorem BreaksOff.endsWord {rest : List Char} (breaks : BreaksOff rest) : EndsWord rest :=
  fun d head => (breaks d head).1

theorem isBlank_eq_false_of_isIdentContinue {c : Char} (continues : isIdentContinue c = true) :
    Text.isBlank c = false := by
  have bounds : 33 ≤ c.toNat ∧ c.toNat ≤ 126 := by
    unfold isIdentContinue Char.isAlphanum Char.isAlpha Char.isUpper Char.isLower Char.isDigit
      at continues
    simp only [Bool.or_eq_true, Bool.and_eq_true, decide_eq_true_eq, beq_iff_eq,
      UInt32.le_iff_toNat_le] at continues
    rcases continues with (((upper | lower) | digit) | rfl) | rfl
    · change _ ≤ c.toNat ∧ c.toNat ≤ _ at upper
      simp at upper
      omega
    · change _ ≤ c.toNat ∧ c.toNat ≤ _ at lower
      simp at lower
      omega
    · change _ ≤ c.toNat ∧ c.toNat ≤ _ at digit
      simp at digit
      omega
    · decide
    · decide
  simp [Text.isBlank, Text.blankRanges]
  omega

theorem isBlank_eq_false_of_isIdentStart {c : Char} (start : isIdentStart c = true) :
    Text.isBlank c = false :=
  isBlank_eq_false_of_isIdentContinue (isIdentContinue_of_isIdentStart start)

theorem startsToken_of_isIdentStart {c : Char} (start : isIdentStart c = true)
    (lineStart : Bool) (rest : List Char) : StartsToken lineStart c rest where
  not_newline := by
    rintro rfl
    exact absurd start (by decide)
  not_blank := isBlank_eq_false_of_isIdentStart start
  not_comment := by
    rintro rfl
    exact absurd start (by decide)
  not_directive := by
    rintro rfl
    exact absurd start (by decide)

/-- Each character of a word may continue one. -/
theorem isIdentContinue_of_mem_word {word : List Char} (isWord : isIdentifierWord word = true)
    {c : Char} (member : c ∈ word) : isIdentContinue c = true := by
  cases word with
  | nil => cases member
  | cons d ds =>
      simp only [isIdentifierWord, Bool.and_eq_true, List.all_eq_true] at isWord
      rcases List.mem_cons.1 member with rfl | later
      · exact isIdentContinue_of_isIdentStart isWord.1
      · exact isWord.2 c later

theorem readAt_word {word rest : List Char} (isWord : isIdentifierWord word = true)
    (ends : EndsWord rest) (lineStart : Bool) :
    (Piece.token .identifier word).ReadAt lineStart rest := by
  cases word with
  | nil => cases isWord
  | cons c cs =>
      simp only [isIdentifierWord, Bool.and_eq_true, List.all_eq_true] at isWord
      exact Piece.readAt_token_iff.2 ⟨startsToken_of_isIdentStart isWord.1 _ _,
        .identifier isWord.1 isWord.2 ends⟩

/-- A word is read as an identifier. -/
theorem readsAs_word {word : List Char} (isWord : isIdentifierWord word = true) :
    ReadsAs word EndsWord fun ts =>
      ∃ t, ts = [t] ∧ t.isIdentifier = true ∧ t.text = String.ofList word :=
  ⟨[.token .identifier word], by simp [Piece.chars], endsWithToken_singleton _ _,
    fun _ ends => ⟨readAt_word isWord ends false, trivial⟩,
    fun _ _ => ⟨_, rfl, rfl, rfl⟩⟩

/-- An identifier that was cut from a source is a word. -/
theorem ReadsToken.isIdentifierWord {rest chars : List Char}
    (reads : ReadsToken rest .identifier chars) : isIdentifierWord chars = true := by
  cases reads with
  | identifier start word ends =>
      simp only [ProtocolFakes.isIdentifierWord, start, Bool.true_and, List.all_eq_true]
      exact word

/-- An identifier among the tokens of a source is a word. -/
theorem isIdentifierWord_of_mem_tokenize {source : String} {base : Nat} {t : Token}
    (member : t ∈ tokenize source base) (identifier : t.isIdentifier = true) :
    isIdentifierWord t.text.toList = true := by
  obtain ⟨-, c, cs, rest, chars, -, reads⟩ := exists_readsToken_of_mem_tokenize member
  rw [show t.kind = .identifier by simpa [Token.isIdentifier] using identifier] at reads
  rw [chars]
  exact reads.isIdentifierWord

/-! ## Spellings -/

theorem endsWithToken_spellPiecesAfter (stop : Nat) (ts : List Token) :
    EndsWithToken (spellPiecesAfter stop ts) := by
  induction ts generalizing stop with
  | nil => simp [EndsWithToken, spellPiecesAfter]
  | cons t ts ih =>
      have fromToken := (endsWithToken_singleton t.kind t.text.toList).append (ih t.range.stop)
      rw [spellPiecesAfter_cons]
      split
      · exact fromToken.space_cons (List.cons_ne_nil _ _)
      · exact fromToken

/-- **The spelling of tokens from a source is read as those tokens** and spelled the
same way again. -/
theorem readsAs_spell {lineStart : Bool} {start : Nat} {ps : List Piece} {a : List Char}
    (cuts : Cuts lineStart ps a) (fits : start + byteLength (spelling ps) ≤ maxOffset)
    (closed : ∀ t ∈ tokensFrom start ps, t.isClosed = true) :
    ReadsAs (Token.spell (tokensFrom start ps)).toList BreaksOff fun ts =>
      ts.map Token.lexeme = (tokensFrom start ps).map Token.lexeme ∧
        Token.spell ts = Token.spell (tokensFrom start ps) := by
  refine ⟨spellPieces (tokensFrom start ps), spelling_spellPieces _, ?_,
    fun rest breaks => cuts_spellPieces cuts fits (closedBefore_of_forall rest closed) breaks,
    fun start fits => ⟨lexemes_spellPieces .., spell_tokensFrom_spellPieces fits⟩⟩
  cases tokensFrom start ps with
  | nil => simp [EndsWithToken, spellPieces]
  | cons t ts =>
      exact (endsWithToken_singleton _ _).append (endsWithToken_spellPiecesAfter _ _)

end ProtocolFakes
