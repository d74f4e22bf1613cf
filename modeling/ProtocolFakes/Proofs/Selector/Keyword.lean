import ProtocolFakes.Proofs.Selector.Pairing
import ProtocolFakes.Proofs.Text.Boundary
import ProtocolFakes.Proofs.Token.Writing

/-!
# Keywords that a rename accepts

Two rules say what an identifier is.  A rename looks at a text as a whole: a letter, an underscore
or a dollar sign, and then only these and digits.  The cutter does not know where an identifier
ends; it skips what is a gap, looks at the next character, and takes what may continue.  Both
agree on every text (`tokenize_eq_identifierAt_iff`), so a rename accepts just what is read as one
identifier from its first byte to its last.

What stands around an identifier is refused with it: of a text with a blank, a comment or an at
sign in it, no identifier is the whole.

Main theorem: `renameAt_accepts_iff`.
-/

namespace ProtocolFakes

set_option autoImplicit false

/-! ## Texts that are one identifier -/

/-- A word is cut into itself. -/
theorem pieces_of_isIdentifierWord {word : List Char} (isWord : isIdentifierWord word = true) :
    pieces word = [.token .identifier word] := by
  have ends : EndsWord [] := by simp [EndsWord]
  have cuts : Cuts true [.token .identifier word] [] := ⟨readAt_word isWord ends true, trivial⟩
  have spelled : spelling [.token .identifier word] = word := List.append_nil word
  rw [← cuts.pieces_eq, spelled]

/-- **A text is lexed as one identifier, from its start to its end, exactly if it is a word.** -/
theorem tokenize_eq_identifierAt_iff {word : String} {base : Nat} :
    tokenize word base = [.identifierAt word base] ↔ isIdentifierWord word.toList = true := by
  constructor
  · intro lexed
    have member : Token.identifierAt word base ∈ tokenize word base := by
      rw [lexed]
      exact List.mem_singleton_self _
    exact isIdentifierWord_of_mem_tokenize member rfl
  · intro isWord
    rw [tokenize, pieces_of_isIdentifierWord isWord, tokensFrom_token, Token.laidOut,
      String.ofList_toList]
    rfl

/-- The identifier at the start of a text is as long as the text. -/
theorem Token.identifierAt_zero {word : String} (sized : word.utf8ByteSize ≤ maxOffset) :
    identifierAt word 0 = ⟨.identifier, word, ⟨0, word.utf8ByteSize, Nat.zero_le _, sized⟩⟩ := by
  have length : Text.byteLength word.toList = word.utf8ByteSize := Text.byteLength_toList word
  refine Token.ext rfl rfl (SourceRange.ext ?_ ?_)
  · exact SourceRange.location_clamped (Nat.zero_le _)
  · exact (SourceRange.length_clamped (length ▸ sized)).trans length

/-! ## Renaming -/

namespace Selector

/-- **A rename accepts exactly what the lexer reads as an identifier.** At an index of any
selector, a text that is not empty is accepted as a keyword if the lexer makes one token of it, an
identifier with the whole text and the range of the whole text.  Every other text is refused as a
keyword. -/
theorem renameAt_accepts_iff {s : Selector} {i : Nat} {word : String}
    (inRange : i < s.components.length) (nonempty : word ≠ "") :
    ((∃ e, s.renameAt i word = .ok e) ↔ tokenize word 0 = [.identifierAt word 0]) ∧
    (tokenize word 0 ≠ [.identifierAt word 0] →
      s.renameAt i word = .error (.invalidKeyword word)) ∧
    ∀ sized : word.utf8ByteSize ≤ maxOffset, Token.identifierAt word 0 =
      ⟨.identifier, word, ⟨0, word.utf8ByteSize, Nat.zero_le _, sized⟩⟩ := by
  have refused : isIdentifierWord word.toList = false →
      s.renameAt i word = .error (.invalidKeyword word) := fun noWord =>
    renameAt_eq_error_iff.2 (.noWord inRange nonempty noWord)
  simp only [ne_eq, tokenize_eq_identifierAt_iff, Bool.not_eq_true]
  refine ⟨⟨?_, ?_⟩, refused, Token.identifierAt_zero⟩
  · rintro ⟨e, renamed⟩
    by_contra noWord
    rw [refused (Bool.eq_false_iff.2 noWord)] at renamed
    cases renamed
  · intro isWord
    have allowed : allowsKeyword s.components[i] word = true := by
      simp [allowsKeyword, nonempty, isWord]
    exact ⟨_, renameAt_eq_ok_iff.2 ⟨_, List.getElem?_eq_getElem inRange, allowed, rfl⟩⟩

/-- The method `- (void)setName:(id)name age:(int)age`. -/
def nameAndAge : Selector :=
  ⟨[⟨"setName", true, .clamped 8 16⟩, ⟨"age", true, .clamped 25 12⟩],
    [⟨"id", "name", .clamped 16 8⟩, ⟨"int", "age", .clamped 29 8⟩], "void", .clamped 0 37⟩

theorem renameAt_accepts_iff_nameAndAge :
    nameAndAge.WellFormed ∧ 1 < nameAndAge.components.length ∧ "$_9" ≠ "" ∧ "/**/years" ≠ "" ∧
      tokenize "$_9" 0 = [⟨.identifier, "$_9", ⟨0, 3, by decide, by decide⟩⟩] ∧
      (∃ e, nameAndAge.renameAt 1 "$_9" = .ok e) ∧
      tokenize "/**/years" 0 = [⟨.identifier, "years", ⟨4, 5, by decide, by decide⟩⟩] ∧
      nameAndAge.renameAt 1 "/**/years" = .error (.invalidKeyword "/**/years") := by
  have formed : nameAndAge.WellFormed := (firstDefect?_eq_none_iff nameAndAge).1 (by decide)
  have inRange : 1 < nameAndAge.components.length := by decide
  have whole : tokenize "$_9" 0 = [.identifierAt "$_9" 0] := by decide +kernel
  have behind : tokenize "/**/years" 0 =
      [⟨.identifier, "years", ⟨4, 5, by decide, by decide⟩⟩] := by decide +kernel
  obtain ⟨accepted, -, range⟩ := renameAt_accepts_iff inRange (by decide : "$_9" ≠ "")
  obtain ⟨-, refused, -⟩ := renameAt_accepts_iff inRange (by decide : "/**/years" ≠ "")
  refine ⟨formed, inRange, by decide, by decide, ?_, accepted.2 whole, behind, refused ?_⟩
  · rw [whole, range (by decide)]
    rfl
  · rw [behind]
    decide

-- A digit in front, an at sign, a blank behind and a letter outside ASCII are refused as well.
example : ["2x", "@x", "x ", "é"].filter (isIdentifierWord ·.toList) = [] := by decide

end Selector

end ProtocolFakes
