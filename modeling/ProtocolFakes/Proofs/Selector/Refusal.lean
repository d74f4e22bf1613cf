import ProtocolFakes.Failure
import ProtocolFakes.Proofs.Selector.Shift

/-!
# Refused declarations

A reader that refuses its tokens points at one of them or at the empty range behind the
last one (`PointsAt`), and the words it quotes are those of the tokens (`Quotes`).  So there
are only so many things that it may say (`Refused`), one per step at which reading may stop.
What is said of the tokens that are left is said of all tokens, which is how one lemma per
reader leads up to `refused_of_readDeclaration` and `refused_of_checkTrailer`.

**The fields of a declaration that was read are checked in vain.** Components, parameters
and ranges fit together by the way they are made, whatever the ranges of the tokens are, out
of order or overflowing.  One range alone is handed on as it is: that of a keyword that
stands alone.  The check fails exactly if it overflows (`parsed_fields_fit`), and never on the
tokens of a source that ends at an offset.
-/

namespace ProtocolFakes

set_option autoImplicit false

/-! ## What a reader may say -/

/-- A range that a reader of tokens points at: where one of them stands, or just behind the
last one, when all of them are read. -/
inductive PointsAt (ts : List Token) : SourceRange → Prop where
  | token {t : Token} (member : t ∈ ts) : PointsAt ts t.range
  | behind {t : Token} (last : ts.getLast? = some t) : PointsAt ts (behind t)

/-- A keyword that a reader of tokens quotes: an identifier among them, or nothing. -/
inductive Quotes (ts : List Token) : String → Prop where
  | nothing : Quotes ts ""
  | identifier {t : Token} (member : t ∈ ts) (isWord : t.isIdentifier = true) : Quotes ts t.text

/-- A defect that a reader of tokens may refuse them with. -/
inductive Refused (ts : List Token) : ParseError → Prop where
  | emptyInput : Refused ts .emptyInput
  | missingReturnType : Refused ts .missingReturnType
  | missingSelector {range : SourceRange} (points : PointsAt ts range) :
      Refused ts (.missingSelector range)
  | missingParameterType {keyword : String} {range : SourceRange} (quotes : Quotes ts keyword)
      (points : PointsAt ts range) : Refused ts (.missingParameterType keyword range)
  | missingParameterName {keyword : String} {range : SourceRange} (quotes : Quotes ts keyword)
      (points : PointsAt ts range) : Refused ts (.missingParameterName keyword range)
  | unbalancedParens {t : Token} (member : t ∈ ts) : Refused ts (.unbalancedParens t.range)
  | unexpectedToken {t : Token} (member : t ∈ ts) : Refused ts (.unexpectedToken t.text t.range)

section Suffix

variable {ts us : List Token} (left : us <:+ ts)
include left

theorem PointsAt.of_suffix {range : SourceRange} (points : PointsAt us range) :
    PointsAt ts range := by
  cases points with
  | token member => exact .token (left.subset member)
  | behind last =>
      obtain ⟨front, rfl⟩ := left
      exact .behind (by rw [List.getLast?_append, last, Option.some_or])

theorem Quotes.of_suffix {keyword : String} (quotes : Quotes us keyword) : Quotes ts keyword := by
  cases quotes with
  | nothing => exact .nothing
  | identifier member isWord => exact .identifier (left.subset member) isWord

/-- What is said of the tokens that are left is said of all tokens. -/
theorem Refused.of_suffix {defect : ParseError} (refused : Refused us defect) :
    Refused ts defect := by
  cases refused with
  | emptyInput => exact .emptyInput
  | missingReturnType => exact .missingReturnType
  | missingSelector points => exact .missingSelector (points.of_suffix left)
  | missingParameterType quotes points =>
      exact .missingParameterType (quotes.of_suffix left) (points.of_suffix left)
  | missingParameterName quotes points =>
      exact .missingParameterName (quotes.of_suffix left) (points.of_suffix left)
  | unbalancedParens member => exact .unbalancedParens (left.subset member)
  | unexpectedToken member => exact .unexpectedToken (left.subset member)

end Suffix

/-! ## Each reader -/

/-- The word of a keyword is quoted from the tokens that it stands in front of. -/
theorem quotes_word {keyword : Option Token} (isWord : ∀ t ∈ keyword, t.isIdentifier = true)
    (ts : List Token) : Quotes (keyword.toList ++ ts) ((keyword.map (·.text)).getD "") := by
  cases keyword with
  | none => exact .nothing
  | some k => exact .identifier (List.mem_cons_self ..) (isWord k rfl)

/-- An argument is refused at a token or behind the last one. -/
theorem refused_of_readArgument {keyword : Option Token} {colon : Token} {ts : List Token}
    {defect : ParseError} (isWord : ∀ t ∈ keyword, t.isIdentifier = true)
    (refused : readArgument keyword colon ts = .error defect) :
    Refused (keyword.toList ++ colon :: ts) defect := by
  have quotes := quotes_word isWord (colon :: ts)
  cases ts with
  | nil =>
      cases refused
      exact .missingParameterType quotes (.behind (by simp))
  | cons typeOpen ts =>
      have opening : typeOpen ∈ keyword.toList ++ colon :: typeOpen :: ts := by simp
      simp only [readArgument] at refused
      by_cases opens : typeOpen.isPunct '(' = true
      · rw [if_pos opens] at refused
        cases found : splitGroup? 0 ts with
        | none =>
            rw [found] at refused
            cases refused
            exact .unbalancedParens opening
        | some group =>
            obtain ⟨type, close, rest⟩ := group
            have split := append_of_splitGroup? found
            rw [found] at refused
            cases type with
            | nil =>
                cases refused
                exact .missingParameterType quotes (.token opening)
            | cons first type =>
                cases rest with
                | nil =>
                    cases refused
                    refine .missingParameterName quotes (.behind ?_)
                    rw [← split]
                    simp [List.getLast?_cons]
                | cons name rest =>
                    dsimp only at refused
                    split at refused
                    · cases refused
                    · cases refused
                      exact .missingParameterName quotes (.token (by simp [← split]))
      · rw [if_neg opens] at refused
        cases refused
        exact .missingParameterType quotes (.token opening)

/-- Arguments are refused at a token or behind the last one. -/
theorem refused_of_readArguments {keyword : Option Token} {colon : Token} {ts : List Token}
    {defect : ParseError} (isWord : ∀ t ∈ keyword, t.isIdentifier = true)
    (refused : readArguments keyword colon ts = .error defect) :
    Refused (keyword.toList ++ colon :: ts) defect := by
  fun_induction readArguments keyword colon ts with
  | case1 keyword colon ts inner readOne =>
      cases refused
      exact refused_of_readArgument isWord readOne
  | case2 => cases refused
  | case3 keyword colon ts a after readOne keyword' colon' after' next ih =>
      have later := ih (nextColon?_sound next).1 (map_eq_error_iff.1 refused)
      refine later.of_suffix ?_
      rw [append_of_nextColon? next, ← append_of_readArgument readOne]
      exact List.suffix_append ..

theorem refused_of_readSignature {last : Token} {ts : List Token} {defect : ParseError}
    (refused : readSignature last ts = .error defect) : Refused (last :: ts) defect := by
  cases ts with
  | nil =>
      cases refused
      exact .missingSelector (.behind rfl)
  | cons first ts =>
      rw [readSignature.eq_def] at refused
      dsimp only at refused
      by_cases isWord : first.isIdentifier = true
      · rw [if_pos isWord] at refused
        cases ts with
        | nil => cases refused
        | cons colon ts =>
            dsimp only at refused
            split at refused
            · have arguments : Refused ((some first).toList ++ colon :: ts) defect :=
                refused_of_readArguments (by simpa using isWord) (map_eq_error_iff.1 refused)
              exact arguments.of_suffix (List.suffix_cons ..)
            · cases refused
      · rw [if_neg isWord] at refused
        cases refused
        exact .missingSelector (.token (by simp))

theorem refused_of_readReturnType {marker : Option Token} {ts : List Token} {defect : ParseError}
    (refused : readReturnType marker ts = .error defect) : Refused ts defect := by
  cases ts with
  | nil =>
      cases refused
      exact .missingReturnType
  | cons returnOpen ts =>
      simp only [readReturnType] at refused
      by_cases opens : returnOpen.isPunct '(' = true
      · rw [if_pos opens] at refused
        cases found : splitGroup? 0 ts with
        | none =>
            rw [found] at refused
            cases refused
            exact .unbalancedParens (List.mem_cons_self ..)
        | some group =>
            obtain ⟨type, close, rest⟩ := group
            rw [found] at refused
            cases type with
            | nil =>
                cases refused
                exact .missingReturnType
            | cons t type =>
                dsimp only at refused
                refine (refused_of_readSignature (map_eq_error_iff.1 refused)).of_suffix ?_
                rw [← append_of_splitGroup? found]
                exact ⟨returnOpen :: t :: type, rfl⟩
      · rw [if_neg opens] at refused
        cases refused
        exact .missingReturnType

/-- **A declaration is refused at a token or behind the last one.** -/
theorem refused_of_readDeclaration {ts : List Token} {defect : ParseError}
    (refused : readDeclaration ts = .error defect) : Refused ts defect := by
  cases ts with
  | nil =>
      cases refused
      exact .emptyInput
  | cons t ts =>
      rw [readDeclaration] at refused
      split at refused
      · exact (refused_of_readReturnType refused).of_suffix (List.suffix_cons ..)
      · exact refused_of_readReturnType refused

/-- **A trailer is refused at a token.** -/
theorem refused_of_checkTrailer {ts : List Token} {defect : ParseError}
    (refused : checkTrailer ts = .error defect) : Refused ts defect := by
  fun_induction checkTrailer ts with
  | case1 | case2 | case4 | case5 => cases refused
  | case3 t isSemicolon extra rest =>
      cases refused
      exact .unexpectedToken (by simp)
  | case6 t notSemicolon notBrace isWord u rest opens found =>
      cases refused
      exact .unbalancedParens (by simp)
  | case7 t notSemicolon notBrace isWord u rest opens group close after found ih =>
      refine (ih refused).of_suffix ?_
      rw [← append_of_splitGroup? found]
      exact ⟨t :: u :: group ++ [close], by simp⟩
  | case8 t notSemicolon notBrace isWord u rest notOpen ih =>
      exact (ih refused).of_suffix (List.suffix_cons ..)
  | case10 t notSemicolon notBrace notWord isComma u rest isMark ih =>
      exact (ih refused).of_suffix ⟨[t, u], rfl⟩
  | case9 | case11 | case12 =>
      cases refused
      exact .unexpectedToken (List.mem_cons_self ..)

/-! ## The check of the fields -/

/-- A keyword that stands alone hands its own range to the check. -/
theorem DeclarationTree.selector_of_overflow {d : DeclarationTree} {keyword : Token}
    (alone : d.signature = .unary keyword) (overflows : ¬ keyword.range.Fits) :
    d.selector = .error (.rangeOverflow keyword.range.location keyword.range.length) := by
  have declared : d.range.stop?.isNone = false := by
    rw [← Bool.not_eq_true, SourceRange.isNone_stop?_iff, Decidable.not_not]
    exact d.envelopeOf?_tokens.2
  have handed : keyword.range.stop?.isNone = true := (SourceRange.isNone_stop?_iff _).2 overflows
  unfold selector Selector.ofFields Selector.firstDefect?
  rw [alone]
  simp [SignatureTree.components, SignatureTree.parameters, Selector.emptyDefect?,
    Selector.bareDefect?, Selector.countDefect?, Selector.overflowDefect?, declared, handed]

/-- **The fields of a declaration fail their check exactly if it has a keyword that stands
alone and overflows.** -/
theorem DeclarationTree.Valid.selector_eq_error_iff {d : DeclarationTree} (valid : d.Valid)
    {defect : ParseError} :
    d.selector = .error defect ↔ ∃ keyword, d.signature = .unary keyword ∧
      ¬ keyword.range.Fits ∧
      defect = .rangeOverflow keyword.range.location keyword.range.length := by
  constructor
  · intro refused
    have unfit : ¬ ∀ keyword, d.signature = .unary keyword → keyword.range.Fits := by
      intro fits
      cases refused.symm.trans (selector_eq_ok_iff.2 ⟨rfl, valid.wellFormed fits⟩)
    obtain ⟨keyword, alone, overflows⟩ := by simpa only [Classical.not_forall] using unfit
    refine ⟨keyword, alone, overflows, ?_⟩
    exact Except.error.inj (refused.symm.trans (selector_of_overflow alone overflows))
  · rintro ⟨keyword, alone, overflows, rfl⟩
    exact selector_of_overflow alone overflows

/-! ## The whole declaration -/

theorem Selector.ofTokens_eq_error_iff {ts : List Token} {defect : ParseError} :
    ofTokens ts = .error defect ↔ readDeclaration ts = .error defect ∨
      ∃ tree trailer, readDeclaration ts = .ok (tree, trailer) ∧
        (checkTrailer trailer = .error defect ∨
          checkTrailer trailer = .ok () ∧ tree.selector = .error defect) := by
  simp only [ofTokens, bind_eq_error_iff, Prod.exists, pure, Except.pure, reduceCtorEq, and_false,
    exists_false, or_false]
  exact or_congr_right (exists₂_congr fun tree trailer => and_congr_right fun _ => or_congr_right
    ⟨fun ⟨_, checked, unbuilt⟩ => ⟨checked, unbuilt⟩, fun unfit => ⟨(), unfit⟩⟩)

/-- Tokens of a method whose keyword stands alone and overflows. -/
def Overflows (ts : List Token) (keyword : Token) : Prop :=
  ∃ d : Derivation, d.Derives ts ∧ d.declaration.signature = .unary keyword ∧
    ¬ keyword.range.Fits

/-- **Tokens are refused for one of them, or for a keyword that overflows.** -/
theorem refused_of_ofTokens {ts : List Token} {defect : ParseError}
    (refused : Selector.ofTokens ts = .error defect) :
    Refused ts defect ∨ ∃ keyword, Overflows ts keyword ∧
      defect = .rangeOverflow keyword.range.location keyword.range.length := by
  rcases Selector.ofTokens_eq_error_iff.1 refused with unread | ⟨tree, trailer, read, unfit⟩
  · exact .inl (refused_of_readDeclaration unread)
  · obtain ⟨valid, split⟩ := valid_of_readDeclaration read
    rcases unfit with unchecked | ⟨checked, unbuilt⟩
    · exact .inl ((refused_of_checkTrailer unchecked).of_suffix ⟨tree.tokens, split⟩)
    · obtain ⟨keyword, alone, overflows, rfl⟩ := valid.selector_eq_error_iff.1 unbuilt
      obtain ⟨t, trailerValid, rfl⟩ := checkTrailer_eq_ok_iff.1 checked
      exact .inr ⟨keyword, ⟨⟨tree, t⟩, ⟨⟨valid, trailerValid⟩, split⟩, alone, overflows⟩, rfl⟩

/-- A keyword that overflows is what its method is refused for. -/
theorem Overflows.ofTokens_eq {ts : List Token} {keyword : Token}
    (overflows : Overflows ts keyword) :
    Selector.ofTokens ts = .error (.rangeOverflow keyword.range.location keyword.range.length) := by
  obtain ⟨d, ⟨⟨valid, trailerValid⟩, rfl⟩, alone, unfit⟩ := overflows
  exact Selector.ofTokens_eq_error_iff.2 (.inr ⟨d.declaration, d.trailer.tokens,
    readDeclaration_tokens valid trailerValid.nextColon?_tokens,
    .inr ⟨checkTrailer_tokens trailerValid,
      valid.selector_eq_error_iff.2 ⟨keyword, alone, unfit, rfl⟩⟩⟩)

/-- **What is read is valid.** Whatever the kinds, the texts and the ranges of tokens are, they
are never refused because the fields of their declaration do not fit together, but for one
reason: they declare a keyword that stands alone, and its own range overflows.  So the last
check never fails on the tokens of a source that ends at an offset. -/
theorem parsed_fields_fit :
    (∀ (ts : List Token) (defect : ParseError), Selector.ofTokens ts = .error defect →
      defect ≠ .noComponents ∧ (∀ keyword, defect ≠ .bareComponentInKeywordSelector keyword) ∧
        (∀ components parameters, defect ≠ .parameterCountMismatch components parameters) ∧
        ∀ keyword range, defect ≠ .componentOutsideRange keyword range) ∧
      (∀ (ts : List Token) (location length : Nat),
        Selector.ofTokens ts = .error (.rangeOverflow location length) ↔
          ∃ keyword, Overflows ts keyword ∧ keyword.range.location = location ∧
            keyword.range.length = length) ∧
      ∀ (source : String) (base : Nat), base + Text.byteLength source.toList ≤ maxOffset →
        ∀ tree trailer, readDeclaration (tokenize source base) = .ok (tree, trailer) →
          ∃ s, tree.selector = .ok s := by
  refine ⟨?_, ?_, ?_⟩
  · intro ts defect refused
    rcases refused_of_ofTokens refused with blamed | ⟨keyword, -, rfl⟩
    · cases blamed <;> simp
    · simp
  · intro ts location length
    constructor
    · intro refused
      rcases refused_of_ofTokens refused with blamed | ⟨keyword, overflows, same⟩
      · cases blamed
      · obtain ⟨rfl, rfl⟩ := ParseError.rangeOverflow.inj same
        exact ⟨keyword, overflows, rfl, rfl⟩
    · rintro ⟨keyword, overflows, rfl, rfl⟩
      exact overflows.ofTokens_eq
  · intro source base fits tree trailer read
    obtain ⟨valid, split⟩ := valid_of_readDeclaration read
    refine ⟨tree.fields, valid.selector_eq fun t member => ?_⟩
    refine (bounds_of_mem_tokenize fits ?_).2.2
    rw [← split]
    exact List.mem_append_left _ member

/-- A method whose keyword begins at the largest offset. -/
def overflowingTokens : List Token :=
  [.punctAt '(' 0, .identifierAt "void" 1, .punctAt ')' 5, .identifierAt "init" maxOffset]

theorem parsed_fields_fit_init :
    (∃ keyword, Overflows overflowingTokens keyword ∧ keyword.range.location = maxOffset ∧
        keyword.range.length = 4) ∧
      ∃ tree trailer s, readDeclaration (tokenize "- (void)init;" 7) = .ok (tree, trailer) ∧
        tree.selector = .ok s := by
  obtain ⟨-, overflow, fit⟩ := parsed_fields_fit
  have refused : Selector.ofTokens overflowingTokens = .error (.rangeOverflow maxOffset 4) := by
    decide +kernel
  refine ⟨(overflow _ _ _).1 refused, ?_⟩
  have accepted : (readDeclaration (tokenize "- (void)init;" 7)).toOption.isSome = true := by
    decide +kernel
  cases read : readDeclaration (tokenize "- (void)init;" 7) with
  | error defect => rw [read] at accepted; cases accepted
  | ok answer =>
      obtain ⟨s, built⟩ := fit _ 7 (by decide) answer.1 answer.2 read
      exact ⟨answer.1, answer.2, s, rfl, built⟩

end ProtocolFakes
