import ProtocolFakes.Proofs.Selector.Invariant
import ProtocolFakes.Proofs.Selector.Reading
import ProtocolFakes.Proofs.Selector.Trailer

/-!
# Accepted declarations

Reading a method from tokens succeeds exactly on the token lists that the grammar
derives, as long as no token's range runs past the largest offset
(`ofTokens_grammar`).  The range matters at one place: a keyword that stands alone
hands its own range to the selector, while every other range is measured anew
between two offsets (`DeclarationTree.Valid.wellFormed`).

A token list has at most one derivation (`Derivation.unique`), and the selector
read says what the derivation says (`Derivation.Describes`).
-/

namespace ProtocolFakes

set_option autoImplicit false

/-! ## What a derivation says -/

/-- The keywords of a signature in order, each with whether a colon follows. -/
def SignatureTree.keywordList : SignatureTree → List (String × Bool)
  | unary keyword => [(keyword.text, false)]
  | keywords arguments =>
      arguments.map fun a => ((a.keyword.map Token.text).getD "", true)

/-- The types of a signature in order, spelled, each with the name behind it. -/
def SignatureTree.parameterList : SignatureTree → List (String × String)
  | unary _ => []
  | keywords arguments => arguments.map fun a => (Token.spell a.type, a.name.text)

/-- A kind and a selector that say what a derivation says. -/
structure Derivation.Describes (d : Derivation) (kind : MethodKind) (s : Selector) : Prop where
  keywords : s.components.map (fun c => (c.keyword, c.takesArgument)) =
    d.declaration.signature.keywordList
  parameters : s.parameters.map (fun p => (p.typeName, p.name)) =
    d.declaration.signature.parameterList
  returnType : s.returnType = Token.spell d.declaration.returnType
  kind_eq : kind = .classMethod ↔ ∃ t ∈ d.declaration.marker, t.isPunct '+' = true

/-! ## The fields of a declaration -/

theorem ArgumentTree.type_infix (a : ArgumentTree) : a.type <:+: a.tokens :=
  ⟨a.keyword.toList ++ [a.colon, a.typeOpen], [a.typeClose, a.name], by simp [tokens]⟩

theorem DeclarationTree.returnType_infix (d : DeclarationTree) : d.returnType <:+: d.tokens :=
  ⟨d.marker.toList ++ [d.returnOpen], d.returnClose :: d.signature.tokens, by simp [tokens]⟩

theorem DeclarationTree.signature_infix (d : DeclarationTree) : d.signature.tokens <:+: d.tokens :=
  ⟨d.marker.toList ++ d.returnOpen :: d.returnType ++ [d.returnClose], [], by simp [tokens]⟩

/-- A signature ends with a word. -/
theorem SignatureTree.Valid.last {s : SignatureTree} (valid : s.Valid) :
    ∃ ts t, s.tokens = ts ++ [t] ∧ t.isIdentifier = true := by
  cases s with
  | unary keyword =>
      cases valid with
      | unary word => exact ⟨[], keyword, rfl, word⟩
  | keywords arguments =>
      rcases List.eq_nil_or_concat arguments with rfl | ⟨as, a, rfl⟩
      · cases valid
      · have argument : a.Valid := valid.argument (by simp)
        refine ⟨as.flatMap ArgumentTree.tokens ++ (a.keyword.toList ++
          a.colon :: a.typeOpen :: a.type ++ [a.typeClose]), a.name, ?_, argument.name⟩
        simp [tokens, ArgumentTree.tokens]

/-- A declaration ends with a word. -/
theorem DeclarationTree.Valid.last {d : DeclarationTree} (valid : d.Valid) :
    ∃ ts t, d.tokens = ts ++ [t] ∧ t.isIdentifier = true := by
  obtain ⟨ts, t, tokens, word⟩ := valid.signature.last
  refine ⟨d.marker.toList ++ d.returnOpen :: d.returnType ++ d.returnClose :: ts, t, ?_, word⟩
  simp [DeclarationTree.tokens, tokens]

/-- A declaration has two tokens at least, and its range goes around all of them. -/
theorem DeclarationTree.envelopeOf?_tokens (d : DeclarationTree) :
    SourceRange.envelopeOf? (d.tokens.map (·.range)) = some d.range ∧ d.range.Fits := by
  have several : ∃ t u ts, d.tokens = t :: u :: ts := by
    cases marker : d.marker with
    | some m => exact ⟨m, _, _, by simp only [tokens, marker]; rfl⟩
    | none =>
        cases type : d.returnType with
        | nil => exact ⟨d.returnOpen, d.returnClose, _, by simp only [tokens, marker, type]; rfl⟩
        | cons t ts => exact ⟨d.returnOpen, t, _, by simp only [tokens, marker, type]; rfl⟩
  obtain ⟨t, u, ts, split⟩ := several
  have found : SourceRange.envelopeOf? (d.tokens.map (·.range)) = some d.range := by
    rw [range, split]
    rfl
  refine ⟨found, ?_⟩
  rw [split] at found
  exact SourceRange.fits_of_envelopeOf? (by simp) found

theorem DeclarationTree.encloses_of_mem_tokens {d : DeclarationTree} {t : Token}
    (member : t ∈ d.tokens) : d.range.encloses t.range = true :=
  SourceRange.encloses_of_envelopeOf? d.envelopeOf?_tokens.1 (List.mem_map_of_mem member)

theorem ArgumentTree.first_mem_tokens (a : ArgumentTree) : a.first ∈ a.tokens := by
  unfold first tokens
  cases a.keyword with
  | none => exact List.mem_cons_self ..
  | some k => exact List.mem_cons_self ..

theorem ArgumentTree.name_mem_tokens (a : ArgumentTree) : a.name ∈ a.tokens := by
  simp [tokens]

/-- A range around the tokens of an argument goes around its component. -/
theorem ArgumentTree.encloses_component {a : ArgumentTree} {range : SourceRange}
    (inside : ∀ t ∈ a.tokens, range.encloses t.range = true) :
    range.encloses a.component.range = true := by
  have first := SourceRange.encloses_iff.1 (inside _ a.first_mem_tokens)
  have name := SourceRange.encloses_iff.1 (inside _ a.name_mem_tokens)
  have startLe := a.first.range.location_le
  have stopLe := a.name.range.stop_le
  refine SourceRange.encloses_iff.2 ⟨?_, ?_⟩
  · exact Nat.le_trans first.1 (Nat.le_of_eq (SourceRange.location_ofBounds startLe).symm)
  · rw [component, SourceRange.stop_ofBounds startLe stopLe]
    exact Nat.max_le.2 ⟨Nat.le_trans a.first.range.location_le_stop first.2, name.2⟩

/-- **The fields of a declaration fit together**, if a keyword that stands alone
ends at an offset. -/
theorem DeclarationTree.Valid.wellFormed {d : DeclarationTree} (valid : d.Valid)
    (fits : ∀ keyword, d.signature = .unary keyword → keyword.range.Fits) :
    Selector.WellFormed ⟨d.signature.components, d.signature.parameters,
      Token.spell d.returnType, d.range⟩ := by
  cases signature : d.signature with
  | unary keyword =>
      have inside : d.range.encloses keyword.range = true := by
        apply encloses_of_mem_tokens
        apply d.signature_infix.subset
        rw [signature]
        exact List.mem_cons_self ..
      exact
        { components_ne_nil := by simp [SignatureTree.components]
          all_take := by simp [SignatureTree.components]
          one_parameter_each := by simp [SignatureTree.components, SignatureTree.parameters]
          range_fits := d.envelopeOf?_tokens.2
          component_fits := by simpa [SignatureTree.components] using fits keyword signature
          parameter_fits := by simp [SignatureTree.parameters]
          encloses := by simpa [SignatureTree.components] using inside }
  | keywords arguments =>
      have nonempty : arguments ≠ [] := by
        have signatureValid := valid.signature
        rw [signature] at signatureValid
        cases signatureValid
        exact List.cons_ne_nil _ _
      have inside : ∀ a ∈ arguments, ∀ t ∈ a.tokens, d.range.encloses t.range = true := by
        intro a member t found
        apply encloses_of_mem_tokens
        apply d.signature_infix.subset
        rw [signature]
        exact List.mem_flatMap.2 ⟨a, member, found⟩
      exact
        { components_ne_nil := by simpa [SignatureTree.components] using nonempty
          all_take := by
            intro _ c member
            obtain ⟨a, _, rfl⟩ := List.mem_map.1 member
            rfl
          one_parameter_each := by
            simp only [SignatureTree.components, SignatureTree.parameters, List.countP_map,
              List.length_map]
            exact List.countP_eq_length.2 fun a _ => rfl
          range_fits := d.envelopeOf?_tokens.2
          component_fits := by
            intro c member
            obtain ⟨a, _, rfl⟩ := List.mem_map.1 member
            exact SourceRange.fits_ofBounds a.first.range.location_le a.name.range.stop_le
          parameter_fits := by
            intro p member
            obtain ⟨a, _, rfl⟩ := List.mem_map.1 member
            exact SourceRange.fits_ofBounds a.typeOpen.range.location_le a.name.range.stop_le
          encloses := by
            intro c member
            obtain ⟨a, found, rfl⟩ := List.mem_map.1 member
            exact ArgumentTree.encloses_component (inside a found) }

/-- A selector read from a declaration has the fields of that declaration. -/
theorem DeclarationTree.selector_eq_ok_iff {d : DeclarationTree} {s : Selector} :
    d.selector = .ok s ↔
      s = ⟨d.signature.components, d.signature.parameters, Token.spell d.returnType, d.range⟩ ∧
        s.WellFormed :=
  Selector.ofFields_eq_ok_iff

/-- The kind follows from the marker alone. -/
theorem DeclarationTree.Valid.kind_eq_classMethod_iff {d : DeclarationTree} (valid : d.Valid) :
    d.kind = .classMethod ↔ ∃ t ∈ d.marker, t.isPunct '+' = true := by
  cases marker : d.marker with
  | none => simp [kind, marker]
  | some t =>
      rcases valid.marker t marker with minus | plus
      · have notPlus : t.isPunct '+' = false := Token.isPunct_eq_false minus (by decide)
        simp [kind, marker, Token.text_eq_of_isPunct minus, notPlus, MethodKind.ofMarker?]
      · simp [kind, marker, Token.text_eq_of_isPunct plus, plus, MethodKind.ofMarker?]

/-! ## Derivations -/

/-- **A token list has at most one derivation.** -/
theorem Derivation.unique {d d' : Derivation} {ts : List Token} (derives : d.Derives ts)
    (derives' : d'.Derives ts) : d = d' := by
  obtain ⟨⟨valid, trailerValid⟩, rfl⟩ := derives
  obtain ⟨⟨valid', trailerValid'⟩, same⟩ := derives'
  have read := readDeclaration_tokens valid trailerValid.nextColon?_tokens
  have read' := readDeclaration_tokens valid' trailerValid'.nextColon?_tokens
  rw [show d'.declaration.tokens ++ d'.trailer.tokens =
    d.declaration.tokens ++ d.trailer.tokens from same, read] at read'
  obtain ⟨sameDeclaration, sameTrailer⟩ := Prod.mk.inj (Except.ok.inj read')
  cases d
  cases d'
  cases sameDeclaration
  cases TrailerTree.unique trailerValid trailerValid' sameTrailer
  rfl

/-- The derivation behind a method that was read. -/
theorem exists_derivation_of_ofTokens {ts : List Token} {kind : MethodKind} {s : Selector}
    (read : Selector.ofTokens ts = .ok (kind, s)) :
    ∃ d : Derivation, d.Derives ts ∧ d.declaration.kind = kind ∧
      d.declaration.selector = .ok s := by
  obtain ⟨tree, trailer, readTree, checked, selector, sameKind⟩ :=
    Selector.ofTokens_eq_ok_iff.1 read
  obtain ⟨valid, split⟩ := valid_of_readDeclaration readTree
  obtain ⟨t, trailerValid, rfl⟩ := checkTrailer_eq_ok_iff.1 checked
  exact ⟨⟨tree, t⟩, ⟨⟨valid, trailerValid⟩, split⟩, sameKind, selector⟩

/-- What is derived is read, if its fields fit together. -/
theorem Derivation.Derives.ofTokens {d : Derivation} {ts : List Token} {s : Selector}
    (derives : d.Derives ts) (selector : d.declaration.selector = .ok s) :
    Selector.ofTokens ts = .ok (d.declaration.kind, s) := by
  obtain ⟨⟨valid, trailerValid⟩, rfl⟩ := derives
  exact Selector.ofTokens_eq_ok_iff.2 ⟨d.declaration, d.trailer.tokens,
    readDeclaration_tokens valid trailerValid.nextColon?_tokens, checkTrailer_tokens trailerValid,
    selector, rfl⟩

theorem Derivation.Derives.describes {d : Derivation} {ts : List Token} {kind : MethodKind}
    {s : Selector} (derives : d.Derives ts) (read : Selector.ofTokens ts = .ok (kind, s)) :
    d.Describes kind s := by
  obtain ⟨d', derives', rfl, selector⟩ := exists_derivation_of_ofTokens read
  obtain rfl := Derivation.unique derives derives'
  obtain ⟨rfl, -⟩ := DeclarationTree.selector_eq_ok_iff.1 selector
  refine ⟨?_, ?_, rfl, derives.valid.declaration.kind_eq_classMethod_iff⟩
  · cases d.declaration.signature with
    | unary keyword => rfl
    | keywords arguments =>
        simp only [SignatureTree.components, SignatureTree.keywordList, List.map_map]
        rfl
  · cases d.declaration.signature with
    | unary keyword => rfl
    | keywords arguments =>
        simp only [SignatureTree.parameters, SignatureTree.parameterList, List.map_map]
        rfl

/-- **The parser accepts its grammar and nothing else, and reads it correctly.**
A token list whose ranges end at offsets is read exactly when it has a derivation;
it has one at most, and the kind and the selector read say what that one says. -/
theorem ofTokens_grammar {ts : List Token} (fits : ∀ t ∈ ts, t.range.Fits) :
    ((∃ kind s, Selector.ofTokens ts = .ok (kind, s)) ↔ ∃ d : Derivation, d.Derives ts) ∧
      (∀ d d' : Derivation, d.Derives ts → d'.Derives ts → d = d') ∧
      ∀ (kind : MethodKind) (s : Selector) (d : Derivation),
        Selector.ofTokens ts = .ok (kind, s) → d.Derives ts → d.Describes kind s := by
  refine ⟨⟨?_, ?_⟩, ?_, ?_⟩
  · rintro ⟨kind, s, read⟩
    obtain ⟨d, derives, -⟩ := exists_derivation_of_ofTokens read
    exact ⟨d, derives⟩
  · rintro ⟨d, derives⟩
    have keywordFits : ∀ keyword, d.declaration.signature = .unary keyword →
        keyword.range.Fits := by
      intro keyword unary
      apply fits
      rw [← derives.tokens_eq, Derivation.tokens]
      apply List.mem_append_left
      apply d.declaration.signature_infix.subset
      rw [unary]
      exact List.mem_cons_self ..
    have formed := derives.valid.declaration.wellFormed keywordFits
    exact ⟨_, _, derives.ofTokens (DeclarationTree.selector_eq_ok_iff.2 ⟨rfl, formed⟩)⟩
  · intro d d'
    exact Derivation.unique
  · intro kind s d read derives
    exact derives.describes read

/-- The method `+ (id)make:(int)n :(int)m;`, with the semicolon left to its trailer. -/
def makeDerivation : Derivation where
  declaration :=
    { marker := some (.punctAt '+' 0)
      returnOpen := .punctAt '(' 2
      returnType := [.identifierAt "id" 3]
      returnClose := .punctAt ')' 5
      signature := .keywords
        [⟨some (.identifierAt "make" 6), .punctAt ':' 10, .punctAt '(' 11,
          [.identifierAt "int" 12], .punctAt ')' 15, .identifierAt "n" 16⟩,
         ⟨none, .punctAt ':' 18, .punctAt '(' 19, [.identifierAt "int" 20], .punctAt ')' 23,
          .identifierAt "m" 24⟩] }
  trailer := ⟨[], .semicolon (.punctAt ';' 25)⟩

theorem makeDerivation_valid : makeDerivation.Valid where
  declaration :=
    { marker := by simp [makeDerivation]; decide
      returnOpen := by decide
      returnType_ne_nil := by simp [makeDerivation]
      returnType_balanced := balancedFrom_cons_iff.2 ⟨by decide, balancedFrom_nil⟩
      returnClose := by decide
      signature := by
        have word : Balanced [.identifierAt "int" 12] :=
          balancedFrom_cons_iff.2 ⟨by decide, balancedFrom_nil⟩
        have word' : Balanced [.identifierAt "int" 20] :=
          balancedFrom_cons_iff.2 ⟨by decide, balancedFrom_nil⟩
        refine .keywords rfl ⟨by simp; decide, by decide, by decide, by simp, word, by decide,
          by decide⟩ fun a member => ?_
        cases List.mem_singleton.1 member
        exact ⟨by simp, by decide, by decide, by simp, word', by decide, by decide⟩ }
  trailer := ⟨by simp [makeDerivation], .semicolon (by decide)⟩

theorem ofTokens_grammar_make :
    (∀ t ∈ makeDerivation.tokens, t.range.Fits) ∧
      ∃ kind s, Selector.ofTokens makeDerivation.tokens = .ok (kind, s) ∧ kind = .classMethod ∧
        s.components.map (fun c => (c.keyword, c.takesArgument)) =
          [("make", true), ("", true)] := by
  have fits : ∀ t ∈ makeDerivation.tokens, t.range.Fits := by decide
  have grammar := ofTokens_grammar fits
  obtain ⟨kind, s, read⟩ := grammar.1.2 ⟨_, makeDerivation_valid, rfl⟩
  have describes := grammar.2.2 kind s makeDerivation read ⟨makeDerivation_valid, rfl⟩
  exact ⟨fits, kind, s, read, describes.kind_eq.2 ⟨_, rfl, by decide⟩, describes.keywords⟩

end ProtocolFakes
