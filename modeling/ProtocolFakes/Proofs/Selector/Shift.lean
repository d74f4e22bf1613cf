import ProtocolFakes.Proofs.Selector.Acceptance
import ProtocolFakes.Proofs.Token.Shift

/-!
# Reading a declaration that stands further on

Trees, selectors and the defects that a reader answers are moved by moving every range in
them.

No reader looks at where a token stands.  Given moved tokens it does what it did with the
old ones (`Moves`): it answers the moved tree and the moved tokens that are left, or it
refuses with the moved defect.  One lemma per reader says so, up to
`readDeclaration_moves` and `checkTrailer_moves`.  A range that a reader blames is that of
a token or stands just behind one, so it moves without being clamped.

The ranges of a selector lie between locations and ends of tokens.  Where all tokens are
movable, a moved tree declares the moved selector (`DeclarationTree.fields_shift`), and so
does a moved token list (`Selector.ofTokens_moves`).
-/

namespace ProtocolFakes

set_option autoImplicit false

variable {base : Nat}

/-! ## Moving what is read -/

/-- The argument moved forward by `base` bytes. -/
def ArgumentTree.shift (base : Nat) (a : ArgumentTree) : ArgumentTree where
  keyword := a.keyword.map (Token.shift base)
  colon := a.colon.shift base
  typeOpen := a.typeOpen.shift base
  type := a.type.map (Token.shift base)
  typeClose := a.typeClose.shift base
  name := a.name.shift base

/-- The signature moved forward by `base` bytes. -/
def SignatureTree.shift (base : Nat) : SignatureTree → SignatureTree
  | unary keyword => .unary (keyword.shift base)
  | keywords arguments => .keywords (arguments.map (ArgumentTree.shift base))

/-- The declaration moved forward by `base` bytes. -/
def DeclarationTree.shift (base : Nat) (d : DeclarationTree) : DeclarationTree where
  marker := d.marker.map (Token.shift base)
  returnOpen := d.returnOpen.shift base
  returnType := d.returnType.map (Token.shift base)
  returnClose := d.returnClose.shift base
  signature := d.signature.shift base

/-- The defect with every location that it names moved forward by `base` bytes. -/
def ParseError.shift (base : Nat) : ParseError → ParseError
  | emptyInput => emptyInput
  | missingReturnType => missingReturnType
  | missingSelector range => missingSelector (range.shift base)
  | missingParameterType keyword range => missingParameterType keyword (range.shift base)
  | missingParameterName keyword range => missingParameterName keyword (range.shift base)
  | unbalancedParens range => unbalancedParens (range.shift base)
  | unexpectedToken text range => unexpectedToken text (range.shift base)
  | noComponents => noComponents
  | parameterCountMismatch components parameters => parameterCountMismatch components parameters
  | bareComponentInKeywordSelector keyword => bareComponentInKeywordSelector keyword
  | rangeOverflow location length => rangeOverflow (location + base) length
  | componentOutsideRange keyword range => componentOutsideRange keyword (range.shift base)

/-- The ranges that a defect blames. -/
def ParseError.ranges : ParseError → List SourceRange
  | missingSelector range | missingParameterType _ range | missingParameterName _ range
  | unbalancedParens range | unexpectedToken _ range | componentOutsideRange _ range => [range]
  | emptyInput | missingReturnType | noComponents | parameterCountMismatch _ _
  | bareComponentInKeywordSelector _ | rangeOverflow _ _ => []

/-- Two readings, the second of tokens that were moved.  Both answer, and the answers
differ by `move`; or both refuse, and the defect has moved, with all its ranges still
ending at offsets. -/
inductive Moves {α β : Type} (base : Nat) (move : α → β) :
    Except ParseError α → Except ParseError β → Prop where
  | read {answer : α} : Moves base move (.ok answer) (.ok (move answer))
  | refused {defect : ParseError} (movable : ∀ r ∈ defect.ranges, r.Movable base) :
      Moves base move (.error defect) (.error (defect.shift base))

/-- A defect that blames one movable range moves. -/
theorem Moves.blame {α β : Type} {move : α → β} {defect : ParseError} {range : SourceRange}
    (blames : defect.ranges = [range]) (movable : range.Movable base) :
    Moves base move (.error defect) (.error (defect.shift base)) :=
  .refused (by rw [blames]; simpa using movable)

theorem Moves.of_ok {α β : Type} {move : α → β} {answer : α} {result' : Except ParseError β}
    (moves : Moves base move (.ok answer) result') : result' = .ok (move answer) := by
  cases moves
  rfl

theorem Moves.of_error {α β : Type} {move : α → β} {defect : ParseError}
    {result' : Except ParseError β} (moves : Moves base move (.error defect) result') :
    result' = .error (defect.shift base) ∧ ∀ r ∈ defect.ranges, r.Movable base := by
  cases moves with
  | refused movable => exact ⟨rfl, movable⟩

/-- Readings that are used in the same way still differ by a move. -/
theorem Moves.map {α β γ δ : Type} {move : α → β} {move' : γ → δ} {use : α → γ} {use' : β → δ}
    {result : Except ParseError α} {result' : Except ParseError β}
    (moves : Moves base move result result') (commutes : ∀ a, use' (move a) = move' (use a)) :
    Moves base move' (result.map use) (result'.map use') := by
  cases moves with
  | @read answer =>
      rw [Except.map, Except.map, commutes]
      exact .read
  | refused movable => exact .refused movable

/-- Readings that are followed by readings still differ by a move. -/
theorem Moves.bind {α β γ δ : Type} {move : α → β} {move' : γ → δ} {result : Except ParseError α}
    {result' : Except ParseError β} {next : α → Except ParseError γ}
    {next' : β → Except ParseError δ} (moves : Moves base move result result')
    (later : ∀ a, result = .ok a → result' = .ok (move a) →
      Moves base move' (next a) (next' (move a))) :
    Moves base move' (result >>= next) (result' >>= next') := by
  cases moves with
  | @read answer => exact later answer rfl rfl
  | refused movable => exact .refused movable

/-! ## Reading arguments -/

theorem splitGroup?_map_shift (base depth : Nat) (ts : List Token) :
    splitGroup? depth (ts.map (Token.shift base)) =
      (splitGroup? depth ts).map fun (inner, close, rest) =>
        (inner.map (Token.shift base), close.shift base, rest.map (Token.shift base)) := by
  fun_induction splitGroup? depth ts with
  | case1 => rfl
  | case2 depth t ts opens ih => simp [splitGroup?, opens, ih, Function.comp_def]
  | case3 t ts opens closes => simp [splitGroup?, opens, closes]
  | case4 t ts opens closes depth ih => simp [splitGroup?, opens, closes, ih, Function.comp_def]
  | case5 depth t ts opens closes ih => simp [splitGroup?, opens, closes, ih, Function.comp_def]

/-- The range behind a token moves with the token. -/
theorem behind_shift (t : Token) : behind (t.shift base) = (behind t).shift base :=
  (SourceRange.shift_emptyAt_stop base t.range).symm

theorem movable_behind {t : Token} (movable : t.range.Movable base) : (behind t).Movable base :=
  SourceRange.movable_emptyAt movable.stop_add_le

theorem word_map_shift (keyword : Option Token) :
    (((keyword.map (Token.shift base)).map (·.text)).getD "") =
      (keyword.map (·.text)).getD "" := by
  cases keyword <;> rfl

/-- An argument is read wherever it stands. -/
theorem readArgument_moves {keyword : Option Token} {colon : Token} {ts : List Token}
    (movable : ∀ t ∈ keyword.toList ++ colon :: ts, t.range.Movable base) :
    Moves base (Prod.map (ArgumentTree.shift base) (List.map (Token.shift base)))
      (readArgument keyword colon ts)
      (readArgument (keyword.map (Token.shift base)) (colon.shift base)
        (ts.map (Token.shift base))) := by
  cases ts with
  | nil =>
      simp only [List.map_nil, readArgument, word_map_shift, behind_shift]
      exact .blame rfl (movable_behind (movable colon (by simp)))
  | cons typeOpen ts =>
      have openMovable := movable typeOpen (by simp)
      simp only [List.map_cons, readArgument, word_map_shift, Token.isPunct_shift,
        splitGroup?_map_shift]
      by_cases opens : typeOpen.isPunct '(' = true
      · simp only [opens, if_true]
        cases found : splitGroup? 0 ts with
        | none => exact .blame rfl openMovable
        | some group =>
            obtain ⟨type, close, rest⟩ := group
            have inside := append_of_splitGroup? found
            cases type with
            | nil => exact .blame rfl openMovable
            | cons t type =>
                cases rest with
                | nil =>
                    have closeMovable : close.range.Movable base :=
                      movable close (by simp [← inside])
                    simp only [Option.map_some, List.map_cons, List.map_nil, behind_shift]
                    exact .blame rfl (movable_behind closeMovable)
                | cons name rest =>
                    have nameMovable : name.range.Movable base :=
                      movable name (by simp [← inside])
                    simp only [Option.map_some, List.map_cons, Token.isIdentifier_shift]
                    by_cases named : name.isIdentifier = true
                    · simp only [named, if_true]
                      exact .read
                    · simp only [named, Bool.false_eq_true, if_false]
                      exact .blame rfl nameMovable
      · simp only [opens, Bool.false_eq_true, if_false]
        exact .blame rfl openMovable

theorem nextColon?_map_shift (base : Nat) (ts : List Token) :
    nextColon? (ts.map (Token.shift base)) =
      (nextColon? ts).map fun (keyword, colon, rest) =>
        (keyword.map (Token.shift base), colon.shift base, rest.map (Token.shift base)) := by
  unfold nextColon?
  rcases ts with _ | ⟨t, _ | ⟨u, ts⟩⟩
  · rfl
  · by_cases colon : t.isPunct ':' = true <;> simp [colon]
  · by_cases named : (t.isIdentifier && u.isPunct ':') = true
    · simp [named]
    · by_cases colon : t.isPunct ':' = true <;> simp [named, colon]

/-- Arguments are read wherever they stand. -/
theorem readArguments_moves {keyword : Option Token} {colon : Token} {ts : List Token}
    (movable : ∀ t ∈ keyword.toList ++ colon :: ts, t.range.Movable base) :
    Moves base (Prod.map (List.map (ArgumentTree.shift base)) (List.map (Token.shift base)))
      (readArguments keyword colon ts)
      (readArguments (keyword.map (Token.shift base)) (colon.shift base)
        (ts.map (Token.shift base))) := by
  fun_induction readArguments keyword colon ts with
  | case1 keyword colon ts defect readOne =>
      have first := readArgument_moves movable
      rw [readOne] at first
      obtain ⟨refused, defectMovable⟩ := first.of_error
      rw [readArguments_eq_error refused]
      exact .refused defectMovable
  | case2 keyword colon ts a after readOne next =>
      have first := readArgument_moves movable
      rw [readOne] at first
      rw [readArguments_eq first.of_ok]
      simp only [nextColon?_map_shift, next, Option.map_none]
      exact .read
  | case3 keyword colon ts a after readOne keyword' colon' after' next ih =>
      have first := readArgument_moves movable
      rw [readOne] at first
      rw [readArguments_eq first.of_ok]
      simp only [nextColon?_map_shift, next, Option.map_some]
      have later := ih (by
        intro t member
        rw [append_of_nextColon? next] at member
        apply movable
        rw [← append_of_readArgument readOne]
        exact List.mem_append_right _ member)
      exact later.map fun _ => rfl

/-! ## Reading declarations -/

/-- A signature is read wherever it stands. -/
theorem readSignature_moves {last : Token} {ts : List Token}
    (movable : ∀ t ∈ last :: ts, t.range.Movable base) :
    Moves base (Prod.map (SignatureTree.shift base) (List.map (Token.shift base)))
      (readSignature last ts) (readSignature (last.shift base) (ts.map (Token.shift base))) := by
  cases ts with
  | nil =>
      rw [List.map_nil, readSignature, readSignature, behind_shift]
      exact .blame rfl (movable_behind (movable last (List.mem_cons_self ..)))
  | cons first ts =>
      rw [List.map_cons, readSignature.eq_def, readSignature.eq_def]
      simp only [Token.isIdentifier_shift]
      by_cases named : first.isIdentifier = true
      · cases ts with
        | nil =>
            simp only [named, if_true]
            exact .read
        | cons colon ts =>
            by_cases isColon : colon.isPunct ':' = true
            · simp only [named, List.map_cons, Token.isPunct_shift, isColon, if_true]
              have arguments : Moves base _ (readArguments (some first) colon ts) _ :=
                readArguments_moves fun t member => movable t (.tail _ member)
              exact arguments.map fun _ => rfl
            · simp only [named, List.map_cons, Token.isPunct_shift, isColon, if_true,
                Bool.false_eq_true, if_false]
              exact .read
      · simp only [named, Bool.false_eq_true, if_false]
        exact .blame rfl (movable first (by simp))

/-- A declaration behind its marker is read wherever it stands. -/
theorem readReturnType_moves {marker : Option Token} {ts : List Token}
    (movable : ∀ t ∈ ts, t.range.Movable base) :
    Moves base (Prod.map (DeclarationTree.shift base) (List.map (Token.shift base)))
      (readReturnType marker ts)
      (readReturnType (marker.map (Token.shift base)) (ts.map (Token.shift base))) := by
  have noRanges : ∀ r ∈ ParseError.missingReturnType.ranges, r.Movable base := by
    simp [ParseError.ranges]
  cases ts with
  | nil => exact .refused noRanges
  | cons returnOpen ts =>
      have openMovable := movable returnOpen (List.mem_cons_self ..)
      simp only [List.map_cons, readReturnType, Token.isPunct_shift, splitGroup?_map_shift]
      by_cases opens : returnOpen.isPunct '(' = true
      · simp only [opens, if_true]
        cases found : splitGroup? 0 ts with
        | none => exact .blame rfl openMovable
        | some group =>
            obtain ⟨type, close, rest⟩ := group
            cases type with
            | nil => exact .refused noRanges
            | cons t type =>
                have inside : ∀ u ∈ close :: rest, u.range.Movable base := by
                  intro u member
                  apply movable
                  rw [← append_of_splitGroup? found]
                  exact List.mem_cons_of_mem _ (List.mem_append_right _ member)
                exact (readSignature_moves inside).map fun _ => rfl
      · simp only [opens, Bool.false_eq_true, if_false]
        exact .refused noRanges

/-- **A declaration is read wherever it stands.** -/
theorem readDeclaration_moves {ts : List Token} (movable : ∀ t ∈ ts, t.range.Movable base) :
    Moves base (Prod.map (DeclarationTree.shift base) (List.map (Token.shift base)))
      (readDeclaration ts) (readDeclaration (ts.map (Token.shift base))) := by
  cases ts with
  | nil => exact .refused (by simp [ParseError.ranges])
  | cons t ts =>
      simp only [List.map_cons, readDeclaration, Token.isMarker_shift]
      by_cases isMarker : t.isMarker = true
      · simp only [isMarker, if_true]
        exact readReturnType_moves fun u member => movable u (.tail _ member)
      · simp only [isMarker, Bool.false_eq_true, if_false]
        exact readReturnType_moves movable

/-- One step of the check. -/
theorem checkTrailer_cons (t : Token) (ts : List Token) :
    checkTrailer (t :: ts) =
      if t.isPunct ';' then
        match ts with
        | [] => .ok ()
        | extra :: _ => .error (.unexpectedToken extra.text extra.range)
      else if t.isPunct '{' then .ok ()
      else if t.isIdentifier then
        match ts with
        | [] => .ok ()
        | u :: rest =>
            if u.isPunct '(' then
              match splitGroup? 0 rest with
              | none => .error (.unbalancedParens u.range)
              | some (_, _, rest) => checkTrailer rest
            else checkTrailer (u :: rest)
      else if t.isPunct ',' then
        match ts with
        | [] => .error (.unexpectedToken t.text t.range)
        | u :: rest =>
            if u.kind = .ellipsis then checkTrailer rest
            else .error (.unexpectedToken t.text t.range)
      else .error (.unexpectedToken t.text t.range) := by
  rw [checkTrailer.eq_def]
  grind

/-- **A trailer is checked wherever it stands.** -/
theorem checkTrailer_moves {ts : List Token} (movable : ∀ t ∈ ts, t.range.Movable base) :
    Moves base id (checkTrailer ts) (checkTrailer (ts.map (Token.shift base))) := by
  have passes : Moves base id (.ok ()) (.ok ()) := .read
  fun_induction checkTrailer ts with
  | case1 => simpa [checkTrailer] using passes
  | case2 t isSemicolon => simpa [checkTrailer, isSemicolon] using passes
  | case3 t isSemicolon extra rest =>
      rw [List.map_cons, List.map_cons, checkTrailer_cons]
      simp only [Token.isPunct_shift, isSemicolon, if_true]
      exact .blame rfl (movable extra (by simp))
  | case4 t ts notSemicolon isBrace =>
      rw [List.map_cons, checkTrailer_cons]
      simpa [notSemicolon, isBrace] using passes
  | case5 t notSemicolon notBrace word =>
      rw [List.map_cons, List.map_nil, checkTrailer_cons]
      simpa [notSemicolon, notBrace, word] using passes
  | case6 t notSemicolon notBrace word u rest opens found =>
      have openMovable : u.range.Movable base := movable u (by simp)
      rw [List.map_cons, List.map_cons, checkTrailer_cons]
      simp only [Token.isPunct_shift, Token.isIdentifier_shift, notSemicolon, notBrace, word, opens,
        splitGroup?_map_shift, found, if_true, Bool.false_eq_true, if_false]
      exact .blame rfl openMovable
  | case7 t notSemicolon notBrace word u rest opens group close after found ih =>
      have later := ih fun v member => by
        apply movable
        rw [← append_of_splitGroup? found]
        simp [member]
      rw [List.map_cons, List.map_cons, checkTrailer_cons (t.shift base)]
      simpa [notSemicolon, notBrace, word, opens, splitGroup?_map_shift, found] using later
  | case8 t notSemicolon notBrace word u rest notOpen ih =>
      have later := ih fun v member => movable v (List.mem_cons_of_mem _ member)
      rw [List.map_cons, List.map_cons, checkTrailer_cons (t.shift base)]
      simpa [notSemicolon, notBrace, word, notOpen] using later
  | case9 t notSemicolon notBrace notWord isComma =>
      simp only [List.map_cons, List.map_nil, checkTrailer_cons, Token.isPunct_shift,
        Token.isIdentifier_shift, notSemicolon, notBrace, notWord, isComma, if_true,
        Bool.false_eq_true, if_false]
      exact .blame rfl (movable t (by simp))
  | case10 t notSemicolon notBrace notWord isComma u rest isMark ih =>
      have later := ih fun v member => movable v (by simp [member])
      rw [List.map_cons, List.map_cons, checkTrailer_cons (t.shift base)]
      simpa [notSemicolon, notBrace, notWord, isComma, isMark] using later
  | case11 t notSemicolon notBrace notWord isComma u rest notMark =>
      rw [List.map_cons, List.map_cons, checkTrailer_cons]
      simp only [Token.isPunct_shift, Token.isIdentifier_shift, Token.kind_shift, notSemicolon,
        notBrace, notWord, isComma, notMark, if_true, Bool.false_eq_true, if_false]
      exact .blame rfl (movable t (by simp))
  | case12 t ts notSemicolon notBrace notWord notComma =>
      rw [List.map_cons, checkTrailer_cons]
      simp only [Token.isPunct_shift, Token.isIdentifier_shift, notSemicolon, notBrace, notWord,
        notComma, Bool.false_eq_true, if_false]
      exact .blame rfl (movable t (by simp))

/-! ## What a moved declaration says -/

/-- The component moved forward by `base` bytes. -/
def SelectorComponent.shift (base : Nat) (c : SelectorComponent) : SelectorComponent :=
  { c with range := c.range.shift base }

/-- The parameter moved forward by `base` bytes. -/
def Parameter.shift (base : Nat) (p : Parameter) : Parameter :=
  { p with range := p.range.shift base }

namespace Selector

/-- The selector moved forward by `base` bytes. -/
def shift (base : Nat) (s : Selector) : Selector where
  components := s.components.map (SelectorComponent.shift base)
  parameters := s.parameters.map (Parameter.shift base)
  returnType := s.returnType
  range := s.range.shift base

/-- The ranges of a selector, of its components and of its parameters. -/
def ranges (s : Selector) : List SourceRange :=
  s.range :: s.components.map (·.range) ++ s.parameters.map (·.range)

end Selector

theorem ArgumentTree.tokens_shift (a : ArgumentTree) :
    (a.shift base).tokens = a.tokens.map (Token.shift base) := by
  unfold tokens shift
  cases a.keyword <;> simp

theorem SignatureTree.tokens_shift (s : SignatureTree) :
    (s.shift base).tokens = s.tokens.map (Token.shift base) := by
  cases s with
  | unary keyword => rfl
  | keywords arguments =>
      simp [shift, tokens, List.flatMap_map, List.map_flatMap, ArgumentTree.tokens_shift]

theorem DeclarationTree.tokens_shift (d : DeclarationTree) :
    (d.shift base).tokens = d.tokens.map (Token.shift base) := by
  unfold tokens shift
  cases d.marker <;> simp [SignatureTree.tokens_shift]

theorem DeclarationTree.kind_shift (d : DeclarationTree) : (d.shift base).kind = d.kind := by
  unfold kind shift
  cases d.marker <;> rfl

section Argument

variable {a : ArgumentTree} (movable : ∀ t ∈ a.tokens, t.range.Movable base)
include movable

theorem ArgumentTree.component_shift :
    (a.shift base).component = a.component.shift base ∧ a.component.range.Movable base := by
  have firstMovable := movable _ a.first_mem_tokens
  have nameMovable := movable _ a.name_mem_tokens
  have sameFirst : (a.shift base).first = a.first.shift base := by
    unfold first shift
    cases a.keyword <;> rfl
  refine ⟨SelectorComponent.ext (word_map_shift _) rfl ?_,
    SourceRange.movable_ofBounds firstMovable.location_add_le nameMovable.stop_add_le⟩
  change SourceRange.ofBounds (a.shift base).first.range.location (a.name.range.shift base).stop =
    (SourceRange.ofBounds a.first.range.location a.name.range.stop).shift base
  rw [sameFirst, SourceRange.shift_ofBounds firstMovable.location_add_le nameMovable.stop_add_le,
    ← SourceRange.location_shift firstMovable, ← SourceRange.stop_shift_of_movable nameMovable]
  rfl

theorem ArgumentTree.parameter_shift :
    (a.shift base).parameter = a.parameter.shift base ∧ a.parameter.range.Movable base := by
  have openMovable := movable a.typeOpen (by simp [tokens])
  have nameMovable := movable _ a.name_mem_tokens
  have typeMovable : ∀ t ∈ a.type, t.range.Movable base := fun t member =>
    movable t (a.type_infix.subset member)
  refine ⟨Parameter.ext (Token.spell_map_shift typeMovable) rfl ?_,
    SourceRange.movable_ofBounds openMovable.location_add_le nameMovable.stop_add_le⟩
  change SourceRange.ofBounds (a.typeOpen.range.shift base).location
      (a.name.range.shift base).stop =
    (SourceRange.ofBounds a.typeOpen.range.location a.name.range.stop).shift base
  rw [SourceRange.shift_ofBounds openMovable.location_add_le nameMovable.stop_add_le,
    SourceRange.location_shift openMovable, SourceRange.stop_shift_of_movable nameMovable]

end Argument

section Signature

variable {s : SignatureTree} (movable : ∀ t ∈ s.tokens, t.range.Movable base)
include movable

theorem SignatureTree.components_shift :
    (s.shift base).components = s.components.map (SelectorComponent.shift base) ∧
      ∀ c ∈ s.components, c.range.Movable base := by
  cases s with
  | unary keyword => exact ⟨rfl, by simpa [components, tokens] using movable⟩
  | keywords arguments =>
      have each : ∀ a ∈ arguments, (a.shift base).component = a.component.shift base ∧
          a.component.range.Movable base := fun a member =>
        ArgumentTree.component_shift fun t found =>
          movable t (List.mem_flatMap.2 ⟨a, member, found⟩)
      refine ⟨?_, ?_⟩
      · simp only [shift, components, List.map_map]
        exact List.map_congr_left fun a member => (each a member).1
      · intro c member
        obtain ⟨a, found, rfl⟩ := List.mem_map.1 member
        exact (each a found).2

theorem SignatureTree.parameters_shift :
    (s.shift base).parameters = s.parameters.map (Parameter.shift base) ∧
      ∀ p ∈ s.parameters, p.range.Movable base := by
  cases s with
  | unary keyword => exact ⟨rfl, by simp [parameters]⟩
  | keywords arguments =>
      have each : ∀ a ∈ arguments, (a.shift base).parameter = a.parameter.shift base ∧
          a.parameter.range.Movable base := fun a member =>
        ArgumentTree.parameter_shift fun t found =>
          movable t (List.mem_flatMap.2 ⟨a, member, found⟩)
      refine ⟨?_, ?_⟩
      · simp only [shift, parameters, List.map_map]
        exact List.map_congr_left fun a member => (each a member).1
      · intro p member
        obtain ⟨a, found, rfl⟩ := List.mem_map.1 member
        exact (each a found).2

end Signature

/-- The fields that a declaration hands to the checks of a selector. -/
def DeclarationTree.fields (d : DeclarationTree) : Selector :=
  ⟨d.signature.components, d.signature.parameters, Token.spell d.returnType, d.range⟩

/-- The fields of a declaration of the grammar pass the checks. -/
theorem DeclarationTree.Valid.selector_eq {d : DeclarationTree} (valid : d.Valid)
    (fits : ∀ t ∈ d.tokens, t.range.Fits) : d.selector = .ok d.fields := by
  refine selector_eq_ok_iff.2 ⟨rfl, valid.wellFormed ?_⟩
  intro keyword unary
  apply fits
  apply d.signature_infix.subset
  rw [unary]
  exact List.mem_cons_self ..

section Declaration

variable {d : DeclarationTree} (movable : ∀ t ∈ d.tokens, t.range.Movable base)
include movable

theorem DeclarationTree.range_shift :
    (d.shift base).range = d.range.shift base ∧ d.range.Movable base := by
  have rangesMovable : ∀ r ∈ d.tokens.map (·.range), r.Movable base := by simpa using movable
  obtain ⟨same, moved⟩ := SourceRange.envelopeOf?_map_shift rangesMovable
  have tokens : (d.tokens.map (·.range)).map (SourceRange.shift base) =
      (d.shift base).tokens.map (·.range) := by
    rw [d.tokens_shift, List.map_map, List.map_map]
    rfl
  rw [tokens, (d.shift base).envelopeOf?_tokens.1, d.envelopeOf?_tokens.1] at same
  exact ⟨Option.some.inj same, moved _ d.envelopeOf?_tokens.1⟩

/-- A moved declaration has the fields of the old one, moved. -/
theorem DeclarationTree.fields_shift : (d.shift base).fields = d.fields.shift base := by
  have signature : ∀ t ∈ d.signature.tokens, t.range.Movable base := fun t member =>
    movable t (d.signature_infix.subset member)
  have returnType : ∀ t ∈ d.returnType, t.range.Movable base := fun t member =>
    movable t (d.returnType_infix.subset member)
  exact Selector.ext (SignatureTree.components_shift signature).1
    (SignatureTree.parameters_shift signature).1 (Token.spell_map_shift returnType)
    (range_shift movable).1

theorem DeclarationTree.movable_fields : ∀ r ∈ d.fields.ranges, r.Movable base := by
  have signature : ∀ t ∈ d.signature.tokens, t.range.Movable base := fun t member =>
    movable t (d.signature_infix.subset member)
  intro r member
  simp only [Selector.ranges, fields, List.cons_append, List.mem_cons, List.mem_append,
    List.mem_map] at member
  rcases member with rfl | ⟨c, found, rfl⟩ | ⟨p, found, rfl⟩
  · exact (range_shift movable).2
  · exact (SignatureTree.components_shift signature).2 c found
  · exact (SignatureTree.parameters_shift signature).2 p found

end Declaration

namespace Selector

/-- The ranges of a selector that was read stay offsets if those of the tokens do. -/
theorem movable_of_ofTokens {ts : List Token} {kind : MethodKind} {s : Selector}
    (movable : ∀ t ∈ ts, t.range.Movable base) (read : ofTokens ts = .ok (kind, s)) :
    ∀ r ∈ s.ranges, r.Movable base := by
  obtain ⟨tree, trailer, readTree, -, selector, -⟩ := ofTokens_eq_ok_iff.1 read
  obtain ⟨-, split⟩ := valid_of_readDeclaration readTree
  obtain rfl : s = tree.fields := (DeclarationTree.selector_eq_ok_iff.1 selector).1
  apply DeclarationTree.movable_fields
  intro t member
  apply movable
  rw [← split]
  exact List.mem_append_left _ member

/-- **A method is read wherever it stands.** -/
theorem ofTokens_moves {ts : List Token} (movable : ∀ t ∈ ts, t.range.Movable base) :
    Moves base (Prod.map id (Selector.shift base)) (ofTokens ts)
      (ofTokens (ts.map (Token.shift base))) := by
  refine (readDeclaration_moves movable).bind ?_
  rintro ⟨tree, trailer⟩ read read'
  obtain ⟨valid, split⟩ := valid_of_readDeclaration read
  obtain ⟨valid', -⟩ := valid_of_readDeclaration read'
  rw [← split] at movable
  have treeMovable : ∀ t ∈ tree.tokens, t.range.Movable base := fun t member =>
    movable t (List.mem_append_left _ member)
  have fits' : ∀ t ∈ (tree.shift base).tokens, t.range.Fits := by
    intro t member
    rw [tree.tokens_shift] at member
    obtain ⟨u, found, rfl⟩ := List.mem_map.1 member
    exact (treeMovable u found).fits_shift
  refine (checkTrailer_moves fun t member => movable t (List.mem_append_right _ member)).bind ?_
  rintro ⟨⟩ - -
  rw [valid.selector_eq fun t member => (treeMovable t member).fits]
  rw [valid'.selector_eq fits', DeclarationTree.fields_shift treeMovable, tree.kind_shift]
  exact .read

end Selector

end ProtocolFakes
