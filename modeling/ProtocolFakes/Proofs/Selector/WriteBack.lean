import ProtocolFakes.Failure
import ProtocolFakes.Proofs.Selector.Rendering
import ProtocolFakes.Proofs.TextEdit

/-!
# Writing an edited declaration back

A source with a method is cut into three runs of pieces: gaps, the declaration from
its first token to its last, and the trailer (`exists_pieces_of_ofTokens`).  The
range of the selector covers exactly the middle one.  Replacing it by a rendered
declaration leaves the other two as they were, and they are cut as before: the gaps
still stand in front of a token, and the trailer still stands behind a word.

So a patched source is read as the selector that was rendered, and patching it once
more changes nothing.
-/

namespace ProtocolFakes

set_option autoImplicit false

open Text (byteLength)
open TextEdit (applyTo?_eq)

/-! ## The pieces of a method -/

/-- A word among the pieces of a text ends in front of what follows it. -/
theorem endsWord_of_cuts {lineStart : Bool} {ps : List Piece} {rest : List Char} {start : Nat}
    {ts : List Token} {t : Token} (cuts : Cuts lineStart ps rest) (last : EndsWithToken ps)
    (tokens : tokensFrom start ps = ts ++ [t]) (word : t.isIdentifier = true) : EndsWord rest := by
  rcases List.eq_nil_or_concat ps with rfl | ⟨qs, q, rfl⟩
  · rw [tokensFrom] at tokens
    simp at tokens
  rw [List.concat_eq_append] at *
  cases q with
  | gap kind cs => cases last (.gap kind cs) (by simp)
  | token kind cs =>
      rw [tokensFrom_append] at tokens
      obtain ⟨-, same⟩ := List.append_inj' tokens rfl
      obtain rfl := List.singleton_inj.1 same
      obtain rfl : kind = .identifier := by simpa [Token.isIdentifier] using word
      obtain ⟨c, ds, chars, read⟩ := (cuts_append.1 cuts).2.1
      obtain rfl : cs = c :: ds := chars
      cases (Piece.readAt_token_iff.1 ⟨c, ds, rfl, read⟩).2 with
      | identifier start word ends => exact ends

/-- **A source with a method is gaps, a declaration and a trailer.** The range of the
selector goes from the first character of the declaration to the last. -/
theorem exists_pieces_of_ofTokens {source : String} {base : Nat} {kind : MethodKind}
    {s : Selector} (fits : base + byteLength source.toList ≤ maxOffset)
    (read : Selector.ofTokens (tokenize source base) = .ok (kind, s)) :
    ∃ gs ms rs, pieces source.toList = gs ++ (ms ++ rs) ∧ (∀ g ∈ gs, g.isGap = true) ∧
      (∃ k cs qs, ms = .token k cs :: qs) ∧ EndsWithToken ms ∧ EndsWord (spelling rs) ∧
      s.range.location = base + byteLength (spelling gs) ∧
      s.range.stop = base + byteLength (spelling gs) + byteLength (spelling ms) ∧
      ∀ start, checkTrailer (tokensFrom start rs) = .ok () := by
  obtain ⟨d, ⟨⟨valid, trailerValid⟩, split⟩, -, selector⟩ := exists_derivation_of_ofTokens read
  obtain ⟨ts, t, tokens, word⟩ := valid.last
  have declared : tokensFrom base (pieces source.toList) =
      d.declaration.tokens ++ d.trailer.tokens := split.symm
  obtain ⟨qs, rs, whole, front, behind, last⟩ := exists_pieces_of_tokensFrom_eq_append declared
  have cuts := (cuts_of_piecesFrom whole).1
  have ends := endsWord_of_cuts cuts last (front.trans tokens) word
  obtain ⟨u, us, first⟩ : ∃ u us, d.declaration.tokens = u :: us := by
    rw [tokens]
    cases ts with
    | nil => exact ⟨_, _, rfl⟩
    | cons u us => exact ⟨_, _, rfl⟩
  obtain ⟨gs, k, cs, ms, rfl, gaps, -, -⟩ := exists_piece_of_tokensFrom_eq_cons (front.trans first)
  rw [tokensFrom_append, tokensFrom_of_gaps _ gaps, List.nil_append] at front
  have total := congrArg byteLength (spelling_pieces source.toList)
  rw [show pieces source.toList = _ from whole, spelling_append, spelling_append,
    Text.byteLength_append, Text.byteLength_append] at total
  have range : s.range = d.declaration.range := by
    rw [(DeclarationTree.selector_eq_ok_iff.1 selector).1]
  have envelope := d.declaration.envelopeOf?_tokens.1
  rw [← front] at envelope
  obtain ⟨location, stop⟩ := envelope_tokensFrom (by omega) (by simp [Piece.isGap]) last.of_append
    envelope
  refine ⟨gs, .token k cs :: ms, rs, by rw [← List.append_assoc]; exact whole, gaps,
    ⟨k, cs, ms, rfl⟩, last.of_append, ends, range ▸ location, range ▸ stop, ?_⟩
  intro start
  exact checkTrailer_of_lexemes_eq (checkTrailer_tokens trailerValid)
    (by rw [← behind]; exact lexemes_tokensFrom ..)

/-! ## Reading a rendered declaration -/

/-- Pieces that are gaps, a declaration of the grammar and a trailer are read as that
declaration, with the range that it covers. -/
theorem ofTokens_of_pieces {start : Nat} {gs qs rs : List Piece} {d : DeclarationTree}
    (fits : start + byteLength (spelling (gs ++ (qs ++ rs))) ≤ maxOffset)
    (gaps : ∀ g ∈ gs, g.isGap = true) (first : ∀ q ∈ qs.head?, q.isGap = false)
    (last : EndsWithToken qs) (valid : d.Valid)
    (tokens : d.tokens = tokensFrom (start + byteLength (spelling gs)) qs)
    (trailer : ∀ start, checkTrailer (tokensFrom start rs) = .ok ()) :
    ∃ s, Selector.ofTokens (tokensFrom start (gs ++ (qs ++ rs))) = .ok (d.kind, s) ∧
      d.selector = .ok s ∧ s.range.location = start + byteLength (spelling gs) ∧
      s.range.stop = start + byteLength (spelling gs) + byteLength (spelling qs) := by
  simp only [spelling_append, Text.byteLength_append] at fits
  have inside : start + byteLength (spelling gs) + byteLength (spelling qs) ≤ maxOffset := by omega
  have keywordFits : ∀ keyword, d.signature = .unary keyword → keyword.range.Fits := by
    intro keyword unary
    have member : keyword ∈ d.tokens := by
      apply d.signature_infix.subset
      rw [unary]
      exact List.mem_cons_self ..
    rw [tokens] at member
    exact (bounds_of_mem_tokensFrom inside member).2.2
  have formed := valid.wellFormed keywordFits
  have selector := DeclarationTree.selector_eq_ok_iff.2 ⟨rfl, formed⟩
  obtain ⟨location, stop⟩ := envelope_tokensFrom (e := d.range) inside first last
    (by rw [← tokens]; exact d.envelopeOf?_tokens.1)
  obtain ⟨t, trailerValid, trailerTokens⟩ := checkTrailer_eq_ok_iff.1
    (trailer (start + byteLength (spelling gs) + byteLength (spelling qs)))
  refine ⟨_, ?_, selector, location, stop⟩
  refine Derivation.Derives.ofTokens (d := ⟨d, t⟩) ⟨⟨valid, trailerValid⟩, ?_⟩ selector
  rw [tokensFrom_append, tokensFrom_of_gaps _ gaps, List.nil_append, tokensFrom_append, ← tokens,
    ← trailerTokens]
  rfl

namespace Selector

/-- A tree that restates a selector declares one that says the same. -/
theorem Restates.saysSame {d : DeclarationTree} {kind : MethodKind} {s s' : Selector}
    (restates : Restates d kind s) (selector : d.selector = .ok s') : SaysSame s' s := by
  obtain ⟨rfl, -⟩ := DeclarationTree.selector_eq_ok_iff.1 selector
  refine ⟨?_, restates.returnType⟩
  rw [entries, pairUp_signature]
  exact restates.signature.wording

/-- The surroundings of a declaration: gaps in front of it, and behind it the pieces
of a text in front of which a word ends. -/
structure Surrounds (gs rs : List Piece) : Prop where
  gaps : ∀ g ∈ gs, g.isGap = true
  front : ∀ c rest, c ≠ '\n' → Cuts true gs (c :: rest)
  ends : EndsWord (spelling rs)
  behind : piecesFrom false (spelling rs) = rs

/-- Nothing at all can surround a declaration. -/
theorem surrounds_nil : Surrounds [] [] where
  gaps := by simp
  front _ _ _ := trivial
  ends := by simp [EndsWord]
  behind := by rw [spelling_nil, piecesFrom]

/-- **A rendered declaration keeps its surroundings.** The pieces of the whole text are
those in front, those of the declaration and those behind. -/
theorem pieces_rendered {s : Selector} {kind : MethodKind} {gs qs rs : List Piece}
    (surrounds : Surrounds gs rs) (spelled : spelling qs = (s.declaration kind).toList)
    (last : EndsWithToken qs) (cuts : ∀ lineStart rest, EndsWord rest → Cuts lineStart qs rest) :
    pieces (spelling gs ++ (s.declaration kind).toList ++ spelling rs) = gs ++ (qs ++ rs) := by
  have marker : kind.marker ≠ '\n' := by cases kind <;> decide
  have ne : qs ≠ [] := by
    rintro rfl
    rw [toList_declaration] at spelled
    cases spelled
  have whole : Cuts true (gs ++ qs) (spelling rs) := by
    refine cuts_append.2 ⟨?_, cuts _ _ surrounds.ends⟩
    rw [spelled, toList_declaration]
    exact surrounds.front _ _ marker
  have text : spelling gs ++ (s.declaration kind).toList ++ spelling rs =
      spelling (gs ++ qs) ++ spelling rs := by
    rw [spelling_append, spelled]
  have behind : lineStartBehind true (gs ++ qs) = false := by
    rw [lineStartBehind, List.foldl_append]
    exact last.lineStartBehind_eq fun none => absurd none ne
  rw [text, pieces, whole.piecesFrom_eq, behind, surrounds.behind, List.append_assoc]

section Rendered

variable {s : Selector} {kind : MethodKind} {base : Nat} {gs rs : List Piece}
variable (legible : s.Legible) (surrounds : Surrounds gs rs)
variable (fits : base +
  byteLength (spelling gs ++ (s.declaration kind).toList ++ spelling rs) ≤ maxOffset)
include legible surrounds fits

/-- **A rendered declaration is read as what it was rendered from**, where its first
keyword is a word and a trailer follows it. -/
theorem read_rendered (trailer : ∀ start, checkTrailer (tokensFrom start rs) = .ok ())
    (begins : s.BeginsWithWord) :
    ∃ s', ofTokens (tokensFrom base
        (pieces (spelling gs ++ (s.declaration kind).toList ++ spelling rs))) = .ok (kind, s') ∧
      SaysSame s' s ∧ s'.WellFormed ∧ s'.range.location = base + byteLength (spelling gs) ∧
      s'.range.stop =
        base + byteLength (spelling gs) + byteLength (s.declaration kind).toList := by
  obtain ⟨qs, spelled, last, first, cuts, trees⟩ := exists_pieces_declaration legible kind
  simp only [Text.byteLength_append] at fits
  obtain ⟨d, tokens, restates⟩ := trees (base + byteLength (spelling gs)) (by omega)
  have inside : base + byteLength (spelling (gs ++ (qs ++ rs))) ≤ maxOffset := by
    simp only [spelling_append, Text.byteLength_append, spelled]
    omega
  obtain ⟨s', read, selector, location, stop⟩ := ofTokens_of_pieces inside surrounds.gaps first
    last (restates.valid begins) tokens trailer
  rw [pieces_rendered surrounds spelled last cuts]
  rw [restates.kind_eq] at read
  exact ⟨s', read, restates.saysSame selector, (DeclarationTree.selector_eq_ok_iff.1 selector).2,
    location, spelled ▸ stop⟩

/-- **A rendered declaration whose first keyword is empty is refused**, whatever
follows it. -/
theorem refuse_rendered (empty : ¬ s.BeginsWithWord) :
    ∃ range, ofTokens (tokensFrom base
        (pieces (spelling gs ++ (s.declaration kind).toList ++ spelling rs))) =
      .error (.missingSelector range) := by
  obtain ⟨qs, spelled, last, first, cuts, trees⟩ := exists_pieces_declaration legible kind
  simp only [Text.byteLength_append] at fits
  obtain ⟨d, tokens, restates⟩ := trees (base + byteLength (spelling gs)) (by omega)
  obtain ⟨colon, -, refused⟩ := restates.readDeclaration_eq empty
  rw [pieces_rendered surrounds spelled last cuts, tokensFrom_append,
    tokensFrom_of_gaps _ surrounds.gaps, List.nil_append, tokensFrom_append, ← tokens, ofTokens,
    refused]
  exact ⟨colon.range, rfl⟩

end Rendered

/-- Nothing around a declaration adds nothing to it. -/
theorem spelling_nil_append (cs : List Char) : spelling [] ++ cs ++ spelling [] = cs := by
  simp

section Alone

variable {s : Selector} {kind : MethodKind} (legible : s.Legible)
variable (short : byteLength (s.declaration kind).toList ≤ maxOffset)
include legible short

/-- The same of a declaration that stands alone. -/
theorem read_declaration (begins : s.BeginsWithWord) :
    ∃ s', ofTokens (tokenize (s.declaration kind) 0) = .ok (kind, s') ∧ SaysSame s' s := by
  rw [← spelling_nil_append (s.declaration kind).toList, ← Nat.zero_add (byteLength _)] at short
  have accepted := read_rendered legible surrounds_nil short (fun _ => checkTrailer.eq_1) begins
  rw [spelling_nil_append] at accepted
  obtain ⟨s', read, same, -⟩ := accepted
  exact ⟨s', read, same⟩

theorem refuse_declaration (empty : ¬ s.BeginsWithWord) :
    ∃ range, ofTokens (tokenize (s.declaration kind) 0) = .error (.missingSelector range) := by
  rw [← spelling_nil_append (s.declaration kind).toList, ← Nat.zero_add (byteLength _)] at short
  have refused := refuse_rendered legible surrounds_nil short empty
  rwa [spelling_nil_append] at refused

end Alone

/-! ## Patching a source -/

/-- The surroundings of the declaration of a source. -/
theorem exists_surrounds {source : String} {base : Nat} {kind : MethodKind} {s : Selector}
    (fits : base + byteLength source.toList ≤ maxOffset)
    (read : ofTokens (tokenize source base) = .ok (kind, s)) :
    ∃ gs old rs, source.toList = spelling gs ++ old ++ spelling rs ∧ Surrounds gs rs ∧
      s.range.location = base + byteLength (spelling gs) ∧
      s.range.stop = base + byteLength (spelling gs) + byteLength old ∧
      ∀ start, checkTrailer (tokensFrom start rs) = .ok () := by
  obtain ⟨gs, ms, rs, whole, gaps, ⟨k, cs, qs, rfl⟩, last, ends, location, stop, trailer⟩ :=
    exists_pieces_of_ofTokens fits read
  obtain ⟨cutGaps, declared⟩ := cuts_of_piecesFrom whole
  obtain ⟨cutDeclaration, behind⟩ := cuts_of_piecesFrom declared
  obtain ⟨c, ds, chars, firstRead⟩ := cutDeclaration.1
  obtain rfl : cs = c :: ds := chars
  have starts := (Piece.readAt_token_iff.1 ⟨c, ds, rfl, firstRead⟩).1
  have text := spelling_pieces source.toList
  rw [whole, spelling_append, spelling_append, ← List.append_assoc] at text
  refine ⟨gs, _, rs, text.symm, ⟨gaps, ?_, ends, ?_⟩, location, stop, trailer⟩
  · intro d rest other
    refine cutGaps.gaps gaps (List.cons_ne_nil _ _) ?_ _
    intro newline
    exact starts.not_newline (Option.some.inj newline)
  · rwa [last.lineStartBehind_eq fun none => by cases none] at behind

/-- **Writing an edited selector back is faithful.** Take a source whose offsets are
offsets and whose quoted texts are closed, a run of edits of the selector it declares,
and the selector at the end of the run, which begins with a word.  The replacement
applies; it puts the new declaration in the place of the text that the range of the
old selector covers, and changes nothing before or behind it.  The patched source
declares a method of the same kind that says the same as the edited selector, and
patching it again with that one changes nothing. -/
theorem replacement_faithful {source : String} {kind : MethodKind} {s e : Selector}
    {edits : List SelectorEdit} (fits : byteLength source.toList ≤ maxOffset)
    (closed : ∀ t ∈ tokenize source 0, t.isClosed = true)
    (read : ofTokens (tokenize source 0) = .ok (kind, s)) (run : s.applyAll edits = .ok e)
    (begins : e.BeginsWithWord) :
    ∃ before old after patched : String,
      source = before ++ old ++ after ∧
      byteLength before.toList = s.range.location ∧
      byteLength (before ++ old).toList = s.range.stop ∧
      (e.replacement kind).applyTo? source = some patched ∧
      patched = before ++ e.declaration kind ++ after ∧
      (byteLength patched.toList ≤ maxOffset → ∃ e' : Selector,
        ofTokens (tokenize patched 0) = .ok (kind, e') ∧
        e'.components.map (fun c => (c.keyword, c.takesArgument)) =
          e.components.map (fun c => (c.keyword, c.takesArgument)) ∧
        e'.parameters.map (fun p => (p.typeName, p.name)) =
          e.parameters.map (fun p => (p.typeName, p.name)) ∧
        e'.returnType = e.returnType ∧
        (e'.replacement kind).applyTo? patched = some patched) := by
  have fits0 : 0 + byteLength source.toList ≤ maxOffset := by omega
  have legibleStart := legible_of_ofTokens fits0 closed read
  have legible := legibleStart.applyAll run
  obtain ⟨gs, old, rs, text, surrounds, location, stop, trailer⟩ := exists_surrounds fits0 read
  rw [Nat.zero_add] at location stop
  have sameRange : e.range = s.range := (applyAll_keeps run).2
  have sourceEq : source = String.ofList (spelling gs ++ old ++ spelling rs) := by
    rw [← text, String.ofList_toList]
  have applied : (e.replacement kind).applyTo? source = some (String.ofList (spelling gs) ++
      e.declaration kind ++ String.ofList (spelling rs)) := by
    rw [sourceEq]
    exact applyTo?_eq legible.wellFormed.range_fits
      (by rw [replacement, sameRange, location]) (by rw [replacement, sameRange, stop])
  refine ⟨String.ofList (spelling gs), String.ofList old, String.ofList (spelling rs), _, ?_, ?_,
    ?_, applied, rfl, ?_⟩
  · rw [sourceEq, String.ofList_append, String.ofList_append]
  · rw [String.toList_ofList, location]
  · rw [String.toList_append, String.toList_ofList, String.toList_ofList, Text.byteLength_append,
      stop]
  · intro short
    have patchedText : (String.ofList (spelling gs) ++ e.declaration kind ++
        String.ofList (spelling rs)).toList =
          spelling gs ++ (e.declaration kind).toList ++ spelling rs := by
      simp
    rw [patchedText] at short
    have short0 : 0 + byteLength (spelling gs ++ (e.declaration kind).toList ++ spelling rs) ≤
        maxOffset := by
      omega
    obtain ⟨e', reread, same, formed, location', stop'⟩ := read_rendered legible surrounds short0
      trailer begins
    rw [Nat.zero_add] at location' stop'
    refine ⟨e', ?_, same.components_eq, same.parameters_eq formed legible.wellFormed,
      same.returnType, ?_⟩
    · rw [tokenize, patchedText]
      exact reread
    · have again : (e'.replacement kind).applyTo?
          (String.ofList (spelling gs ++ (e.declaration kind).toList ++ spelling rs)) = _ :=
        applyTo?_eq formed.range_fits location' stop'
      rw [← patchedText, String.ofList_toList] at again
      rw [again]
      exact congrArg some (by rw [replacement, same.declaration_eq])

/-- A method with a comment in front of it and an attribute behind it. -/
def resetSource : String := "// Forgets all.\n- (void)reset NS_SWIFT_NAME(reset());"

/-- The same method with two arguments. -/
def resetPatched : String :=
  "// Forgets all.\n- (void)reset:(id)arg0 to:(id)arg1 NS_SWIFT_NAME(reset());"

theorem replacement_faithful_reset :
    ∃ s e e' : Selector, ofTokens (tokenize resetSource 0) = .ok (.instanceMethod, s) ∧
      s.applyAll [.insert 1, .rename 1 "to"] = .ok e ∧
      (e.replacement .instanceMethod).applyTo? resetSource = some resetPatched ∧
      ofTokens (tokenize resetPatched 0) = .ok (.instanceMethod, e') ∧
      (e'.replacement .instanceMethod).applyTo? resetPatched = some resetPatched := by
  have closed : ∀ t ∈ tokenize resetSource 0, t.isClosed = true := by decide +kernel
  have read : ofTokens (tokenize resetSource 0) = .ok (.instanceMethod,
      ⟨[⟨"reset", false, .clamped 24 5⟩], [], "void", .clamped 16 13⟩) := by
    decide +kernel
  have run : applyAll ⟨[⟨"reset", false, .clamped 24 5⟩], [], "void", .clamped 16 13⟩
      [.insert 1, .rename 1 "to"] = .ok _ := rfl
  obtain ⟨before, old, after, patched, -, -, -, applied, -, again⟩ :=
    replacement_faithful (by decide) closed read run ⟨_, rfl, by decide⟩
  have patchedEq : some patched = some resetPatched := by
    rw [← applied]
    decide +kernel
  obtain rfl := Option.some.inj patchedEq
  obtain ⟨e', reread, -, -, -, same⟩ := again (by decide)
  exact ⟨_, _, e', read, run, applied, reread, same⟩

/-- **A rendered selector is read back exactly when its first keyword is a word.**
Otherwise the reader misses a keyword at the first colon, although it does without
one at every later colon. -/
theorem declaration_read_back_iff {source : String} {kind : MethodKind} {s e : Selector}
    {edits : List SelectorEdit} (fits : byteLength source.toList ≤ maxOffset)
    (closed : ∀ t ∈ tokenize source 0, t.isClosed = true)
    (read : ofTokens (tokenize source 0) = .ok (kind, s)) (run : s.applyAll edits = .ok e)
    (short : byteLength (e.declaration kind).toList ≤ maxOffset) :
    ((∃ e', ofTokens (tokenize (e.declaration kind) 0) = .ok (kind, e') ∧ e'.name = e.name) ↔
        e.BeginsWithWord) ∧
      (¬ e.BeginsWithWord → ∃ range,
        ofTokens (tokenize (e.declaration kind) 0) = .error (.missingSelector range)) := by
  have legible := (legible_of_ofTokens (by omega) closed read).applyAll run
  refine ⟨⟨?_, ?_⟩, refuse_declaration legible short⟩
  · rintro ⟨e', reread, -⟩
    by_cases begins : e.BeginsWithWord
    · exact begins
    · obtain ⟨range, error⟩ := refuse_declaration legible short begins
      rw [error] at reread
      cases reread
  · intro begins
    obtain ⟨e', reread, same⟩ := read_declaration legible short begins
    exact ⟨e', reread, same.name_eq⟩

/-- A method with one argument. -/
def fooSource : String := "- (void)foo:(id)x;"

/-- The selector of that method. -/
def fooSelector : Selector :=
  ⟨[⟨"foo", true, .clamped 8 9⟩], [⟨"id", "x", .clamped 12 5⟩], "void", .clamped 0 17⟩

theorem read_fooSource :
    (∀ t ∈ tokenize fooSource 0, t.isClosed = true) ∧
      ofTokens (tokenize fooSource 0) = .ok (.instanceMethod, fooSelector) := by
  decide +kernel

/-- A component that is put in front and named is read back. -/
theorem declaration_read_back_iff_named :
    ∃ e e' : Selector,
      ofTokens (tokenize fooSource 0) = .ok (.instanceMethod, fooSelector) ∧
      fooSelector.applyAll [.insert 0, .rename 0 "bar"] = .ok e ∧
      ofTokens (tokenize (e.declaration .instanceMethod) 0) = .ok (.instanceMethod, e') ∧
      e'.name = "bar:foo:" := by
  obtain ⟨closed, read⟩ := read_fooSource
  have run : fooSelector.applyAll [.insert 0, .rename 0 "bar"] = .ok _ := rfl
  have readBack := declaration_read_back_iff (by decide) closed read run (by decide)
  obtain ⟨e', reread, sameName⟩ := readBack.1.2 ⟨_, rfl, by decide⟩
  exact ⟨_, e', read, run, reread, sameName.trans (by decide)⟩

/-- `fooSelector` with a component in front that nobody named. -/
def fooPrepended : Selector :=
  ⟨[⟨"", true, .emptyAt 8⟩, ⟨"foo", true, .clamped 8 9⟩],
    [⟨"id", "arg0", .emptyAt 8⟩, ⟨"id", "x", .clamped 12 5⟩], "void", .clamped 0 17⟩

/-- Without a name it is not read back: one insertion is enough to leave the language
that the reader accepts. -/
theorem not_every_edited_declaration_is_read_back :
    ¬ ∀ (source : String) (kind : MethodKind) (s e : Selector) (edits : List SelectorEdit),
      byteLength source.toList ≤ maxOffset → (∀ t ∈ tokenize source 0, t.isClosed = true) →
      ofTokens (tokenize source 0) = .ok (kind, s) → s.applyAll edits = .ok e →
      ∃ e', ofTokens (tokenize (e.declaration kind) 0) = .ok (kind, e') ∧ e'.name = e.name := by
  intro everyRun
  have run : fooSelector.applyAll [.insert 0] = .ok fooPrepended := rfl
  obtain ⟨closed, read⟩ := read_fooSource
  have legible := (legible_of_ofTokens (by decide) closed read).applyAll run
  have empty : ¬ fooPrepended.BeginsWithWord := by
    rintro ⟨c, first, word⟩
    obtain rfl := Option.some.inj first
    exact word rfl
  obtain ⟨range, refused⟩ :=
    refuse_declaration legible (show byteLength (fooPrepended.declaration .instanceMethod).toList ≤
      maxOffset by decide) empty
  obtain ⟨e', reread, -⟩ := everyRun _ _ _ _ [.insert 0] (by decide) closed read run
  rw [refused] at reread
  cases reread

end Selector

end ProtocolFakes
