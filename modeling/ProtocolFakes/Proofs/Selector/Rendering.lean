import ProtocolFakes.Proofs.Selector.Legible
import ProtocolFakes.Selector.Render

/-!
# Rendered declarations are read back

The declaration of a legible selector is put together from texts that are read as
they were written, so the cutter takes it apart into the tokens of a declaration
tree that says what the selector says (`exists_pieces_declaration`).

**The first keyword decides whether that tree is one of the grammar.**  A later
argument may begin with its colon, the first one may not.
-/

namespace ProtocolFakes.Selector

set_option autoImplicit false

open Text (byteLength)

/-! ## Wording -/

/-- What an entry says, apart from where it stands. -/
def wordingOf (e : Entry) : String × Bool × Option (String × String) :=
  (e.1.keyword, e.1.takesArgument, e.2.map fun p => (p.typeName, p.name))

/-- How an entry of a given wording is declared. -/
def declareWording : String × Bool × Option (String × String) → String
  | (keyword, _, some (type, name)) => keyword ++ ":(" ++ type ++ ")" ++ name
  | (keyword, takes, none) => if takes then keyword ++ ":" else keyword

/-- An entry is declared by its wording. -/
theorem declareEntry_eq (e : Entry) : declareEntry e = declareWording (wordingOf e) := by
  obtain ⟨c, _ | p⟩ := e
  · rfl
  · rfl

/-- Two selectors that say the same, wherever they stand. -/
structure SaysSame (s s' : Selector) : Prop where
  wording : s.entries.map wordingOf = s'.entries.map wordingOf
  returnType : s.returnType = s'.returnType

theorem SaysSame.declaration_eq {s s' : Selector} (same : SaysSame s s') (kind : MethodKind) :
    s.declaration kind = s'.declaration kind := by
  have declared : ∀ t : Selector, t.entries.map declareEntry =
      (t.entries.map wordingOf).map declareWording := by
    intro t
    rw [List.map_map]
    exact List.map_congr_left fun e _ => declareEntry_eq e
  rw [declaration, declaration, declared, declared, same.wording, same.returnType]

theorem SaysSame.components_eq {s s' : Selector} (same : SaysSame s s') :
    s.components.map (fun c => (c.keyword, c.takesArgument)) =
      s'.components.map fun c => (c.keyword, c.takesArgument) := by
  have said : ∀ t : Selector, t.components.map (fun c => (c.keyword, c.takesArgument)) =
      (t.entries.map wordingOf).map fun w => (w.1, w.2.1) := by
    intro t
    rw [← map_fst_entries, List.map_map, List.map_map]
    rfl
  rw [said, said, same.wording]

theorem SaysSame.parameters_eq {s s' : Selector} (same : SaysSame s s') (formed : s.WellFormed)
    (formed' : s'.WellFormed) :
    s.parameters.map (fun p => (p.typeName, p.name)) =
      s'.parameters.map fun p => (p.typeName, p.name) := by
  have said : ∀ t : Selector, t.WellFormed → t.parameters.map (fun p => (p.typeName, p.name)) =
      (t.entries.map wordingOf).filterMap fun w => w.2.2 := by
    intro t formed
    rw [← formed.filterMap_snd_entries, List.map_filterMap, List.filterMap_map]
    rfl
  rw [said s formed, said s' formed', same.wording]

/-- Selectors that say the same have the same name. -/
theorem SaysSame.name_eq {s s' : Selector} (same : SaysSame s s') : s.name = s'.name := by
  have spelled : ∀ t : Selector, t.components.map (·.spelling) =
      (t.components.map fun c => (c.keyword, c.takesArgument)).map
        fun w => if w.2 then w.1 ++ ":" else w.1 := by
    intro t
    rw [List.map_map]
    rfl
  rw [name, name, spelled, spelled, same.components_eq]

/-- The first keyword of a selector is not empty. -/
def BeginsWithWord (s : Selector) : Prop := ∃ c ∈ s.components.head?, c.keyword ≠ ""

/-! ## Arguments -/

theorem breaksOff_paren (rest : List Char) : BreaksOff (')' :: rest) :=
  breaksOff_cons (by decide) rest

theorem endsWord_colon (rest : List Char) : EndsWord (':' :: rest) :=
  (breaksOff_cons (by decide) rest).endsWord

/-- A keyword is read as a word, or as nothing if it is empty. -/
theorem readsAs_keyword {keyword : String}
    (isWord : keyword = "" ∨ isIdentifierWord keyword.toList = true) :
    ReadsAs keyword.toList EndsWord fun ts => ∃ k : Option Token, ts = k.toList ∧
      (∀ t ∈ k, t.isIdentifier = true) ∧ (k.map Token.text).getD "" = keyword ∧
      (keyword = "" → k = none) := by
  rcases isWord with rfl | isWord
  · refine (readsAs_nil EndsWord).imp ?_
    rintro ts rfl
    exact ⟨none, rfl, by simp, rfl, fun _ => rfl⟩
  · refine (readsAs_word isWord).imp ?_
    rintro ts ⟨t, rfl, identifier, text⟩
    refine ⟨some t, rfl, by simpa using identifier, by simp [text], ?_⟩
    rintro rfl
    cases isWord

/-- A type in parentheses is read back. -/
theorem readsAs_group {type : String} (isType : IsTypeText type) :
    ReadsAs ('(' :: type.toList ++ [')']) (fun _ => True) fun ts =>
      ∃ (opening : Token) (group : List Token) (closing : Token),
        ts = opening :: group ++ [closing] ∧ opening.isPunct '(' = true ∧ group ≠ [] ∧
        Balanced group ∧ Token.spell group = type ∧ closing.isPunct ')' = true := by
  have opened := (readsAs_plain (c := '(') (by decide)).append isType fun _ _ => trivial
  have closed := opened.append (readsAs_plain (c := ')') (by decide))
    fun rest _ => breaksOff_paren rest
  refine closed.imp ?_
  rintro ts ⟨_, _, rfl, ⟨_, group, rfl, ⟨opening, rfl, isOpen⟩, ne, balanced, spelled⟩,
    closing, rfl, isClose⟩
  exact ⟨opening, group, closing, rfl, isOpen, ne, balanced, spelled, isClose⟩

/-- **An argument is read back.** -/
theorem readsAs_argument {e : Entry} (legible : LegibleEntry e)
    (paired : e.2.isSome = true ∧ e.1.takesArgument = true) :
    ReadsAs (declareEntry e).toList EndsWord fun ts => ∃ a : ArgumentTree,
      a.tokens = ts ∧ a.Valid ∧ wordingOf (a.component, some a.parameter) = wordingOf e ∧
      (e.1.keyword = "" → a.keyword = none) := by
  obtain ⟨hasParameter, takes⟩ := paired
  obtain ⟨c, _ | p⟩ := e
  · cases hasParameter
  have takes : c.takesArgument = true := takes
  have text : (declareEntry (c, some p)).toList = c.keyword.toList ++ ([':'] ++
      ('(' :: p.typeName.toList ++ [')'] ++ p.name.toList)) := by
    simp [declareEntry]
  have keyword := readsAs_keyword (legible.keyword.imp_left And.left)
  have typed := (readsAs_group (legible.type p rfl)).append (readsAs_word (legible.name p rfl))
    fun _ _ => trivial
  have colon := (readsAs_plain (c := ':') (by decide)).append typed fun _ _ => trivial
  rw [text]
  refine (keyword.append colon fun rest _ => endsWord_colon _).imp ?_
  rintro ts ⟨_, _, rfl, ⟨k, rfl, isWord, sameWord, noWord⟩, _, _, rfl, ⟨colon, rfl, isColon⟩,
    _, _, rfl, ⟨opening, type, closing, rfl, isOpen, ne, balanced, sameType, isClose⟩,
    name, rfl, isName, sameName⟩
  refine ⟨⟨k, colon, opening, type, closing, name⟩, by simp [ArgumentTree.tokens],
    ⟨isWord, isColon, isOpen, ne, balanced, isClose, isName⟩, ?_, noWord⟩
  rw [String.ofList_toList] at sameName
  simp [wordingOf, ArgumentTree.component, ArgumentTree.word, ArgumentTree.parameter, sameWord,
    takes, sameType, sameName]

theorem declareEntry_ne_nil {e : Entry} (hasParameter : e.2.isSome = true) :
    (declareEntry e).toList ≠ [] := by
  obtain ⟨c, _ | p⟩ := e
  · cases hasParameter
  · simp [declareEntry]

theorem intercalate_ne_nil {text : String} (ne : text.toList ≠ []) (texts : List String) :
    (" ".intercalate (text :: texts)).toList ≠ [] := by
  cases texts with
  | nil => rwa [String.intercalate_singleton]
  | cons text' texts =>
      rw [String.intercalate_cons_cons]
      simp

/-- **Arguments are read back**, one after another, and an empty keyword leaves
nothing in front of the first colon. -/
theorem readsAs_arguments {e : Entry} {es : List Entry}
    (legible : ∀ x ∈ e :: es, LegibleEntry x)
    (paired : ∀ x ∈ e :: es, x.2.isSome = true ∧ x.1.takesArgument = true) :
    ReadsAs (" ".intercalate ((e :: es).map declareEntry)).toList EndsWord fun ts =>
      ∃ (a : ArgumentTree) (as : List ArgumentTree), (a :: as).flatMap ArgumentTree.tokens = ts ∧
        (∀ b ∈ a :: as, b.Valid) ∧
        (declaredEntries (.keywords (a :: as))).map wordingOf = (e :: es).map wordingOf ∧
        (e.1.keyword = "" → a.keyword = none) := by
  induction es generalizing e with
  | nil =>
      rw [List.map_singleton, String.intercalate_singleton]
      refine (readsAs_argument (legible e (List.mem_cons_self ..))
        (paired e (List.mem_cons_self ..))).imp ?_
      rintro ts ⟨a, rfl, valid, same, noWord⟩
      exact ⟨a, [], by simp, by simpa using valid, by simpa [declaredEntries] using same, noWord⟩
  | cons e' es ih =>
      have first := readsAs_argument (legible e (List.mem_cons_self ..))
        (paired e (List.mem_cons_self ..))
      have others := ih (fun x member => legible x (List.mem_cons_of_mem _ member))
        fun x member => paired x (List.mem_cons_of_mem _ member)
      have text : (" ".intercalate ((e :: e' :: es).map declareEntry)).toList =
          (declareEntry e).toList ++
            ' ' :: (" ".intercalate ((e' :: es).map declareEntry)).toList := by
        rw [List.map_cons, List.map_cons, String.intercalate_cons_cons]
        simp
      have second_ne : (declareEntry e').toList ≠ [] :=
        declareEntry_ne_nil (paired e' (List.mem_cons_of_mem _ (List.mem_cons_self ..))).1
      have ne := intercalate_ne_nil second_ne (es.map declareEntry)
      rw [text]
      refine (first.append (others.space_cons ne) fun rest _ =>
        (breaksOff_cons (by decide) _).endsWord).imp ?_
      rintro ts ⟨_, _, rfl, ⟨a, rfl, valid, same, noWord⟩, b, bs, rfl, validLater, sameLater, -⟩
      refine ⟨a, b :: bs, by simp, ?_, ?_, noWord⟩
      · intro x member
        rcases List.mem_cons.1 member with rfl | later
        · exact valid
        · exact validLater x later
      · exact List.cons_eq_cons.2 ⟨same, sameLater⟩

/-! ## Signatures and declarations -/

/-- What behind the return type is read back of a selector: its signature, which is
one of the grammar if it begins with a word, and begins with a colon if not. -/
structure Signs (signature : SignatureTree) (s : Selector) : Prop where
  wording : (declaredEntries signature).map wordingOf = s.entries.map wordingOf
  valid : s.BeginsWithWord → signature.Valid
  colon : ¬ s.BeginsWithWord → ∃ colon ts, signature.tokens = colon :: ts ∧
    colon.isPunct ':' = true

/-- A selector begins with a word when its first entry does. -/
theorem beginsWithWord_iff {s : Selector} {e : Entry} {es : List Entry}
    (split : s.entries = e :: es) : s.BeginsWithWord ↔ e.1.keyword ≠ "" := by
  have head : s.components.head? = some e.1 := by
    rw [← map_fst_entries, split]
    rfl
  unfold BeginsWithWord
  simp [head]

/-- A component that stands alone and takes no argument is read back as a word. -/
theorem readsAs_bare {s : Selector} {c : SelectorComponent} (split : s.entries = [(c, none)])
    (takesNot : c.takesArgument = false) (isWord : isIdentifierWord c.keyword.toList = true) :
    ReadsAs (declareEntry (c, none)).toList EndsWord fun ts =>
      ∃ signature : SignatureTree, signature.tokens = ts ∧ Signs signature s := by
  rw [declareEntry, SelectorComponent.spelling, if_neg (by simp [takesNot])]
  refine (readsAs_word isWord).imp ?_
  rintro ts ⟨t, rfl, identifier, text⟩
  rw [String.ofList_toList] at text
  refine ⟨.unary t, rfl, ?_, ?_, ?_⟩
  · rw [split]
    simp [declaredEntries, wordingOf, text, takesNot]
  · intro
    exact .unary identifier
  · intro empty
    refine absurd ((beginsWithWord_iff split).2 ?_) empty
    intro none
    rw [none] at isWord
    cases isWord

/-- Arguments that were read back make up the signature of a selector. -/
theorem signs_keywords {s : Selector} {e : Entry} {es : List Entry} {a : ArgumentTree}
    {as : List ArgumentTree} (split : s.entries = e :: es) (valid : ∀ b ∈ a :: as, b.Valid)
    (same : (declaredEntries (.keywords (a :: as))).map wordingOf = (e :: es).map wordingOf)
    (noWord : e.1.keyword = "" → a.keyword = none) : Signs (.keywords (a :: as)) s := by
  have firstValid := valid a (List.mem_cons_self ..)
  refine ⟨by rw [same, split], ?_, ?_⟩
  · intro begins
    have word : a.word = e.1.keyword := congrArg Prod.fst (List.cons.inj same).1
    have named : a.keyword.isSome = true := by
      cases keyword : a.keyword with
      | some k => rfl
      | none =>
          rw [ArgumentTree.word, keyword] at word
          exact absurd word.symm ((beginsWithWord_iff split).1 begins)
    exact .keywords named firstValid fun b found => valid b (List.mem_cons_of_mem _ found)
  · intro empty
    have none : a.keyword = none :=
      noWord (Classical.not_not.1 (mt (beginsWithWord_iff split).2 empty))
    refine ⟨a.colon, a.tail ++ as.flatMap ArgumentTree.tokens, ?_, firstValid.colon⟩
    rw [SignatureTree.tokens, List.flatMap_cons, ArgumentTree.tokens_eq, none]
    rfl

/-- **The keywords, types and names are read back.** -/
theorem readsAs_signature {s : Selector} (legible : s.Legible) :
    ReadsAs (" ".intercalate (s.entries.map declareEntry)).toList EndsWord fun ts =>
      ∃ signature : SignatureTree, signature.tokens = ts ∧ Signs signature s := by
  have formed := legible.wellFormed
  cases split : s.entries with
  | nil =>
      have none := s.length_entries
      rw [split] at none
      exact absurd (List.eq_nil_of_length_eq_zero none.symm) formed.components_ne_nil
  | cons e es =>
      have paired : ∀ x ∈ e :: es, x.2.isSome = x.1.takesArgument := by
        intro x member
        exact (formed.sound (split ▸ member)).paired
      have legibleAll : ∀ x ∈ e :: es, LegibleEntry x := by
        intro x member
        exact legible.entries x (split ▸ member)
      rcases formed.bare_or_all_take split with ⟨takesNot, rfl⟩ | takes
      · have isWord : isIdentifierWord e.1.keyword.toList = true := by
          rcases (legibleAll e (List.mem_cons_self ..)).keyword with ⟨-, takes⟩ | isWord
          · exact absurd takes (by simp [takesNot])
          · exact isWord
        obtain ⟨c, _ | p⟩ := e
        · rw [List.map_singleton, String.intercalate_singleton]
          exact readsAs_bare split takesNot isWord
        · rw [← paired _ (List.mem_cons_self ..)] at takesNot
          cases takesNot
      · have all : ∀ x ∈ e :: es, x.2.isSome = true ∧ x.1.takesArgument = true := by
          intro x member
          exact ⟨(paired x member).trans (takes x member), takes x member⟩
        refine (readsAs_arguments legibleAll all).imp ?_
        rintro ts ⟨a, as, rfl, valid, same, noWord⟩
        exact ⟨.keywords (a :: as), rfl, signs_keywords split valid same noWord⟩

/-- A declaration tree that says what a selector says, whether or not its signature
is one of the grammar. -/
structure Restates (d : DeclarationTree) (kind : MethodKind) (s : Selector) : Prop where
  marker : ∃ t, d.marker = some t ∧ t.isPunct kind.marker = true
  returnOpen : d.returnOpen.isPunct '(' = true
  returnType_ne_nil : d.returnType ≠ []
  returnType_balanced : Balanced d.returnType
  returnType : Token.spell d.returnType = s.returnType
  returnClose : d.returnClose.isPunct ')' = true
  signature : Signs d.signature s

/-- **What stands behind the marker is read back.** -/
theorem readsAs_behindMarker {s : Selector} (legible : s.Legible) (kind : MethodKind) :
    ReadsAs (' ' :: '(' :: s.returnType.toList ++
        ')' :: (" ".intercalate (s.entries.map declareEntry)).toList) EndsWord
      fun ts => ∀ t : Token, t.isPunct kind.marker = true →
        ∃ d : DeclarationTree, d.tokens = t :: ts ∧ Restates d kind s := by
  have typed := (readsAs_group legible.returnType).append (readsAs_signature legible)
    fun _ _ => trivial
  rw [List.append_assoc, List.singleton_append] at typed
  refine (typed.space_cons (List.cons_ne_nil _ _)).imp ?_
  rintro ts ⟨_, _, rfl, ⟨opening, type, closing, rfl, isOpen, ne, balanced, sameType, isClose⟩,
    signature, rfl, signs⟩
  intro t marker
  exact ⟨⟨some t, opening, type, closing, signature⟩, by simp [DeclarationTree.tokens],
    ⟨t, rfl, marker⟩, isOpen, ne, balanced, sameType, isClose, signs⟩

theorem toList_declaration (s : Selector) (kind : MethodKind) :
    (s.declaration kind).toList = kind.marker :: ' ' :: '(' :: s.returnType.toList ++
      ')' :: (" ".intercalate (s.entries.map declareEntry)).toList := by
  have marker : (toString kind).toList = [kind.marker] := String.toList_singleton _
  simp [declaration, marker]

/-- **A rendered declaration is taken apart into what the selector says**, at any
place in a text where a word ends behind it. -/
theorem exists_pieces_declaration {s : Selector} (legible : s.Legible) (kind : MethodKind) :
    ∃ qs, spelling qs = (s.declaration kind).toList ∧ EndsWithToken qs ∧
      (∀ q ∈ qs.head?, q.isGap = false) ∧
      (∀ lineStart rest, EndsWord rest → Cuts lineStart qs rest) ∧
      ∀ start, start + byteLength (s.declaration kind).toList ≤ maxOffset →
        ∃ d : DeclarationTree, d.tokens = tokensFrom start qs ∧ Restates d kind s := by
  have plain : IsPlain kind.marker := by cases kind <;> decide
  obtain ⟨qs, spelled, last, cuts, holds⟩ := readsAs_behindMarker legible kind
  have text : (s.declaration kind).toList = [kind.marker] ++ spelling qs := by
    rw [toList_declaration, spelled]
    rfl
  refine ⟨.token .punct [kind.marker] :: qs, text.symm, ?_, ?_, ?_, ?_⟩
  · exact (endsWithToken_singleton _ _).append last
  · intro q head
    cases Option.mem_def.1 head
    rfl
  · intro lineStart rest ends
    exact ⟨readAt_plain plain _ _, cuts rest ends⟩
  · intro start fits
    rw [text, Text.byteLength_append] at fits
    have isMarker : (Token.laidOut start .punct [kind.marker]).isPunct kind.marker = true := by
      simp [Token.isPunct, Token.laidOut]
    rw [spelled] at fits
    exact holds _ (by omega) _ isMarker

/-! ## Declaration trees -/

theorem isPunct_marker {t : Token} {kind : MethodKind} (marker : t.isPunct kind.marker = true) :
    t.isPunct '-' = true ∨ t.isPunct '+' = true := by
  cases kind with
  | instanceMethod => exact .inl marker
  | classMethod => exact .inr marker

/-- A declaration that begins with a word is one of the grammar. -/
theorem Restates.valid {d : DeclarationTree} {kind : MethodKind} {s : Selector}
    (restates : Restates d kind s) (begins : s.BeginsWithWord) : d.Valid where
  marker t member := by
    obtain ⟨u, marker, isMarker⟩ := restates.marker
    cases marker.symm.trans (Option.mem_def.1 member)
    exact isPunct_marker isMarker
  returnOpen := restates.returnOpen
  returnType_ne_nil := restates.returnType_ne_nil
  returnType_balanced := restates.returnType_balanced
  returnClose := restates.returnClose
  signature := restates.signature.valid begins

/-- **A declaration without a first word is refused** at its first colon. -/
theorem Restates.readDeclaration_eq {d : DeclarationTree} {kind : MethodKind} {s : Selector}
    (restates : Restates d kind s) (empty : ¬ s.BeginsWithWord) :
    ∃ colon : Token, colon.isPunct ':' = true ∧ ∀ rest,
      readDeclaration (d.tokens ++ rest) = .error (.missingSelector colon.range) := by
  obtain ⟨t, marker, isMarker⟩ := restates.marker
  obtain ⟨colon, ts, signature, isColon⟩ := restates.signature.colon empty
  refine ⟨colon, isColon, ?_⟩
  intro rest
  have found := splitGroup?_append restates.returnType_balanced restates.returnClose
    (colon :: (ts ++ rest))
  obtain ⟨u, type, typeEq⟩ := List.exists_cons_of_ne_nil restates.returnType_ne_nil
  have notWord : colon.isIdentifier = false := Token.isIdentifier_eq_false_of_isPunct isColon
  have tokens : d.tokens ++ rest = t :: d.returnOpen ::
      (d.returnType ++ d.returnClose :: colon :: (ts ++ rest)) := by
    simp [DeclarationTree.tokens, marker, signature]
  rw [tokens, readDeclaration, if_pos ((isMarker_iff t).2 (isPunct_marker isMarker)),
    readReturnType, if_pos restates.returnOpen, found, typeEq]
  simp [readSignature, notWord]
  rfl

theorem Restates.kind_eq {d : DeclarationTree} {kind : MethodKind} {s : Selector}
    (restates : Restates d kind s) : d.kind = kind := by
  obtain ⟨t, marker, isMarker⟩ := restates.marker
  rw [DeclarationTree.kind, marker, Option.bind_some, Token.text_eq_of_isPunct isMarker,
    MethodKind.ofMarker?_marker]
  rfl

end ProtocolFakes.Selector
