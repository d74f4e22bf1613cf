import ProtocolFakes.Proofs.Selector.Grammar

/-!
# Reading declarations

Each reader is sound for its part of the grammar, and complete: given the tokens
of a valid part, followed by anything that does not continue it, it answers that
part and what follows.  An argument list is continued by a further colon only
(`nextColon?`), so one token of lookahead behind a word decides, and no reader
has to go back.

Main statements: `valid_of_readDeclaration` and `readDeclaration_tokens`.
-/

namespace ProtocolFakes

set_option autoImplicit false

/-! ## Arguments -/

/-- An argument that was read is an argument of the grammar. -/
theorem valid_of_readArgument {keyword : Option Token} {colon : Token} {ts rest : List Token}
    {a : ArgumentTree} (word : ∀ t ∈ keyword, t.isIdentifier = true)
    (isColon : colon.isPunct ':' = true)
    (read : readArgument keyword colon ts = .ok (a, rest)) : a.Valid ∧ a.keyword = keyword := by
  unfold readArgument at read
  repeat' split at read
  all_goals try (simp at read; done)
  rename_i isOpen _ _ _ _ _ notEmpty found isName
  cases read
  obtain ⟨balanced, isClose⟩ := balanced_of_splitGroup? found
  exact ⟨⟨word, isColon, isOpen, notEmpty, balanced, isClose, isName⟩, rfl⟩

/-- The tokens of an argument behind its colon. -/
def ArgumentTree.tail (a : ArgumentTree) : List Token :=
  a.typeOpen :: a.type ++ [a.typeClose, a.name]

theorem ArgumentTree.tokens_eq (a : ArgumentTree) :
    a.tokens = a.keyword.toList ++ a.colon :: a.tail := by
  simp [tokens, tail]

/-- Every argument of the grammar is read, whatever follows it. -/
theorem readArgument_tail {a : ArgumentTree} (valid : a.Valid) (rest : List Token) :
    readArgument a.keyword a.colon (a.tail ++ rest) = .ok (a, rest) := by
  have found := splitGroup?_append valid.type_balanced valid.typeClose (a.name :: rest)
  obtain ⟨t, type, typeEq⟩ := List.exists_cons_of_ne_nil valid.type_ne_nil
  rw [typeEq] at found
  have tailEq : a.tail ++ rest = a.typeOpen :: (t :: type ++ a.typeClose :: a.name :: rest) := by
    simp [ArgumentTree.tail, typeEq]
  simp only [tailEq, readArgument, valid.typeOpen, found, valid.name, if_true]
  rw [← typeEq]

theorem nextColon?_sound {ts rest : List Token} {keyword : Option Token} {colon : Token}
    (found : nextColon? ts = some (keyword, colon, rest)) :
    (∀ t ∈ keyword, t.isIdentifier = true) ∧ colon.isPunct ':' = true := by
  unfold nextColon? at found
  repeat' split at found
  all_goals simp at found
  all_goals obtain ⟨rfl, rfl, rfl⟩ := found
  all_goals simp_all

/-- The beginning of an argument is recognised. -/
theorem nextColon?_append {keyword : Option Token} {colon : Token} (rest : List Token)
    (word : ∀ t ∈ keyword, t.isIdentifier = true) (isColon : colon.isPunct ':' = true) :
    nextColon? (keyword.toList ++ colon :: rest) = some (keyword, colon, rest) := by
  have notWord : colon.isIdentifier = false := Token.isIdentifier_eq_false_of_isPunct isColon
  cases keyword with
  | some k =>
      have isWord := word k rfl
      simp [nextColon?, isWord, isColon]
  | none =>
      cases rest with
      | nil => simp [nextColon?, isColon]
      | cons t rest => simp [nextColon?, notWord, isColon]

/-- The arguments that were read are arguments of the grammar, and no further
one follows them. -/
theorem valid_of_readArguments {keyword : Option Token} {colon : Token} {ts rest : List Token}
    {as : List ArgumentTree} (word : ∀ t ∈ keyword, t.isIdentifier = true)
    (isColon : colon.isPunct ':' = true)
    (read : readArguments keyword colon ts = .ok (as, rest)) :
    ∃ first others, as = first :: others ∧ first.keyword = keyword ∧ (∀ a ∈ as, a.Valid) ∧
      as.flatMap ArgumentTree.tokens ++ rest = keyword.toList ++ colon :: ts := by
  fun_induction readArguments keyword colon ts generalizing as rest with
  | case1 => cases read
  | case2 keyword colon ts a after readOne _ =>
      cases read
      obtain ⟨valid, same⟩ := valid_of_readArgument word isColon readOne
      refine ⟨a, [], rfl, same, by simpa using valid, ?_⟩
      simpa using append_of_readArgument readOne
  | case3 keyword colon ts a after readOne keyword' colon' after' next ih =>
      obtain ⟨valid, same⟩ := valid_of_readArgument word isColon readOne
      obtain ⟨word', isColon'⟩ := nextColon?_sound next
      cases later : readArguments keyword' colon' after' with
      | error e => rw [later] at read; cases read
      | ok result =>
          obtain ⟨others, rest'⟩ := result
          rw [later] at read
          cases read
          obtain ⟨_, _, _, _, othersValid, othersEq⟩ := ih word' isColon' later
          refine ⟨a, others, rfl, same, ?_, ?_⟩
          · intro b member
            rcases List.mem_cons.1 member with rfl | later
            · exact valid
            · exact othersValid b later
          · rw [List.flatMap_cons, List.append_assoc, othersEq, append_of_nextColon? next,
              append_of_readArgument readOne]

/-- Reading goes on with the next argument as long as there is one. -/
theorem readArguments_eq {keyword : Option Token} {colon : Token} {ts rest : List Token}
    {a : ArgumentTree} (read : readArgument keyword colon ts = .ok (a, rest)) :
    readArguments keyword colon ts =
      match nextColon? rest with
      | none => .ok ([a], rest)
      | some (keyword, colon, rest) =>
          (readArguments keyword colon rest).map fun (as, rest) => (a :: as, rest) := by
  rw [readArguments]
  split
  · simp_all
  · rename_i a' rest' read'
    cases read.symm.trans read'
    split <;> simp [*]

/-- Reading ends with the first argument that is refused. -/
theorem readArguments_eq_error {keyword : Option Token} {colon : Token} {ts : List Token}
    {defect : ParseError} (refused : readArgument keyword colon ts = .error defect) :
    readArguments keyword colon ts = .error defect := by
  rw [readArguments]
  split
  · rename_i defect' refused'
    cases refused.symm.trans refused'
    rfl
  · simp_all

/-- Every argument list of the grammar is read, up to tokens that begin no
further argument. -/
theorem readArguments_tail {first : ArgumentTree} {others : List ArgumentTree} {rest : List Token}
    (firstValid : first.Valid) (othersValid : ∀ a ∈ others, a.Valid)
    (ends : nextColon? rest = none) :
    readArguments first.keyword first.colon
        (first.tail ++ (others.flatMap ArgumentTree.tokens ++ rest)) =
      .ok (first :: others, rest) := by
  induction others generalizing first with
  | nil =>
      rw [readArguments_eq (readArgument_tail firstValid _), List.flatMap_nil, List.nil_append,
        ends]
  | cons second others ih =>
      have secondValid := othersValid second (List.mem_cons_self ..)
      have later := ih secondValid fun a member => othersValid a (List.mem_cons_of_mem _ member)
      have next := nextColon?_append (second.tail ++ (others.flatMap ArgumentTree.tokens ++ rest))
        secondValid.keyword secondValid.colon
      have split : (second :: others).flatMap ArgumentTree.tokens ++ rest =
          second.keyword.toList ++
            second.colon :: (second.tail ++ (others.flatMap ArgumentTree.tokens ++ rest)) := by
        simp [ArgumentTree.tokens_eq]
      rw [readArguments_eq (readArgument_tail firstValid _), split, next]
      simp only [later]
      rfl

/-! ## Declarations -/

/-- A signature that was read is a signature of the grammar. -/
theorem valid_of_readSignature {last : Token} {ts rest : List Token} {s : SignatureTree}
    (read : readSignature last ts = .ok (s, rest)) : s.Valid ∧ s.tokens ++ rest = ts := by
  cases ts with
  | nil => cases read
  | cons first ts =>
      rw [readSignature.eq_def] at read
      dsimp only at read
      by_cases word : first.isIdentifier = true
      · rw [if_pos word] at read
        cases ts with
        | nil =>
            cases read
            exact ⟨.unary word, rfl⟩
        | cons colon ts =>
            by_cases isColon : colon.isPunct ':' = true
            · simp only [isColon, if_true] at read
              cases arguments : readArguments (some first) colon ts with
              | error e => rw [arguments] at read; cases read
              | ok result =>
                  obtain ⟨as, rest'⟩ := result
                  rw [arguments] at read
                  cases read
                  obtain ⟨a, others, rfl, named, valid, same⟩ :=
                    valid_of_readArguments (by simpa using word) isColon arguments
                  refine ⟨.keywords (by simp [named]) (valid a (List.mem_cons_self ..))
                    fun b member => valid b (List.mem_cons_of_mem _ member), ?_⟩
                  simpa [SignatureTree.tokens] using same
            · simp only [isColon] at read
              cases read
              exact ⟨.unary word, rfl⟩
      · rw [if_neg word] at read
        cases read

/-- Every signature of the grammar is read, up to tokens that begin no argument. -/
theorem readSignature_tokens {s : SignatureTree} {rest : List Token} (valid : s.Valid)
    (ends : nextColon? rest = none) (last : Token) :
    readSignature last (s.tokens ++ rest) = .ok (s, rest) := by
  cases valid with
  | @unary keyword word =>
      cases rest with
      | nil => simp [readSignature, SignatureTree.tokens, word]
      | cons t rest =>
          have notColon : t.isPunct ':' = false := by
            cases isColon : t.isPunct ':' with
            | false => rfl
            | true =>
                have next : nextColon? ((none : Option Token).toList ++ t :: rest) =
                    some (none, t, rest) := nextColon?_append rest (by simp) isColon
                rw [Option.toList_none, List.nil_append, ends] at next
                cases next
          simp [readSignature, SignatureTree.tokens, word, notColon]
  | @keywords first others named firstValid othersValid =>
      obtain ⟨keyword, keywordEq⟩ := Option.isSome_iff_exists.1 named
      have word : keyword.isIdentifier = true := firstValid.keyword keyword keywordEq
      have read := readArguments_tail firstValid othersValid ends
      have split : SignatureTree.tokens (.keywords (first :: others)) ++ rest =
          keyword :: first.colon ::
            (first.tail ++ (others.flatMap ArgumentTree.tokens ++ rest)) := by
        simp [SignatureTree.tokens, ArgumentTree.tokens_eq, keywordEq]
      rw [split]
      simp only [readSignature, word, firstValid.colon, if_true, ← keywordEq, read]
      rfl

theorem isMarker_iff (t : Token) :
    t.isMarker = true ↔ t.isPunct '-' = true ∨ t.isPunct '+' = true := by
  have text (s : String) : t.text = s ↔ t.text.toList = s.toList := String.toList_inj.symm
  unfold Token.isMarker MethodKind.ofMarker? Token.isPunct
  rw [Bool.and_eq_true, Bool.and_eq_true, Bool.and_eq_true, ← and_or_left]
  apply and_congr_right
  intro _
  simp only [text, beq_iff_eq]
  repeat' split
  all_goals simp_all

/-- A declaration behind its marker that was read is one of the grammar. -/
theorem valid_of_readReturnType {marker : Option Token} {ts rest : List Token}
    {d : DeclarationTree} (isMarker : ∀ t ∈ marker, t.isMarker = true)
    (read : readReturnType marker ts = .ok (d, rest)) :
    d.Valid ∧ d.tokens ++ rest = marker.toList ++ ts := by
  unfold readReturnType at read
  repeat' split at read
  all_goals try cases read
  rename_i isOpen _ returnType close after notEmpty found
  cases signature : readSignature close after with
  | error e => rw [signature] at read; cases read
  | ok result =>
      obtain ⟨s, rest'⟩ := result
      rw [signature] at read
      cases read
      obtain ⟨balanced, isClose⟩ := balanced_of_splitGroup? found
      obtain ⟨valid, same⟩ := valid_of_readSignature signature
      refine ⟨⟨fun t member => (isMarker_iff t).1 (isMarker t member), isOpen, notEmpty, balanced,
        isClose, valid⟩, ?_⟩
      simp [DeclarationTree.tokens, ← append_of_splitGroup? found, same]

/-- **The reader is sound.** What it answers is a declaration of the grammar,
and its tokens are those that were read. -/
theorem valid_of_readDeclaration {ts rest : List Token} {d : DeclarationTree}
    (read : readDeclaration ts = .ok (d, rest)) : d.Valid ∧ d.tokens ++ rest = ts := by
  cases ts with
  | nil => cases read
  | cons t ts =>
      rw [readDeclaration] at read
      by_cases isMarker : t.isMarker = true
      · rw [if_pos isMarker] at read
        exact valid_of_readReturnType (by simpa using isMarker) read
      · rw [if_neg isMarker] at read
        exact valid_of_readReturnType (by simp) read

theorem readReturnType_tokens {d : DeclarationTree} {rest : List Token} (valid : d.Valid)
    (ends : nextColon? rest = none) :
    readReturnType d.marker
      (d.returnOpen :: d.returnType ++ d.returnClose :: (d.signature.tokens ++ rest)) =
      .ok (d, rest) := by
  have found := splitGroup?_append valid.returnType_balanced valid.returnClose
    (d.signature.tokens ++ rest)
  have signature := readSignature_tokens valid.signature ends d.returnClose
  obtain ⟨t, type, typeEq⟩ := List.exists_cons_of_ne_nil valid.returnType_ne_nil
  rw [typeEq] at found ⊢
  simp only [List.cons_append, readReturnType, valid.returnOpen, if_true]
  rw [← List.cons_append, found]
  simp only [signature]
  rw [← typeEq]
  rfl

/-- **The reader is complete.** It answers every declaration of the grammar, up
to tokens that begin no argument. -/
theorem readDeclaration_tokens {d : DeclarationTree} {rest : List Token} (valid : d.Valid)
    (ends : nextColon? rest = none) : readDeclaration (d.tokens ++ rest) = .ok (d, rest) := by
  have read := readReturnType_tokens valid ends
  cases marker : d.marker with
  | some t =>
      have isMarker : t.isMarker = true := (isMarker_iff t).2 (valid.marker t marker)
      rw [marker] at read
      simpa [DeclarationTree.tokens, marker, readDeclaration, isMarker] using read
  | none =>
      have notMarker : d.returnOpen.isMarker = false := by
        cases isMarker : d.returnOpen.isMarker with
        | false => rfl
        | true =>
            rcases (isMarker_iff _).1 isMarker with minus | plus
            · exact absurd (Token.isPunct_unique minus valid.returnOpen) (by decide)
            · exact absurd (Token.isPunct_unique plus valid.returnOpen) (by decide)
      rw [marker] at read
      simpa [DeclarationTree.tokens, marker, readDeclaration, notMarker] using read

namespace Selector

/-- Tokens declare a method when they begin with a declaration, its trailer is
one and its fields fit together. -/
theorem ofTokens_eq_ok_iff {tokens : List Token} {kind : MethodKind} {s : Selector} :
    ofTokens tokens = .ok (kind, s) ↔
      ∃ tree trailer, readDeclaration tokens = .ok (tree, trailer) ∧ checkTrailer trailer = .ok () ∧
        tree.selector = .ok s ∧ tree.kind = kind := by
  unfold ofTokens
  constructor
  · intro accepted
    cases read : readDeclaration tokens with
    | error defect => rw [read] at accepted; cases accepted
    | ok result =>
        obtain ⟨tree, trailer⟩ := result
        cases checked : checkTrailer trailer with
        | error defect => simp only [read, checked, bind, Except.bind] at accepted; cases accepted
        | ok _ =>
            cases built : tree.selector with
            | error defect =>
                simp only [read, checked, built, bind, Except.bind] at accepted
                cases accepted
            | ok s' =>
                simp only [read, checked, built, bind, Except.bind] at accepted
                cases accepted
                exact ⟨tree, trailer, rfl, checked, built, rfl⟩
  · rintro ⟨tree, trailer, read, checked, built, rfl⟩
    simp only [read, checked, built, bind, Except.bind]
    rfl

end Selector

end ProtocolFakes
