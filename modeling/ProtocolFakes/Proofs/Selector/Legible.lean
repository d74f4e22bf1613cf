import ProtocolFakes.Proofs.Selector.Acceptance
import ProtocolFakes.Proofs.Selector.EditStep
import ProtocolFakes.Proofs.Token.Writing

/-!
# Legible selectors

A selector is legible when its parts can be read back one by one: each keyword is a
word, or empty with a colon behind it, each name is a word, and each type is a
balanced spelling that is read as itself (`IsTypeText`).

A selector read from a source is legible if the quoted texts of that source have
their closing quotes (`legible_of_ofTokens`).  Edits keep selectors legible
(`Legible.applyAll`): they move types around without changing them, check the words
that they are given, and put words of their own into placeholders.

Legibility says nothing about which keywords are empty.  A selector whose first
keyword is empty is legible.
-/

namespace ProtocolFakes.Selector

set_option autoImplicit false

open Text (byteLength)

/-! ## Legible parts -/

/-- A type whose text is read as a type and is spelled as it was written. -/
def IsTypeText (type : String) : Prop :=
  ReadsAs type.toList BreaksOff fun ts => ts ≠ [] ∧ Balanced ts ∧ Token.spell ts = type

/-- An entry whose words are words and whose type is the text of one. -/
structure LegibleEntry (e : Entry) : Prop where
  keyword : e.1.keyword = "" ∧ e.1.takesArgument = true ∨
    isIdentifierWord e.1.keyword.toList = true
  name : ∀ p ∈ e.2, isIdentifierWord p.name.toList = true
  type : ∀ p ∈ e.2, IsTypeText p.typeName

/-- A well-formed selector whose parts are legible. -/
structure Legible (s : Selector) : Prop where
  wellFormed : s.WellFormed
  returnType : IsTypeText s.returnType
  entries : ∀ e ∈ s.entries, LegibleEntry e

/-! ## Placeholders -/

/-- A word of one token is a type. -/
theorem isTypeText_of_isIdentifierWord {type : String}
    (isWord : isIdentifierWord type.toList = true) : IsTypeText type := by
  obtain ⟨qs, spelled, last, cuts, holds⟩ := readsAs_word isWord
  refine ⟨qs, spelled, last, fun rest breaks => cuts rest breaks.endsWord, ?_⟩
  intro start fits
  obtain ⟨t, tokens, identifier, text⟩ := holds start fits
  have level : t.nesting = 0 := by
    simp [Token.nesting, Token.isPunct_eq_false_of_isIdentifier identifier]
  rw [tokens]
  refine ⟨List.cons_ne_nil _ _, balancedFrom_cons_iff.2 ⟨Int.le_refl _, ?_⟩, ?_⟩
  · rw [level]
    exact balancedFrom_nil
  · simp [Token.spell, Token.spellAfter, text]

theorem isIdentContinue_of_isDigit {c : Char} (digit : c.isDigit = true) :
    isIdentContinue c = true := by
  simp [isIdentContinue, Char.isAlphanum, digit]

/-- A numbered name is a word if its base is one. -/
theorem isIdentifierWord_numberedName {base : String} (n : Nat)
    (isWord : isIdentifierWord base.toList = true) :
    isIdentifierWord (numberedName base n).toList = true := by
  have digits : ∀ c ∈ (toString n).toList, isIdentContinue c = true := by
    intro c member
    change c ∈ n.repr.toList at member
    rw [Nat.toList_repr] at member
    exact isIdentContinue_of_isDigit (Nat.isDigit_of_mem_toDigits (by decide) (by decide) member)
  unfold numberedName
  rw [String.toList_append]
  cases chars : base.toList with
  | nil => rw [chars] at isWord; cases isWord
  | cons c cs =>
      rw [chars] at isWord
      simp only [isIdentifierWord, List.cons_append, List.all_append, Bool.and_eq_true,
        List.all_eq_true] at isWord ⊢
      exact ⟨isWord.1, isWord.2, digits⟩

/-- A placeholder is legible beside any keyword that may stand in front of a colon. -/
theorem legibleEntry_placeholder {c : SelectorComponent} (n : Nat)
    (keyword : c.keyword = "" ∨ isIdentifierWord c.keyword.toList = true) :
    LegibleEntry (placeholderEntry c (numberedName "arg" n)) where
  keyword := keyword.imp_left fun empty => ⟨empty, rfl⟩
  name p member := by
    cases member
    exact isIdentifierWord_numberedName n (by decide)
  type p member := by
    cases member
    have isWord : isIdentifierWord placeholderType.toList = true := by decide
    exact isTypeText_of_isIdentifierWord isWord

/-! ## Edits -/

theorem legibleEntry_of_origin {s : Selector} (legible : s.Legible) {e : Entry}
    (origin : Origin s e) : LegibleEntry e := by
  cases origin with
  | kept member => exact legible.entries e member
  | @renamed c p keyword member allowed =>
      obtain ⟨-, name, type⟩ := legible.entries _ member
      refine ⟨?_, name, type⟩
      unfold allowsKeyword at allowed
      split at allowed
      · rename_i empty
        exact .inl ⟨String.isEmpty_iff.1 empty, allowed⟩
      · exact .inr allowed
  | filled member =>
      exact legibleEntry_placeholder _ ((legible.entries _ member).keyword.imp_left And.left)
  | inserted inRange => exact legibleEntry_placeholder _ (.inl rfl)

/-- **An edit keeps a selector legible.** -/
theorem Legible.apply {s e : Selector} {edit : SelectorEdit} (legible : s.Legible)
    (applied : s.apply edit = .ok e) : e.Legible := by
  have formed := legible.wellFormed.apply applied
  obtain ⟨es, step, rfl⟩ := apply_eq_ok_iff.1 applied
  have paired : ∀ x ∈ es, x.2.isSome = x.1.takesArgument := by
    intro x member
    exact (legible.wellFormed.sound_of_origin (step.origin member)).paired
  refine ⟨formed, legible.returnType, ?_⟩
  intro x member
  rw [entries_withEntries s paired] at member
  exact legibleEntry_of_origin legible (step.origin member)

/-- **A run of edits keeps a selector legible.** -/
theorem Legible.applyAll {s e : Selector} {edits : List SelectorEdit} (legible : s.Legible)
    (applied : s.applyAll edits = .ok e) : e.Legible :=
  applyAll_induction legible Legible.apply applied

/-! ## Selectors from a source -/

/-- The entries that a signature declares. -/
def declaredEntries : SignatureTree → List Entry
  | .unary keyword => [(⟨keyword.text, false, keyword.range⟩, none)]
  | .keywords arguments => arguments.map fun a => (a.component, some a.parameter)

theorem pairUp_signature (signature : SignatureTree) :
    pairUp signature.components signature.parameters = declaredEntries signature := by
  cases signature with
  | unary keyword => rfl
  | keywords arguments =>
      change pairUp (arguments.map ArgumentTree.component) (arguments.map ArgumentTree.parameter) =
        arguments.map fun a => (a.component, some a.parameter)
      induction arguments with
      | nil => rfl
      | cons a as ih =>
          rw [List.map_cons, List.map_cons, List.map_cons, ← ih]
          rfl

/-- **Balanced tokens of a source spell the text of a type**, if its quoted texts are
closed. -/
theorem isTypeText_spell {source : String} {base : Nat} {ts : List Token}
    (fits : base + byteLength source.toList ≤ maxOffset)
    (closed : ∀ t ∈ tokenize source base, t.isClosed = true)
    (stretch : ts <:+: tokenize source base) (ne : ts ≠ []) (balanced : Balanced ts) :
    IsTypeText (Token.spell ts) := by
  obtain ⟨lineStart, start, ps, rest, rfl, cuts, inside⟩ := exists_cuts_of_infix stretch
  refine (readsAs_spell cuts (Nat.le_trans inside fits) fun t member =>
    closed t (stretch.subset member)).imp ?_
  rintro us ⟨same, spelled⟩
  refine ⟨?_, balanced.of_lexemes_eq same.symm, spelled⟩
  rintro rfl
  exact ne (List.map_eq_nil_iff.1 same.symm)

section Declared

variable {source : String} {base : Nat}
variable (fits : base + byteLength source.toList ≤ maxOffset)
variable (closed : ∀ t ∈ tokenize source base, t.isClosed = true)
include fits closed

/-- An argument that stands in a source declares a legible entry. -/
theorem legibleEntry_of_argument {a : ArgumentTree} (valid : a.Valid)
    (stretch : a.tokens <:+: tokenize source base) :
    LegibleEntry (a.component, some a.parameter) := by
  have words : ∀ t ∈ a.tokens, t.isIdentifier = true →
      isIdentifierWord t.text.toList = true := by
    intro t member
    exact isIdentifierWord_of_mem_tokenize (stretch.subset member)
  refine ⟨?_, ?_, ?_⟩
  · cases keyword : a.keyword with
    | none => exact .inl ⟨by simp [ArgumentTree.component, ArgumentTree.word, keyword], rfl⟩
    | some k =>
        have member : k ∈ a.tokens := by simp [ArgumentTree.tokens, keyword]
        have isWord := words k member (valid.keyword k keyword)
        exact .inr (by simpa [ArgumentTree.component, ArgumentTree.word, keyword] using isWord)
  · intro p member
    cases Option.some.inj (Option.mem_def.1 member)
    exact words a.name a.name_mem_tokens valid.name
  · intro p member
    cases Option.some.inj (Option.mem_def.1 member)
    exact isTypeText_spell fits closed (a.type_infix.trans stretch) valid.type_ne_nil
      valid.type_balanced

/-- A signature that stands in a source declares legible entries. -/
theorem legibleEntry_of_signature {signature : SignatureTree} (valid : signature.Valid)
    (stretch : signature.tokens <:+: tokenize source base) :
    ∀ e ∈ declaredEntries signature, LegibleEntry e := by
  intro e member
  cases signature with
  | unary keyword =>
      cases valid with
      | unary word =>
          obtain rfl := List.mem_singleton.1 member
          have inside : keyword ∈ tokenize source base := stretch.subset (List.mem_cons_self ..)
          exact ⟨.inr (isIdentifierWord_of_mem_tokenize inside word), by simp, by simp⟩
  | keywords arguments =>
      obtain ⟨a, found, rfl⟩ := List.mem_map.1 member
      have inside : a.tokens <:+: (SignatureTree.keywords arguments).tokens :=
        List.infix_of_mem_flatten (List.mem_map_of_mem found)
      exact legibleEntry_of_argument fits closed (valid.argument found) (inside.trans stretch)

/-- **A selector that was read from a source is legible**, if the quoted texts of the
source are closed. -/
theorem legible_of_ofTokens {kind : MethodKind} {s : Selector}
    (read : ofTokens (tokenize source base) = .ok (kind, s)) : s.Legible := by
  obtain ⟨d, ⟨⟨valid, -⟩, split⟩, -, selector⟩ := exists_derivation_of_ofTokens read
  obtain ⟨rfl, formed⟩ := DeclarationTree.selector_eq_ok_iff.1 selector
  have declared : d.declaration.tokens <:+: tokenize source base := by
    rw [← split]
    exact List.infix_append' [] _ _
  refine ⟨formed, ?_, ?_⟩
  · exact isTypeText_spell fits closed (d.declaration.returnType_infix.trans declared)
      valid.returnType_ne_nil valid.returnType_balanced
  · rw [entries, pairUp_signature]
    exact legibleEntry_of_signature fits closed valid.signature
      (d.declaration.signature_infix.trans declared)

end Declared

end ProtocolFakes.Selector
