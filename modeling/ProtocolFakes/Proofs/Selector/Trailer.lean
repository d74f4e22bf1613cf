import ProtocolFakes.Proofs.Selector.Grammar

/-!
# Checking trailers

A trailer is checked exactly when the grammar derives it (`checkTrailer_eq_ok_iff`),
and then by one tree only (`TrailerTree.unique`): it can be read off its tokens
from left to right, because an item begins with a word or a comma and an end does
not, and because nothing in a trailer begins with a parenthesis.

No trailer begins with a colon or a word before a colon, so no argument list
runs on into it (`nextColon?_tokens`).  The check looks at lexemes alone
(`checkTrailer_of_lexemes_eq`).
-/

namespace ProtocolFakes

set_option autoImplicit false

/-! ## Sound and complete -/

/-- A trailer that passes the check is one of the grammar. -/
theorem exists_of_checkTrailer {ts : List Token} (checked : checkTrailer ts = .ok ()) :
    ∃ t : TrailerTree, t.Valid ∧ t.tokens = ts := by
  fun_induction checkTrailer ts with
  | case1 => exact ⟨⟨[], .nothing⟩, ⟨by simp, .nothing⟩, rfl⟩
  | case2 t isSemicolon => exact ⟨⟨[], .semicolon t⟩, ⟨by simp, .semicolon isSemicolon⟩, rfl⟩
  | case3 => cases checked
  | case4 t ts _ isBrace => exact ⟨⟨[], .body t ts⟩, ⟨by simp, .body isBrace⟩, rfl⟩
  | case5 t _ _ word =>
      exact ⟨⟨[.word t], .nothing⟩, ⟨by simpa using .word word, .nothing⟩, rfl⟩
  | case6 => cases checked
  | case7 t _ _ word u rest opens group close after found ih =>
      obtain ⟨tree, valid, same⟩ := ih checked
      obtain ⟨balanced, closes⟩ := balanced_of_splitGroup? found
      refine ⟨.cons (.call t u group close) tree,
        TrailerTree.valid_cons (.call word opens balanced closes) valid, ?_⟩
      simp [TrailerItem.tokens, same, ← append_of_splitGroup? found]
  | case8 t _ _ word u rest _ ih =>
      obtain ⟨tree, valid, same⟩ := ih checked
      refine ⟨.cons (.word t) tree, TrailerTree.valid_cons (.word word) valid, ?_⟩
      simp [TrailerItem.tokens, same]
  | case9 => cases checked
  | case10 t _ _ _ isComma u rest isMark ih =>
      obtain ⟨tree, valid, same⟩ := ih checked
      refine ⟨.cons (.variadic t u) tree,
        TrailerTree.valid_cons (.variadic isComma isMark) valid, ?_⟩
      simp [TrailerItem.tokens, same]
  | case11 => cases checked
  | case12 => cases checked

/-! ## What a trailer begins with -/

theorem TrailerEnd.Valid.head {e : TrailerEnd} (valid : e.Valid) :
    ∀ t ∈ e.tokens.head?, t.isPunct ';' = true ∨ t.isPunct '{' = true := by
  cases valid with
  | nothing => simp [TrailerEnd.tokens]
  | semicolon isSemicolon => simpa [TrailerEnd.tokens] using .inl isSemicolon
  | body isBrace => simpa [TrailerEnd.tokens] using .inr isBrace

/-- A trailer begins with a word, a comma, a semicolon or a brace. -/
theorem TrailerTree.Valid.head {t : TrailerTree} (valid : t.Valid) :
    ∀ u ∈ t.tokens.head?, u.isIdentifier = true ∨ u.isPunct ',' = true ∨
      u.isPunct ';' = true ∨ u.isPunct '{' = true := by
  obtain ⟨items, ending⟩ := t
  cases items with
  | nil =>
      intro u member
      exact .inr (.inr (valid.ending.head u member))
  | cons item items =>
      have itemValid := valid.items item (List.mem_cons_self ..)
      cases itemValid with
      | word identifier => simp [TrailerTree.tokens, TrailerItem.tokens, identifier]
      | call identifier => simp [TrailerTree.tokens, TrailerItem.tokens, identifier]
      | variadic isComma => simp [TrailerTree.tokens, TrailerItem.tokens, isComma]

theorem TrailerTree.Valid.head_isPunct {t : TrailerTree} (valid : t.Valid) {c : Char}
    (comma : ',' ≠ c) (semicolon : ';' ≠ c) (brace : '{' ≠ c) :
    ∀ u ∈ t.tokens.head?, u.isPunct c = false := by
  intro u member
  rcases valid.head u member with word | isComma | isSemicolon | isBrace
  · exact Token.isPunct_eq_false_of_isIdentifier word c
  · exact Token.isPunct_eq_false isComma comma
  · exact Token.isPunct_eq_false isSemicolon semicolon
  · exact Token.isPunct_eq_false isBrace brace

theorem TrailerTree.valid_tail {item : TrailerItem} {items : List TrailerItem}
    {ending : TrailerEnd} (valid : TrailerTree.Valid ⟨item :: items, ending⟩) :
    TrailerTree.Valid ⟨items, ending⟩ where
  items other member := valid.items other (List.mem_cons_of_mem _ member)
  ending := valid.ending

theorem TrailerTree.tokens_item (item : TrailerItem) (items : List TrailerItem)
    (ending : TrailerEnd) :
    TrailerTree.tokens ⟨item :: items, ending⟩ =
      item.tokens ++ TrailerTree.tokens ⟨items, ending⟩ :=
  TrailerTree.tokens_cons item ⟨items, ending⟩

theorem TrailerEnd.Valid.nextColon?_tokens {e : TrailerEnd} (valid : e.Valid) :
    nextColon? e.tokens = none := by
  cases valid with
  | nothing => rfl
  | semicolon isSemicolon =>
      have notColon := Token.isPunct_eq_false isSemicolon (by decide : ';' ≠ ':')
      simp [tokens, nextColon?, notColon]
  | @body brace rest isBrace =>
      have notColon := Token.isPunct_eq_false isBrace (by decide : '{' ≠ ':')
      have notWord := Token.isIdentifier_eq_false_of_isPunct isBrace
      cases rest with
      | nil => simp [tokens, nextColon?, notColon]
      | cons u rest => simp [tokens, nextColon?, notColon, notWord]

/-- An item begins no argument, unless it is a word in front of a colon. -/
theorem TrailerItem.Valid.nextColon?_append {item : TrailerItem} (valid : item.Valid)
    {rest : List Token} (notColon : ∀ u ∈ rest.head?, u.isPunct ':' = false) :
    nextColon? (item.tokens ++ rest) = none := by
  cases valid with
  | word identifier =>
      have first := Token.isPunct_eq_false_of_isIdentifier identifier ':'
      cases rest with
      | nil => simp [tokens, nextColon?, first]
      | cons u rest =>
          have second := notColon u rfl
          simp [tokens, nextColon?, first, second]
  | call identifier opens =>
      have first := Token.isPunct_eq_false_of_isIdentifier identifier ':'
      have second := Token.isPunct_eq_false opens (by decide : '(' ≠ ':')
      simp [tokens, nextColon?, first, second]
  | variadic isComma =>
      have first := Token.isPunct_eq_false isComma (by decide : ',' ≠ ':')
      have notWord := Token.isIdentifier_eq_false_of_isPunct isComma
      simp [tokens, nextColon?, first, notWord]

/-- **No argument list runs on into a trailer.** -/
theorem TrailerTree.Valid.nextColon?_tokens {t : TrailerTree} (valid : t.Valid) :
    nextColon? t.tokens = none := by
  obtain ⟨items, ending⟩ := t
  cases items with
  | nil => exact valid.ending.nextColon?_tokens
  | cons item items =>
      rw [tokens_item]
      apply (valid.items item (List.mem_cons_self ..)).nextColon?_append
      exact (valid_tail valid).head_isPunct (by decide) (by decide) (by decide)

/-- The check passes every end. -/
theorem TrailerEnd.Valid.checkTrailer_tokens {e : TrailerEnd} (valid : e.Valid) :
    checkTrailer e.tokens = .ok () := by
  cases valid with
  | nothing => rw [tokens, checkTrailer]
  | semicolon isSemicolon => simp [tokens, checkTrailer, isSemicolon]
  | body isBrace =>
      have notSemicolon := Token.isPunct_eq_false isBrace (by decide : '{' ≠ ';')
      rw [tokens, checkTrailer.eq_def]
      simp [isBrace, notSemicolon]

/-- The check goes on behind an item, if what follows does not open a group. -/
theorem TrailerItem.Valid.checkTrailer_append {item : TrailerItem} (valid : item.Valid)
    {rest : List Token} (notOpen : ∀ u ∈ rest.head?, u.isPunct '(' = false) :
    checkTrailer (item.tokens ++ rest) = checkTrailer rest := by
  cases valid with
  | word identifier =>
      have notPunct := Token.isPunct_eq_false_of_isIdentifier identifier
      cases rest with
      | nil => simp [tokens, checkTrailer, notPunct, identifier]
      | cons u rest =>
          have second := notOpen u rfl
          rw [tokens, List.singleton_append, checkTrailer]
          simp [notPunct, identifier, second]
  | @call name opening closing group identifier opens balanced closes =>
      have notPunct := Token.isPunct_eq_false_of_isIdentifier identifier
      have found := splitGroup?_append balanced closes rest
      have split : (TrailerItem.call name opening group closing).tokens ++ rest =
          name :: opening :: (group ++ closing :: rest) := by
        simp [tokens]
      rw [split, checkTrailer]
      simp only [notPunct, identifier, opens, if_true, Bool.false_eq_true, if_false]
      split <;> simp_all
  | variadic isComma isMark =>
      have notWord := Token.isIdentifier_eq_false_of_isPunct isComma
      have notSemicolon := Token.isPunct_eq_false isComma (by decide : ',' ≠ ';')
      have notBrace := Token.isPunct_eq_false isComma (by decide : ',' ≠ '{')
      rw [tokens, List.cons_append, List.singleton_append, checkTrailer]
      simp [notWord, notSemicolon, notBrace, isComma, isMark]

/-- Every trailer of the grammar passes the check. -/
theorem checkTrailer_tokens {t : TrailerTree} (valid : t.Valid) :
    checkTrailer t.tokens = .ok () := by
  obtain ⟨items, ending⟩ := t
  induction items with
  | nil => exact valid.ending.checkTrailer_tokens
  | cons item items ih =>
      have later := TrailerTree.valid_tail valid
      have notOpen := later.head_isPunct (c := '(') (by decide) (by decide) (by decide)
      rw [TrailerTree.tokens_item,
        (valid.items item (List.mem_cons_self ..)).checkTrailer_append notOpen]
      exact ih later

/-- **A trailer passes the check exactly when the grammar derives it.** -/
theorem checkTrailer_eq_ok_iff {ts : List Token} :
    checkTrailer ts = .ok () ↔ ∃ t : TrailerTree, t.Valid ∧ t.tokens = ts := by
  constructor
  · exact exists_of_checkTrailer
  · rintro ⟨t, valid, rfl⟩
    exact checkTrailer_tokens valid

/-! ## One tree only -/

theorem TrailerEnd.unique {e e' : TrailerEnd} (valid : e.Valid) (valid' : e'.Valid)
    (same : e.tokens = e'.tokens) : e = e' := by
  cases valid with
  | nothing => cases valid' <;> simp_all [tokens]
  | semicolon isSemicolon =>
      cases valid' with
      | nothing => simp [tokens] at same
      | semicolon => simp_all [tokens]
      | body isBrace =>
          obtain ⟨rfl, _⟩ := List.cons.inj same
          exact absurd (Token.isPunct_unique isSemicolon isBrace) (by decide)
  | body isBrace =>
      cases valid' with
      | nothing => simp [tokens] at same
      | semicolon isSemicolon =>
          obtain ⟨rfl, _⟩ := List.cons.inj same
          exact absurd (Token.isPunct_unique isSemicolon isBrace) (by decide)
      | body => simp_all [tokens]

/-- An item begins as no end does. -/
theorem TrailerItem.Valid.ne_end {item : TrailerItem} (valid : item.Valid) {e : TrailerEnd}
    (endValid : e.Valid) (rest : List Token) : item.tokens ++ rest ≠ e.tokens := by
  intro same
  have head := endValid.head
  rw [← same] at head
  cases valid with
  | @word name identifier =>
      have notPunct := Token.isPunct_eq_false_of_isIdentifier identifier
      simpa [tokens, notPunct] using head name rfl
  | @call name opening closing group identifier =>
      have notPunct := Token.isPunct_eq_false_of_isIdentifier identifier
      simpa [tokens, notPunct] using head name rfl
  | @variadic comma mark isComma =>
      have notSemicolon := Token.isPunct_eq_false isComma (by decide : ',' ≠ ';')
      have notBrace := Token.isPunct_eq_false isComma (by decide : ',' ≠ '{')
      simpa [tokens, notSemicolon, notBrace] using head comma rfl

/-- An attribute word without a group is not followed by one. -/
theorem TrailerTree.Valid.ne_group {t : TrailerTree} (valid : t.Valid) {opening : Token}
    (opens : opening.isPunct '(' = true) (rest : List Token) : t.tokens ≠ opening :: rest := by
  intro same
  have head := valid.head_isPunct (c := '(') (by decide) (by decide) (by decide) opening
    (by rw [same]; rfl)
  rw [opens] at head
  cases head

/-- Two items in front of trailers are equal when they are written with the same
tokens, and so are the trailers' tokens. -/
theorem TrailerItem.unique {item item' : TrailerItem} {t t' : TrailerTree} (itemValid : item.Valid)
    (itemValid' : item'.Valid) (valid : t.Valid) (valid' : t'.Valid)
    (same : item.tokens ++ t.tokens = item'.tokens ++ t'.tokens) :
    item = item' ∧ t.tokens = t'.tokens := by
  cases itemValid with
  | word identifier =>
      cases itemValid' with
      | word => simpa [tokens] using same
      | call _ opens =>
          exact absurd (List.cons.inj same).2 (by simpa using valid.ne_group opens _)
      | variadic isComma =>
          obtain ⟨rfl, _⟩ := List.cons.inj same
          exact absurd isComma (by simp [Token.isPunct_eq_false_of_isIdentifier identifier])
  | call identifier opens balanced closes =>
      cases itemValid' with
      | word =>
          exact absurd (List.cons.inj same).2.symm (by simpa using valid'.ne_group opens _)
      | call _ _ balanced' closes' =>
          simp only [tokens, List.cons_append, List.append_assoc, List.nil_append,
            List.cons.injEq] at same
          obtain ⟨rfl, rfl, tail⟩ := same
          obtain ⟨rfl, rfl, rest⟩ := balanced_split_unique balanced closes balanced' closes' tail
          exact ⟨rfl, rest⟩
      | variadic isComma =>
          obtain ⟨rfl, _⟩ := List.cons.inj same
          exact absurd isComma (by simp [Token.isPunct_eq_false_of_isIdentifier identifier])
  | variadic isComma =>
      cases itemValid' with
      | word identifier | call identifier =>
          obtain ⟨rfl, _⟩ := List.cons.inj same
          exact absurd isComma (by simp [Token.isPunct_eq_false_of_isIdentifier identifier])
      | variadic => simpa [tokens, and_assoc] using same

/-- **A trailer is read off its tokens in one way only.** -/
theorem TrailerTree.unique {t t' : TrailerTree} (valid : t.Valid) (valid' : t'.Valid)
    (same : t.tokens = t'.tokens) : t = t' := by
  obtain ⟨items, ending⟩ := t
  obtain ⟨items', ending'⟩ := t'
  induction items generalizing items' with
  | nil =>
      cases items' with
      | nil =>
          obtain rfl := TrailerEnd.unique valid.ending valid'.ending same
          rfl
      | cons item' items' =>
          rw [tokens_item] at same
          exact absurd same.symm
            ((valid'.items item' (List.mem_cons_self ..)).ne_end valid.ending _)
  | cons item items ih =>
      cases items' with
      | nil =>
          rw [tokens_item] at same
          exact absurd same ((valid.items item (List.mem_cons_self ..)).ne_end valid'.ending _)
      | cons item' items' =>
          rw [tokens_item, tokens_item] at same
          obtain ⟨rfl, later⟩ := TrailerItem.unique (valid.items _ (List.mem_cons_self ..))
            (valid'.items _ (List.mem_cons_self ..)) (valid_tail valid) (valid_tail valid') same
          cases ih (valid_tail valid) items' (valid_tail valid') later
          rfl

/-! ## Only lexemes matter -/

theorem TrailerEnd.Valid.exists_of_lexemes_eq {e : TrailerEnd} (valid : e.Valid)
    {us : List Token} (same : us.map Token.lexeme = e.tokens.map Token.lexeme) :
    ∃ e' : TrailerEnd, e'.Valid ∧ e'.tokens = us := by
  cases valid with
  | nothing =>
      obtain rfl : us = [] := by simpa [tokens] using same
      exact ⟨.nothing, .nothing, rfl⟩
  | semicolon isSemicolon =>
      obtain ⟨u, rest, rfl, head, tail⟩ := List.map_eq_cons_iff.1 same
      obtain rfl : rest = [] := by simpa using tail
      rw [← Token.isPunct_eq_of_lexeme_eq head] at isSemicolon
      exact ⟨.semicolon u, .semicolon isSemicolon, rfl⟩
  | body isBrace =>
      obtain ⟨u, rest, rfl, head, -⟩ := List.map_eq_cons_iff.1 same
      rw [← Token.isPunct_eq_of_lexeme_eq head] at isBrace
      exact ⟨.body u rest, .body isBrace, rfl⟩

theorem TrailerItem.Valid.exists_of_lexemes_eq {item : TrailerItem} (valid : item.Valid)
    {us : List Token} (same : us.map Token.lexeme = item.tokens.map Token.lexeme) :
    ∃ item' : TrailerItem, item'.Valid ∧ item'.tokens = us := by
  cases valid with
  | word identifier =>
      obtain ⟨u, rest, rfl, head, tail⟩ := List.map_eq_cons_iff.1 same
      obtain rfl : rest = [] := by simpa using tail
      rw [← Token.isIdentifier_eq_of_lexeme_eq head] at identifier
      exact ⟨.word u, .word identifier, rfl⟩
  | call identifier opens balanced closes =>
      obtain ⟨u, rest, rfl, first, tail⟩ := List.map_eq_cons_iff.1 same
      obtain ⟨v, rest, rfl, second, tail⟩ := List.map_eq_cons_iff.1 tail
      rw [List.append_eq, List.map_append] at tail
      obtain ⟨group, rest, rfl, inner, tail⟩ := List.map_eq_append_iff.1 tail
      obtain ⟨w, rest, rfl, last, tail⟩ := List.map_eq_cons_iff.1 tail
      obtain rfl : rest = [] := by simpa using tail
      rw [← Token.isIdentifier_eq_of_lexeme_eq first] at identifier
      rw [← Token.isPunct_eq_of_lexeme_eq second] at opens
      rw [← Token.isPunct_eq_of_lexeme_eq last] at closes
      exact ⟨.call u v group w,
        .call identifier opens (balanced.of_lexemes_eq inner.symm) closes, rfl⟩
  | variadic isComma isMark =>
      obtain ⟨u, rest, rfl, first, tail⟩ := List.map_eq_cons_iff.1 same
      obtain ⟨v, rest, rfl, second, tail⟩ := List.map_eq_cons_iff.1 tail
      obtain rfl : rest = [] := by simpa using tail
      rw [← Token.isPunct_eq_of_lexeme_eq first] at isComma
      rw [← (Prod.mk.inj second).1] at isMark
      exact ⟨.variadic u v, .variadic isComma isMark, rfl⟩

/-- The tokens of a trailer may be moved about in their document. -/
theorem TrailerTree.Valid.exists_of_lexemes_eq {t : TrailerTree} (valid : t.Valid)
    {us : List Token} (same : us.map Token.lexeme = t.tokens.map Token.lexeme) :
    ∃ t' : TrailerTree, t'.Valid ∧ t'.tokens = us := by
  obtain ⟨items, ending⟩ := t
  induction items generalizing us with
  | nil =>
      obtain ⟨e', endValid, rfl⟩ := valid.ending.exists_of_lexemes_eq same
      exact ⟨⟨[], e'⟩, ⟨by simp, endValid⟩, rfl⟩
  | cons item items ih =>
      rw [tokens_item, List.map_append] at same
      obtain ⟨front, behind, rfl, first, others⟩ := List.map_eq_append_iff.1 same
      obtain ⟨item', itemValid, rfl⟩ :=
        (valid.items item (List.mem_cons_self ..)).exists_of_lexemes_eq first
      obtain ⟨t', valid', rfl⟩ := ih (valid_tail valid) others
      exact ⟨.cons item' t', valid_cons itemValid valid', tokens_cons ..⟩

/-- **The check looks at lexemes alone.** -/
theorem checkTrailer_of_lexemes_eq {ts us : List Token} (checked : checkTrailer ts = .ok ())
    (same : ts.map Token.lexeme = us.map Token.lexeme) : checkTrailer us = .ok () := by
  obtain ⟨t, valid, rfl⟩ := checkTrailer_eq_ok_iff.1 checked
  exact checkTrailer_eq_ok_iff.2 (valid.exists_of_lexemes_eq same.symm)

end ProtocolFakes
