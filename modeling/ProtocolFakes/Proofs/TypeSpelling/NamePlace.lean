import ProtocolFakes.Proofs.Token.Bare
import ProtocolFakes.Proofs.TypeSpelling.Declarator

/-!
# A declared name is a token of its own

A name is put into the spelling of a type by its characters: the mark of a block and a parenthesis
are looked for, blanks are trimmed off and one is added.  Read again, the declarator has the tokens
of the type and the name, which stands at the end or in front of the parenthesis of the first block
(`declarator_inserts_name`).

* What is looked for is plain punctuation, so the spelling is cut between pieces
  (`SpellsBare.exists_pieces_of_caretCut`), and that the parenthesis is there follows from the
  balance of the tokens (`SpellsBare.closes`).
* What is trimmed off is spaces, and the name behind the qualifiers has a space in front of it
  (`exists_pieces_qualifiedName`).
* Behind a caret or a star nothing is glued to the name, whatever the name is; in front of it stands
  one of them, or a space (`exists_pieces_plain`).

No quoted text may be among the tokens.  It could hold the mark of a block, or a parenthesis.
-/

namespace ProtocolFakes

set_option autoImplicit false

open Text (byteLength)

/-! ## The pieces of a declarator -/

section Name

variable {name : List Char} (isName : isIdentifierWord name = true)
include isName

theorem cuts_name {rest : List Char} (ends : EndsWord rest) :
    Cuts false [.token .identifier name] rest := ⟨readAt_word isName ends false, trivial⟩

/-- A name behind a space is a piece of its own. -/
theorem cuts_spaced_name {qs : List Piece} {a : List Char} (cuts : Cuts false qs a)
    (bare : ∀ q ∈ qs, q.IsBare) {rest : List Char} (ends : EndsWord rest) :
    Cuts false (qs ++ [.space, .token .identifier name]) rest := by
  rw [cuts_append_of_bare bare]
  have breaks : BreaksOff (spelling [.space, .token .identifier name] ++ rest) :=
    breaksOff_cons (by decide) _
  exact ⟨cuts.of_looksAlike bare (sharesStart_of_breaksOff a breaks).looksAlike,
    readAt_space .., cuts_name isName ends⟩

/-- **A name at the end of a spelling is a piece of its own**, be it behind a space or right behind
a star. -/
theorem exists_pieces_plain {qs : List Piece} (cuts : Cuts false qs [])
    (bare : ∀ q ∈ qs, q.IsBare) :
    ∃ ms, spelling (qs ++ ms) = (if (spelling qs).getLast? = some '*' then spelling qs ++ name
        else spelling qs ++ ' ' :: name) ∧
      ms.filterMap Piece.lexeme? = [(.identifier, String.ofList name)] ∧
      Cuts false (qs ++ ms) [] := by
  have ends : EndsWord [] := by simp [EndsWord]
  by_cases star : (spelling qs).getLast? = some '*'
  · obtain ⟨u, spelled⟩ := List.getLast?_eq_some_iff.1 star
    obtain ⟨front, back, rfl, -, nothing⟩ := cuts.exists_plain bare (by decide) spelled
    have bareFront := (List.forall_mem_append.1 bare).1
    obtain rfl := ((cuts_append_of_bare bareFront).1 cuts).2.2.eq_nil nothing
    refine ⟨[.token .identifier name], ?_, rfl, ?_⟩
    · rw [if_pos star, spelling_append (front ++ _)]
      simp [Piece.chars]
    · rw [cuts_append_of_bare bare]
      exact ⟨cuts.of_plain bareFront (by decide) _, cuts_name isName ends⟩
  · refine ⟨[.space, .token .identifier name], ?_, rfl, cuts_spaced_name isName cuts bare ends⟩
    rw [if_neg star, spelling_append]
    simp [Piece.space, Piece.chars]

/-- **A name behind the qualifiers of a block is a piece of its own.** -/
theorem exists_pieces_qualifiedName {qs : List Piece} {a : List Char} (cuts : Cuts false qs a)
    (bare : ∀ q ∈ qs, q.IsBare) :
    ∃ ms, spelling ms = qualifiedName (spelling qs) name ∧
      ms.filterMap Piece.lexeme? =
        qs.filterMap Piece.lexeme? ++ [(.identifier, String.ofList name)] ∧
      (∀ m ∈ ms, m.IsBare) ∧ ∀ rest, EndsWord rest → Cuts false ms rest := by
  obtain ⟨spaces, ps, spaces', rfl, all, trimmed⟩ := cuts.exists_trim bare
  obtain ⟨front, back⟩ := List.forall_mem_append.1 all
  have silent : ∀ gs : List Piece, (∀ g ∈ gs, g = .space) → gs.filterMap Piece.lexeme? = [] := by
    intro gs spaced
    rw [List.filterMap_eq_nil_iff]
    intro g member
    rw [spaced g member]
    rfl
  have lexemes : (spaces ++ (ps ++ spaces')).filterMap Piece.lexeme? =
      ps.filterMap Piece.lexeme? := by
    rw [List.filterMap_append, List.filterMap_append, silent spaces front, silent spaces' back,
      List.nil_append, List.append_nil]
  obtain ⟨bareFront, bareBehind⟩ := List.forall_mem_append.1 bare
  have bareInside := (List.forall_mem_append.1 bareBehind).1
  rw [cuts_append_of_bare bareFront, cuts_append_of_bare bareInside] at cuts
  have cutsInside := cuts.2.1
  rw [qualifiedName, trimmed, lexemes]
  by_cases empty : spelling ps = []
  · obtain rfl := cutsInside.eq_nil empty
    exact ⟨[.token .identifier name], by simp [Piece.chars], rfl, by simp [Piece.IsBare],
      fun rest => cuts_name isName⟩
  · refine ⟨ps ++ [.space, .token .identifier name], ?_, ?_, ?_, fun rest =>
      cuts_spaced_name isName cutsInside bareInside⟩
    · rw [if_neg (by simpa using empty), spelling_append]
      simp [Piece.space, Piece.chars]
    · rw [List.filterMap_append]
      rfl
    · exact List.forall_mem_append.2 ⟨bareInside, by simp [Piece.IsBare, Piece.space]⟩

end Name

/-! ## The place of the name -/

/-- The place of a name among tokens: at their end if no block begins in their spelling, and else
in front of the parenthesis that closes the first one. -/
def IsNamePlace (before after : List Token) : Prop :=
  (¬ "(^".toList <:+: (Token.spell (before ++ after)).toList ∧ after = []) ∨
    ∃ front qualifiers back,
      CaretCut (Token.spell (before ++ after)).toList front qualifiers back ∧
        (Token.spell after).toList = ')' :: back

/-- Tokens whose spelling is made of bare pieces and cut again. -/
structure SpellsBare (ts : List Token) : Prop where
  cuts : Cuts false (spellPieces ts) []
  bare : ∀ q ∈ spellPieces ts, q.IsBare

/-- Tokens from a source without quoted texts. -/
theorem spellsBare_of_infix {source : String} {base : Nat} {ts : List Token}
    (fits : base + byteLength source.toList ≤ maxOffset) (stretch : ts <:+: tokenize source base)
    (noQuote : ∀ t ∈ ts, t.kind ≠ .stringLiteral) : SpellsBare ts where
  cuts := by
    obtain ⟨lineStart, start, ps, rest, rfl, cuts, short⟩ := exists_cuts_of_infix stretch
    refine cuts_spellPieces cuts (by omega) (closedBefore_of_forall [] ?_) (by simp [BreaksOff])
    intro t member
    simp [Token.isClosed, noQuote t member]
  bare := isBare_of_mem_spellPieces noQuote

/-- **Plain punctuation in a spelling is one of the tokens.** -/
theorem SpellsBare.exists_token {ts : List Token} (spells : SpellsBare ts) {u v : List Char}
    {c : Char} (plain : IsPlain c) (spelled : (Token.spell ts).toList = u ++ c :: v) :
    ∃ before t after, ts = before ++ t :: after ∧ t.isPunct c = true ∧
      (Token.spell (t :: after)).toList = c :: v := by
  rw [← spelling_spellPieces] at spelled
  obtain ⟨front, back, split, -, rfl⟩ := spells.cuts.exists_plain spells.bare plain spelled
  obtain ⟨before, t, after, rfl, kind, text, behind, -⟩ := exists_tokens_of_spellPieces_eq split
  refine ⟨before, t, after, rfl, by simp [Token.isPunct, kind, text], ?_⟩
  rw [← spelling_spellPieces, behind]
  rfl

/-- The spelling of balanced tokens closes its parentheses. -/
theorem SpellsBare.closes {ts : List Token} (spells : SpellsBare ts) (balanced : Balanced ts)
    {u v : List Char} (spelled : (Token.spell ts).toList = u ++ '(' :: v) : ')' ∈ v := by
  obtain ⟨before, opening, after, rfl, isOpen, behind⟩ := spells.exists_token (by decide) spelled
  obtain ⟨closing, member, isClose⟩ := balanced.exists_close isOpen
  have inside : ')' ∈ closing.text.toList := by
    rw [Token.text_eq_of_isPunct isClose]
    decide
  have spelledInside := mem_spell (List.mem_cons_of_mem opening member) inside
  rw [behind] at spelledInside
  exact (List.mem_cons.1 spelledInside).resolve_left (by decide)

/-- **Where a spelling is cut at a block, it is cut between pieces**, and behind the pieces up to
the caret anything may follow. -/
theorem SpellsBare.exists_pieces_of_caretCut {ts : List Token} (spells : SpellsBare ts)
    {x q z : List Char} (cut : CaretCut (Token.spell ts).toList x q z) :
    ∃ front inside back, spellPieces ts = front ++ (inside ++ .token .punct [')'] :: back) ∧
      front ≠ [] ∧ (∀ rest, Cuts false front rest) ∧ spelling front = x ++ "(^".toList ∧
      spelling inside = q ∧ spelling back = z := by
  have spelled : spelling (spellPieces ts) = (x ++ ['(']) ++ '^' :: (q ++ ')' :: z) := by
    rw [spelling_spellPieces, cut.spelled]
    simp
  obtain ⟨front, behind, split, spelledFront, spelledBehind⟩ :=
    spells.cuts.exists_plain spells.bare (by decide) spelled
  rw [List.append_cons] at split
  have bare := spells.bare
  have cuts := spells.cuts
  rw [split] at bare cuts
  obtain ⟨bareCaret, bareBehind⟩ := List.forall_mem_append.1 bare
  obtain ⟨cutsCaret, cutsBehind⟩ := (cuts_append_of_bare bareCaret).1 cuts
  obtain ⟨inside, back, rfl, spelledInside, spelledBack⟩ :=
    cutsBehind.exists_plain bareBehind (by decide) spelledBehind
  refine ⟨front ++ [.token .punct ['^']], inside, back, split, by simp, ?_, ?_, spelledInside,
    spelledBack⟩
  · exact cutsCaret.of_plain (List.forall_mem_append.1 bareCaret).1 (by decide)
  · rw [spelling_append, spelledFront]
    simp [Piece.chars]

/-- **A name that is put behind the qualifiers of a block** stands among the pieces of the spelling
in front of the parenthesis of that block. -/
theorem SpellsBare.exists_pieces_block {ts : List Token} (spells : SpellsBare ts)
    {name x q z : List Char} (isName : isIdentifierWord name = true)
    (cut : CaretCut (Token.spell ts).toList x q z) :
    ∃ before after qs, ts = before ++ after ∧ (Token.spell after).toList = ')' :: z ∧
      spelling qs = x ++ ("(^".toList ++ (qualifiedName q name ++ ')' :: z)) ∧
      Cuts false qs [] ∧ qs.head? = (spellPieces ts).head? ∧
      qs.filterMap Piece.lexeme? = before.map Token.lexeme ++
        (.identifier, String.ofList name) :: after.map Token.lexeme := by
  obtain ⟨front, inside, back, split, ne, cutsFront, spelledFront, rfl, rfl⟩ :=
    spells.exists_pieces_of_caretCut cut
  obtain ⟨cuts, bare⟩ := spells
  rw [split] at cuts bare
  obtain ⟨bareFront, bareBehind⟩ := List.forall_mem_append.1 bare
  have bareInside := (List.forall_mem_append.1 bareBehind).1
  rw [cuts_append_of_bare bareFront, cuts_append_of_bare bareInside] at cuts
  obtain ⟨-, cutsInside, cutsBack⟩ := cuts
  obtain ⟨ms, spelledName, lexemesName, bareName, cutsName⟩ :=
    exists_pieces_qualifiedName isName cutsInside bareInside
  -- The tokens are those of the pieces in front of the parenthesis and those from it on.
  have splitBack := split
  rw [← List.append_assoc] at splitBack
  obtain ⟨before, t, after, rfl, -, -, spelledAfter, lexemesBefore⟩ :=
    exists_tokens_of_spellPieces_eq splitBack
  have lexemesAfter := lexemes_spellPieces_eq (t :: after)
  rw [spelledAfter] at lexemesAfter
  refine ⟨before, t :: after, front ++ (ms ++ .token .punct [')'] :: back), rfl, ?_, ?_, ?_, ?_, ?_⟩
  · rw [← spelling_spellPieces, spelledAfter]
    rfl
  · rw [spelling_append, spelling_append, spelledFront, spelledName, List.append_assoc]
    rfl
  · rw [cuts_append_of_bare bareFront, cuts_append_of_bare bareName]
    have ends : EndsWord (spelling (.token .punct [')'] :: back) ++ []) :=
      (breaksOff_cons (by decide) _).endsWord
    exact ⟨cutsFront _, cutsName _ ends, cutsBack⟩
  · rw [split]
    obtain ⟨p, front, rfl⟩ := List.exists_cons_of_ne_nil ne
    rfl
  · rw [List.filterMap_append, List.filterMap_append, lexemesName, lexemesBefore, lexemesAfter,
      List.filterMap_append]
    simp only [List.append_assoc, List.singleton_append]

/-- **A declared name is one token more, and every other token stays.** For tokens from a source
that close every parenthesis that they open, and no other, without quoted texts and not beginning
with a hash sign, the declarator of their spelling and a name has these tokens and the name.  It
stands at the end if no block begins in the spelling, and else in front of the parenthesis that
closes the first one. -/
theorem declarator_inserts_name {source : String} {base : Nat} {ts : List Token} {name : String}
    (fits : base + byteLength source.toList ≤ maxOffset) (stretch : ts <:+: tokenize source base)
    (ne : ts ≠ []) (balanced : Balanced ts) (noQuote : ∀ t ∈ ts, t.kind ≠ .stringLiteral)
    (noHash : ∀ t ∈ ts.head?, t.text ≠ "#") (isName : isIdentifierWord name.toList = true) :
    ∃ before after, ts = before ++ after ∧ IsNamePlace before after ∧
      (tokenize (String.ofList (declarator (Token.spell ts).toList name.toList)) 0).map
          Token.lexeme =
        before.map Token.lexeme ++ (.identifier, name) :: after.map Token.lexeme := by
  have spells := spellsBare_of_infix fits stretch noQuote
  obtain ⟨t, us, rfl⟩ := List.exists_cons_of_ne_nil ne
  have first : (spellPieces (t :: us)).head? = some (.token t.kind t.text.toList) := rfl
  have notHash : String.ofList t.text.toList ≠ "#" := by
    rw [String.ofList_toList]
    exact noHash t rfl
  by_cases block : "(^".toList <:+: (Token.spell (t :: us)).toList
  · obtain ⟨x, q, z, cut, declared⟩ :=
      exists_caretCut block fun _ _ spelled => spells.closes balanced spelled
    obtain ⟨before, after, qs, split, spelledAfter, spelled, cuts, head, lexemes⟩ :=
      spells.exists_pieces_block isName cut
    refine ⟨before, after, split, .inr ⟨x, q, z, split ▸ cut, spelledAfter⟩, ?_⟩
    rw [declared, ← spelled, cuts.lexemes_tokenize (head.trans first) notHash, lexemes,
      String.ofList_toList]
  · obtain ⟨ms, spelled, lexemes, cuts⟩ := exists_pieces_plain isName spells.cuts spells.bare
    refine ⟨t :: us, [], (List.append_nil _).symm, .inl ⟨by rwa [List.append_nil], rfl⟩, ?_⟩
    rw [spelling_spellPieces] at spelled
    rw [declarator_of_no_block block, ← spelled, cuts.lexemes_tokenize first notHash,
      List.filterMap_append, lexemes_spellPieces_eq, lexemes, String.ofList_toList]
    rfl

/-- A block with a qualifier, and a comment in front of it. -/
def blockSource : String := "void // block\n (^\t_Nonnull )(BOOL)"

theorem declarator_inserts_name_block :
    Balanced (tokenize blockSource 9) ∧
      Token.spell (tokenize blockSource 9) = "void (^ _Nonnull )(BOOL)" ∧
      ∃ before after, tokenize blockSource 9 = before ++ after ∧ IsNamePlace before after ∧
        (tokenize "void (^_Nonnull done)(BOOL)" 0).map Token.lexeme =
          before.map Token.lexeme ++ (.identifier, "done") :: after.map Token.lexeme := by
  have balanced : Balanced (tokenize blockSource 9) := by decide +kernel
  have spelled : Token.spell (tokenize blockSource 9) = "void (^ _Nonnull )(BOOL)" := by
    decide +kernel
  have declared : declarator "void (^ _Nonnull )(BOOL)".toList "done".toList =
      "void (^_Nonnull done)(BOOL)".toList := by decide
  have isName : isIdentifierWord "done".toList = true := by decide
  have inserted := declarator_inserts_name (by decide +kernel) List.infix_rfl (by decide +kernel)
    balanced (by decide +kernel) (by decide +kernel) isName
  rw [spelled, declared, String.ofList_toList] at inserted
  exact ⟨balanced, spelled, inserted⟩

end ProtocolFakes
