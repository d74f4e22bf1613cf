import ProtocolFakes.Proofs.Token.Writing
import ProtocolFakes.Proofs.TypeSpelling.Declarator
import ProtocolFakes.Proofs.TypeSpelling.Storage

/-!
# Pointers to generic classes

A pointer to a generic class is the name of the class, its type arguments between angle brackets
and a star.  It ought to be an object, and a name ought to come behind the star, whatever the
arguments are.  Both hold unless the arguments mention a block: its mark is looked for in the
whole spelling, so the pointer is then stored as a block and the name lands between the type
arguments (`genericPointer_iff`).

There is one more exception for storage.  The name of the class is read up to the first character
that is no letter, digit or underscore, and a dollar sign is none, though it may stand in an
identifier.  What is read must not be one of the scalars.
-/

namespace ProtocolFakes

set_option autoImplicit false

open Text (IsWord words)

/-! ## Brackets -/

/-- A text that closes every bracket of a kind that it opens, and no other. -/
structure BalancedText (opening closing : Char) (text : List Char) : Prop where
  settled : text.count opening = text.count closing
  sane : ∀ p, p <+: text → p.count closing ≤ p.count opening

theorem balancedText_iff {opening closing : Char} {text : List Char} :
    BalancedText opening closing text ↔
      text.count opening = text.count closing ∧
        ∀ n < text.length + 1, (text.take n).count closing ≤ (text.take n).count opening := by
  constructor
  · exact fun balanced => ⟨balanced.settled, fun n _ => balanced.sane _ (List.take_prefix n text)⟩
  · rintro ⟨settled, sane⟩
    refine ⟨settled, fun p isPrefix => ?_⟩
    rw [List.prefix_iff_eq_take.1 isPrefix]
    exact sane p.length (Nat.lt_succ_of_le isPrefix.length_le)

instance (opening closing : Char) (text : List Char) :
    Decidable (BalancedText opening closing text) :=
  decidable_of_iff' _ balancedText_iff

theorem balancedText_of_not_mem {opening closing : Char} {text : List Char}
    (noOpening : opening ∉ text) (noClosing : closing ∉ text) :
    BalancedText opening closing text where
  settled := by rw [List.count_eq_zero.2 noOpening, List.count_eq_zero.2 noClosing]
  sane p isPrefix := by
    rw [List.count_eq_zero.2 fun member => noClosing (isPrefix.subset member)]
    exact Nat.zero_le _

theorem BalancedText.append {opening closing : Char} {text text' : List Char}
    (balanced : BalancedText opening closing text)
    (balanced' : BalancedText opening closing text') :
    BalancedText opening closing (text ++ text') where
  settled := by rw [List.count_append, List.count_append, balanced.settled, balanced'.settled]
  sane p isPrefix := by
    rcases List.prefix_or_prefix_of_prefix isPrefix (List.prefix_append text text') with
      inside | ⟨q, rfl⟩
    · exact balanced.sane p inside
    · have further := balanced'.sane q ((List.prefix_append_right_inj text).1 isPrefix)
      rw [List.count_append, List.count_append, balanced.settled]
      omega

/-- What a balanced text opens it closes further behind. -/
theorem BalancedText.closes {opening closing : Char} {text before after : List Char}
    (balanced : BalancedText opening closing text) (differ : opening ≠ closing)
    (split : text = before ++ opening :: after) : closing ∈ after := by
  have front := balanced.sane before ⟨_, split.symm⟩
  have settled := balanced.settled
  rw [split, List.count_append, List.count_append, List.count_cons_self,
    List.count_cons_of_ne differ] at settled
  exact List.count_pos_iff.1 (by omega)

/-! ## Names of classes -/

/-- The words that look like names of classes and are scalars. -/
def scalarNames : List (List Char) := ["BOOL".toList, "SEL".toList, "IMP".toList]

/-- An identifier that names a class. -/
structure NamesClass (word : List Char) : Prop where
  isWord : isIdentifierWord word = true
  capital : ∀ c ∈ word.head?, c.isUpper = true
  not_graphics : ¬ "CG".toList <+: word
  not_foundation : ¬ "CF".toList <+: word
  not_scalar : word ∉ scalarNames

theorem namesClass_iff {word : List Char} :
    NamesClass word ↔ isIdentifierWord word = true ∧ word.head?.all Char.isUpper = true ∧
      ¬ "CG".toList <+: word ∧ ¬ "CF".toList <+: word ∧ word ∉ scalarNames := by
  rw [Option.all_eq_true]
  constructor
  · exact fun ⟨isWord, capital, notGraphics, notFoundation, notScalar⟩ =>
      ⟨isWord, capital, notGraphics, notFoundation, notScalar⟩
  · exact fun ⟨isWord, capital, notGraphics, notFoundation, notScalar⟩ =>
      ⟨isWord, capital, notGraphics, notFoundation, notScalar⟩

instance (word : List Char) : Decidable (NamesClass word) := decidable_of_iff' _ namesClass_iff

/-- The spelling of a pointer to a generic class. -/
def genericPointer (word arguments : List Char) : List Char :=
  word ++ '<' :: (arguments ++ "> *".toList)

theorem NamesClass.continues {word : List Char} (names : NamesClass word) {c : Char}
    (member : c ∈ word) : isIdentContinue c = true :=
  isIdentContinue_of_mem_word names.isWord member

/-- The name of a class begins with a capital letter. -/
theorem NamesClass.exists_capital {word : List Char} (names : NamesClass word) :
    ∃ c cs, word = c :: cs ∧ c.isUpper = true := by
  have isWord := names.isWord
  have capital := names.capital
  cases word with
  | nil => cases isWord
  | cons c cs => exact ⟨c, cs, rfl, capital c rfl⟩

/-- **What is read of the name of a class is one unless it is a scalar.** -/
theorem NamesClass.isClassName_iff {word : List Char} (names : NamesClass word) :
    isClassName (word.takeWhile isWordChar) = true ↔
      word.takeWhile isWordChar ∉ scalarNames := by
  have inside : word.takeWhile isWordChar <+: word := List.takeWhile_prefix _
  have notGraphics : "CG".toList.isPrefixOf (word.takeWhile isWordChar) = false := by
    rw [← Bool.not_eq_true, List.isPrefixOf_iff_prefix]
    exact fun begins => names.not_graphics (begins.trans inside)
  have notFoundation : "CF".toList.isPrefixOf (word.takeWhile isWordChar) = false := by
    rw [← Bool.not_eq_true, List.isPrefixOf_iff_prefix]
    exact fun begins => names.not_foundation (begins.trans inside)
  obtain ⟨c, cs, rfl, upper⟩ := names.exists_capital
  have ordinary : isWordChar c = true := by
    unfold isWordChar Char.isAlphanum Char.isAlpha
    rw [upper]
    rfl
  rw [List.takeWhile_cons_of_pos ordinary] at notGraphics notFoundation ⊢
  have scalar : (["BOOL", "SEL", "IMP"].any (·.toList == c :: cs.takeWhile isWordChar)) = true ↔
      c :: cs.takeWhile isWordChar ∈ scalarNames := by
    simp only [List.any_eq_true, beq_iff_eq, scalarNames, ← List.mem_map (f := String.toList)]
    rfl
  rw [← scalar, isClassName, notGraphics, notFoundation, upper]
  simp only [Bool.not_false, Bool.and_true, Bool.true_and, Bool.not_eq_true', Bool.not_eq_true]

/-! ## The stripped spelling -/

section GenericPointer

variable {word : List Char} (names : NamesClass word) (arguments : List Char)
include names

/-- A stripped pointer begins with the name of its class. -/
theorem NamesClass.exists_strip_eq_front :
    ∃ rest, stripAnnotations (genericPointer word arguments) = word ++ '<' :: rest := by
  have isWord : IsWord (word ++ ['<']) := by
    refine ⟨List.append_ne_nil_of_right_ne_nil word (List.cons_ne_nil _ _), fun c member => ?_⟩
    rcases List.mem_append.1 member with inside | bracket
    · exact isBlank_eq_false_of_isIdentContinue (names.continues inside)
    · rw [List.mem_singleton.1 bracket]
      decide
  obtain ⟨w, ws, read⟩ := Text.exists_words_append_eq_cons isWord (arguments ++ "> *".toList)
  have whole : stripWord? (word ++ ['<'] ++ w) = some (word ++ ['<'] ++ w) := by
    obtain ⟨c, cs, rfl, -⟩ := names.exists_capital
    have bracket : '<' ∈ (c :: cs ++ ['<'] ++ w).tail := by simp
    exact stripWord?_of_symbol bracket (by decide)
  obtain ⟨back, joined⟩ := Text.exists_intercalate_cons (word ++ ['<'] ++ w)
    (ws.filterMap stripWord?)
  refine ⟨w ++ back, ?_⟩
  rw [genericPointer, List.append_cons, stripAnnotations_eq, keptWords, read,
    List.filterMap_cons_some whole, joined, List.append_assoc, List.append_assoc,
    List.singleton_append]

omit names in
/-- A stripped pointer ends with the bracket behind its arguments and the star. -/
theorem exists_strip_eq_back (word : List Char) :
    ∃ front, stripAnnotations (genericPointer word arguments) = front ++ "> *".toList := by
  obtain ⟨ws, w, read⟩ := Text.exists_words_append_eq_concat (word ++ '<' :: arguments)
  have bracket := read ['>'] (by decide)
  have star : words ['*'] = [['*']] := by decide
  have split : genericPointer word arguments =
      word ++ '<' :: arguments ++ ['>'] ++ ' ' :: ['*'] := by
    simp [genericPointer]
  have whole : stripWord? (w ++ ['>']) = some (w ++ ['>']) := by
    cases w with
    | nil => decide
    | cons c w =>
        have inside : '>' ∈ (c :: w ++ ['>']).tail := by simp
        exact stripWord?_of_symbol inside (by decide)
  have kept : keptWords (genericPointer word arguments) =
      ws.filterMap stripWord? ++ [w ++ ['>']] ++ [['*']] := by
    have lone : [['*']].filterMap stripWord? = [['*']] := by decide
    rw [keptWords, split, Text.words_append_blank (by decide), bracket, star,
      List.filterMap_append, List.filterMap_append, lone, List.filterMap_cons_some whole,
      List.filterMap_nil]
  obtain ⟨front, joined⟩ := Text.exists_intercalate_concat (ws.filterMap stripWord?)
  refine ⟨front ++ w, ?_⟩
  rw [stripAnnotations_eq, kept, Text.intercalate_concat (by simp), joined]
  simp

/-- Nothing is cut off at the ends of a stripped pointer. -/
theorem NamesClass.storageSpelling_eq :
    storageSpelling (genericPointer word arguments) =
      stripAnnotations (genericPointer word arguments) := by
  obtain ⟨rest, begins⟩ := names.exists_strip_eq_front arguments
  obtain ⟨front, ends⟩ := exists_strip_eq_back arguments word
  obtain ⟨c, cs, rfl, upper⟩ := names.exists_capital
  have visible : IsWord [c] := by
    refine Text.isWord_cons ?_ (by simp)
    exact isBlank_eq_false_of_isIdentContinue (names.continues (List.mem_cons_self ..))
  have star : IsWord ['*'] := by decide
  have notConst : ¬ "const ".toList <+: stripAnnotations (genericPointer (c :: cs) arguments) := by
    rw [begins]
    intro constant
    obtain ⟨rfl, -⟩ := List.cons_prefix_cons.1 constant
    exact absurd upper (by decide)
  rw [storageSpelling, Text.dropRepeatedPrefix_of_not_prefix notConst, Text.trim, begins]
  have start : Text.trimStart (c :: cs ++ '<' :: rest) = c :: cs ++ '<' :: rest :=
    visible.trimStart_append (cs ++ '<' :: rest)
  have stop : Text.trimEnd (front ++ "> ".toList ++ ['*']) = front ++ "> ".toList ++ ['*'] :=
    star.trimEnd_append _
  rw [List.append_assoc] at stop
  rw [start, ← begins, ends]
  exact stop

/-- **A block begins in a pointer exactly if one begins in its arguments.** -/
theorem NamesClass.block_genericPointer_iff :
    "(^".toList <:+: genericPointer word arguments ↔ "(^".toList <:+: arguments := by
  have noBlock : ¬ "(^".toList <:+: word := by
    intro inside
    have continues := names.continues (inside.subset (List.mem_cons_self ..))
    exact absurd continues (by decide)
  have split : genericPointer word arguments = word ++ '<' :: (arguments ++ '>' :: " *".toList) :=
    rfl
  rw [split, Text.infix_append_cons_iff (by decide), Text.infix_append_cons_iff (by decide),
    or_iff_right noBlock, or_iff_left (by decide)]

/-- The name of a class is not that of an untyped object. -/
theorem NamesClass.isUntypedObject_eq_false (rest : List Char) :
    isUntypedObject (word ++ '<' :: rest) = false := by
  obtain ⟨c, cs, rfl, upper⟩ := names.exists_capital
  have small : ∀ {tail : List Char}, ¬ 'i' :: tail <+: c :: cs ++ '<' :: rest := by
    intro tail begins
    obtain ⟨rfl, -⟩ := List.cons_prefix_cons.1 begins
    exact absurd upper (by decide)
  have bracket : '<' ∈ c :: cs ++ '<' :: rest := List.mem_append_right _ (List.mem_cons_self ..)
  have glued : "id<".toList.isPrefixOf (c :: cs ++ '<' :: rest) = false := by
    rw [← Bool.not_eq_true, List.isPrefixOf_iff_prefix]
    exact small
  have spaced : "id <".toList.isPrefixOf (c :: cs ++ '<' :: rest) = false := by
    rw [← Bool.not_eq_true, List.isPrefixOf_iff_prefix]
    exact small
  rw [isUntypedObject_of_symbol bracket (by decide), glued, spaced, Bool.or_false]

omit names in
/-- A star behind a bracket makes one pointer. -/
theorem pointerDepth_bracket (front : List Char) : pointerDepth (front ++ "> *".toList) = 1 := by
  have reversed : (front ++ "> *".toList).reverse = '*' :: ' ' :: '>' :: front.reverse := by simp
  have blank : Text.isBlank ' ' = true := by decide
  have visible : Text.isBlank '>' = false := by decide
  rw [pointerDepth, reversed]
  simp [blank, visible]

/-- **How a pointer to a generic class is stored.** -/
theorem NamesClass.storageClass_eq :
    storageClass (genericPointer word arguments) =
      if Text.containsPattern "(^".toList arguments then .block
      else if word.takeWhile isWordChar ∈ scalarNames then .scalar
      else .object := by
  obtain ⟨rest, begins⟩ := names.exists_strip_eq_front arguments
  obtain ⟨front, ends⟩ := exists_strip_eq_back arguments word
  have pointer : stripAnnotations (genericPointer word arguments) =
      front ++ "> ".toList ++ '*' :: [] := by
    rw [ends, List.append_assoc]
    rfl
  have block : Text.containsPattern "(^".toList (front ++ "> ".toList) =
      Text.containsPattern "(^".toList arguments := by
    rw [Bool.eq_iff_iff, Text.containsPattern_eq_true_iff, Text.containsPattern_eq_true_iff]
    have kept := block_stripAnnotations_iff (genericPointer word arguments)
    rw [pointer, Text.infix_append_cons_iff (by decide), or_iff_left (by decide)] at kept
    exact kept.trans (names.block_genericPointer_iff arguments)
  have typed : isUntypedObject (front ++ "> ".toList ++ ['*']) = false := by
    rw [← pointer, begins]
    exact names.isUntypedObject_eq_false rest
  have depth : pointerDepth (front ++ "> ".toList ++ '*' :: []) = 1 := by
    rw [List.append_assoc]
    exact pointerDepth_bracket front
  have name : (front ++ "> ".toList).takeWhile isWordChar = word.takeWhile isWordChar := by
    have bracket : isWordChar '<' = false := by decide
    have star : isWordChar '*' = false := by decide
    rw [← takeWhile_append_cons star, ← pointer, begins, takeWhile_append_cons bracket]
  rw [storageClass_of_star ((names.storageSpelling_eq arguments).trans pointer) (by simp), name]
  simp only [block, typed, depth, names.isClassName_iff, true_and, Bool.false_eq_true, if_false,
    ite_not]

end GenericPointer

/-! ## The name behind the star -/

theorem getLast?_genericPointer (word arguments : List Char) :
    (genericPointer word arguments).getLast? = some '*' := by
  have split : genericPointer word arguments =
      word ++ '<' :: (arguments ++ "> ".toList) ++ ['*'] := by
    simp [genericPointer]
  rw [split, List.getLast?_concat]

/-- The pointer closes the parentheses that its arguments close. -/
theorem NamesClass.balanced_genericPointer {word arguments : List Char} (names : NamesClass word)
    (balanced : BalancedText '(' ')' arguments) :
    BalancedText '(' ')' (genericPointer word arguments) := by
  have plain : ∀ {c : Char}, isIdentContinue c = false → c ≠ '<' → c ∉ word ++ ['<'] := by
    intro c symbol other member
    rcases List.mem_append.1 member with inside | bracket
    · simp [names.continues inside] at symbol
    · exact other (List.mem_singleton.1 bracket)
  have front : BalancedText '(' ')' (word ++ ['<']) :=
    balancedText_of_not_mem (plain (by decide) (by decide)) (plain (by decide) (by decide))
  have back : BalancedText '(' ')' "> *".toList :=
    balancedText_of_not_mem (by decide) (by decide)
  rw [genericPointer, List.append_cons]
  exact front.append (balanced.append back)

/-- **Where a block is among the arguments, the name does not come behind the star.** -/
theorem NamesClass.declarator_ne {word arguments name : List Char} (names : NamesClass word)
    (balanced : BalancedText '(' ')' arguments) (isName : isIdentifierWord name = true)
    (block : "(^".toList <:+: arguments) :
    declarator (genericPointer word arguments) name ≠ genericPointer word arguments ++ name := by
  have closes : ∀ before after, genericPointer word arguments = before ++ '(' :: after →
      ')' ∈ after :=
    fun _ _ split => (names.balanced_genericPointer balanced).closes (by decide) split
  obtain ⟨before, qualifiers, after, cut, named⟩ :=
    exists_caretCut ((names.block_genericPointer_iff arguments).2 block) closes
  -- The name that is put into the middle leaves the star at the end, which is none of its
  -- characters.
  have star : (declarator (genericPointer word arguments) name).getLast? = some '*' := by
    have ends := getLast?_genericPointer word arguments
    rw [cut.spelled] at ends
    rw [named]
    simpa [List.getLast?_append, List.getLast?_cons] using ends
  intro same
  have nonempty : name ≠ [] := by
    rintro rfl
    cases isName
  obtain ⟨front, c, rfl⟩ := (List.eq_nil_or_concat name).resolve_left nonempty
  rw [same, List.concat_eq_append, ← List.append_assoc, List.getLast?_concat] at star
  obtain rfl := Option.some.inj star
  have continues : isIdentContinue '*' = true :=
    isIdentContinue_of_mem_word isName (by rw [List.concat_eq_append]; simp)
  exact absurd continues (by decide)

/-- **A pointer to a generic class is an object, and a name comes behind its star, unless a block
is among its arguments.** For its storage, what is read of the name of the class must not be a
scalar either. -/
theorem genericPointer_iff {word arguments name : List Char} (names : NamesClass word)
    (balanced : BalancedText '(' ')' arguments) (isName : isIdentifierWord name = true) :
    (storageClass (genericPointer word arguments) = .object ↔
        ¬ "(^".toList <:+: arguments ∧ word.takeWhile isWordChar ∉ scalarNames) ∧
      (declarator (genericPointer word arguments) name = genericPointer word arguments ++ name ↔
        ¬ "(^".toList <:+: arguments) := by
  constructor
  · rw [names.storageClass_eq, ← Text.containsPattern_eq_true_iff]
    by_cases block : Text.containsPattern "(^".toList arguments = true
    · rw [if_pos block]
      exact iff_of_false (by decide) fun both => both.1 block
    · rw [if_neg block]
      by_cases scalar : word.takeWhile isWordChar ∈ scalarNames
      · rw [if_pos scalar]
        exact iff_of_false (by decide) fun both => both.2 scalar
      · rw [if_neg scalar]
        exact iff_of_true rfl ⟨block, scalar⟩
  · constructor
    · exact fun same block => names.declarator_ne balanced isName block same
    · intro noBlock
      rw [declarator_of_no_block (mt (names.block_genericPointer_iff arguments).1 noBlock),
        if_pos (getLast?_genericPointer word arguments)]

theorem genericPointer_dictionary :
    NamesClass "NSDictionary".toList ∧ BalancedText '(' ')' "NSString *, NSArray<id> *".toList ∧
      isIdentifierWord "table".toList = true ∧
      storageClass "NSDictionary<NSString *, NSArray<id> *> *".toList = .object ∧
      declarator "NSDictionary<NSString *, NSArray<id> *> *".toList "table".toList =
        "NSDictionary<NSString *, NSArray<id> *> *table".toList := by
  have names : NamesClass "NSDictionary".toList := by decide
  have balanced : BalancedText '(' ')' "NSString *, NSArray<id> *".toList := by decide
  have isName : isIdentifierWord "table".toList = true := by decide
  have spelled : genericPointer "NSDictionary".toList "NSString *, NSArray<id> *".toList =
      "NSDictionary<NSString *, NSArray<id> *> *".toList := by decide
  have noBlock : ¬ "(^".toList <:+: "NSString *, NSArray<id> *".toList :=
    mt Text.containsPattern_eq_true_iff.2 (by decide)
  obtain ⟨stored, declared⟩ := genericPointer_iff names balanced isName
  rw [spelled] at stored declared
  refine ⟨names, balanced, isName, stored.2 ⟨noBlock, by decide⟩, ?_⟩
  rw [declared.2 noBlock]
  decide

/-- **A pointer to a generic class may be stored as a block.** -/
theorem generic_pointer_may_be_block :
    ¬ ∀ word arguments name : List Char, NamesClass word →
      BalancedText '(' ')' arguments → BalancedText '<' '>' arguments →
      ¬ "  ".toList <:+: arguments → (∀ w ∈ words arguments, isAnnotation w = false) →
      isIdentifierWord name = true →
        storageClass (genericPointer word arguments) = .object ∧
          declarator (genericPointer word arguments) name =
            genericPointer word arguments ++ name := by
  intro everyPointer
  have names : NamesClass "NSArray".toList := by decide
  have block : Text.containsPattern "(^".toList "void (^)(BOOL)".toList = true := by decide
  obtain ⟨stored, -⟩ := everyPointer "NSArray".toList "void (^)(BOOL)".toList "value".toList names
    (by decide) (by decide) (mt Text.containsPattern_eq_true_iff.2 (by decide)) (by decide)
    (by decide)
  rw [names.storageClass_eq, if_pos block] at stored
  cases stored

end ProtocolFakes
