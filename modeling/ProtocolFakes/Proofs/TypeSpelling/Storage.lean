import ProtocolFakes.Proofs.TypeSpelling.Annotation

/-!
# Storage of annotated pointers

An annotation that is a word of its own says nothing about storage, wherever it stands.  An
annotation may also be glued to the star at the end of a type.  It is then taken off if the star
stands apart from the word in front of it (`StarStandsApart`); if not, it stays, the spelling
does not end with a star any more, and only what is decided further to the front is left: whether
there is a block, and whether the type is an untyped object.

So a glued annotation changes the storage of a type exactly if its star does not stand apart and
it is stored as an object by the name of a class (`storageClass_annotated`), as in `NSString*`.
-/

namespace ProtocolFakes

set_option autoImplicit false

open Text (IsWord words)

/-! ## Spellings with a star in them -/

/-- A run of characters at the beginning of a text ends in front of a character of another kind. -/
theorem takeWhile_append_cons {p : Char → Bool} {c : Char} (ends : p c = false)
    (cs ds : List Char) : (cs ++ c :: ds).takeWhile p = cs.takeWhile p := by
  induction cs with
  | nil => rw [List.nil_append, List.takeWhile_cons_of_neg (by simp [ends]), List.takeWhile_nil]
  | cons d cs ih => rw [List.cons_append, List.takeWhile_cons, List.takeWhile_cons, ih]

/-- A spelling with a symbol in it is that of an untyped object only by its beginning. -/
theorem isUntypedObject_of_symbol {spelling : List Char} {c : Char} (member : c ∈ spelling)
    (symbol : isWordChar c = false) :
    isUntypedObject spelling =
      ("id<".toList.isPrefixOf spelling || "id <".toList.isPrefixOf spelling) := by
  have noName : (["id", "instancetype", "Class"].any (·.toList == spelling)) = false := by
    have ordinary : ∀ name ∈ ["id", "instancetype", "Class"],
        name.toList.all isWordChar = true := by
      decide
    rw [List.any_eq_false]
    intro name listed same
    rw [← beq_iff_eq.1 same] at member
    simp [List.all_eq_true.1 (ordinary name listed) c member] at symbol
  rw [isUntypedObject, noName, Bool.false_or]

/-- Whether a type is an untyped object is decided in front of a star. -/
theorem isUntypedObject_append_star (front back : List Char) :
    isUntypedObject (front ++ '*' :: back) = isUntypedObject (front ++ ['*']) := by
  have star : ∀ rest, '*' ∈ front ++ '*' :: rest :=
    fun rest => List.mem_append_right front (List.mem_cons_self ..)
  have begins : ∀ {pattern : List Char}, '*' ∉ pattern → ∀ rest,
      pattern.isPrefixOf (front ++ '*' :: rest) = pattern.isPrefixOf front := by
    intro pattern outside rest
    rw [Bool.eq_iff_iff, List.isPrefixOf_iff_prefix, List.isPrefixOf_iff_prefix]
    exact Text.prefix_append_cons_iff outside
  rw [isUntypedObject_of_symbol (star back) (by decide),
    isUntypedObject_of_symbol (star []) (by decide), begins (by decide), begins (by decide),
    begins (by decide), begins (by decide)]

/-- **How a type with a star in its spelling is stored**, if no block begins behind that star. -/
theorem storageClass_of_star {spelling front back : List Char}
    (base : storageSpelling spelling = front ++ '*' :: back) (noBlock : '(' ∉ back) :
    storageClass spelling =
      if Text.containsPattern "(^".toList front then .block
      else if isUntypedObject (front ++ ['*']) then .object
      else if pointerDepth (front ++ '*' :: back) = 1 ∧ isClassName (front.takeWhile isWordChar)
        then .object
      else .scalar := by
  have notVoid : front ++ '*' :: back ≠ "void".toList := by
    intro same
    have star : '*' ∈ "void".toList := same ▸ List.mem_append_right _ (List.mem_cons_self ..)
    exact absurd star (by decide)
  have block : Text.containsPattern "(^".toList (front ++ '*' :: back) =
      Text.containsPattern "(^".toList front := by
    rw [Bool.eq_iff_iff, Text.containsPattern_eq_true_iff, Text.containsPattern_eq_true_iff,
      Text.infix_append_cons_iff (by decide)]
    refine or_iff_left fun inside => noBlock ?_
    exact inside.subset (by decide)
  have name : (front ++ '*' :: back).takeWhile isWordChar = front.takeWhile isWordChar :=
    takeWhile_append_cons (by decide) front back
  simp only [storageClass, base, if_neg notVoid, block, isUntypedObject_append_star front back,
    name]

/-- A spelling that ends with a character other than a star or a blank points to nothing. -/
theorem pointerDepth_concat {c : Char} (notStar : c ≠ '*') (notBlank : Text.isBlank c = false)
    (cs : List Char) : pointerDepth (cs ++ [c]) = 0 := by
  rw [pointerDepth, List.reverse_append, List.reverse_singleton, List.singleton_append,
    List.takeWhile_cons_of_neg (by simp [notStar, notBlank]), List.countP_nil]

/-! ## Annotations behind a star -/

/-- The star at the end of a spelling is a word of its own. -/
def StarStandsApart (spelling : List Char) : Prop := (words spelling).getLast? = some ['*']

/-- A word that is dropped, or leaves the star to which it is glued, and says nothing of
storage. -/
structure SaysNothing (word : List Char) : Prop where
  isWord : IsWord word
  dropped : stripWord? word = none
  leaves_star : stripWord? ('*' :: word) = some ['*']
  noBlock : '(' ∉ word
  pointsNowhere : ∀ cs, pointerDepth (cs ++ word) = 0

/-- The annotations are such words. -/
theorem saysNothing_of_mem {note : String} (listed : note ∈ annotations) :
    SaysNothing note.toList := by
  have ordinary : ∀ a ∈ annotations, IsWord a.toList ∧ '(' ∉ a.toList ∧ '*' ∉ a.toList := by
    decide
  have stripped : ∀ a ∈ annotations, stripWord? a.toList = none ∧
      stripWord? ('*' :: a.toList) = some ['*'] := by
    decide
  obtain ⟨isWord, noParen, noStar⟩ := ordinary note listed
  refine ⟨isWord, (stripped note listed).1, (stripped note listed).2, noParen, fun cs => ?_⟩
  obtain ⟨front, c, split⟩ := List.eq_nil_or_concat note.toList |>.resolve_left isWord.ne_nil
  rw [List.concat_eq_append] at split
  have last : c ∈ note.toList := split ▸ List.mem_append_right front (List.mem_singleton_self c)
  have notStar : c ≠ '*' := fun same => noStar (same ▸ last)
  rw [split, ← List.append_assoc]
  exact pointerDepth_concat notStar (isWord.not_blank c last) _

/-- **An annotation that is a word of its own is not looked at**, in front of a spelling or
behind it. -/
theorem keptWords_spaced {word : List Char} (nothing : SaysNothing word)
    (spelling : List Char) :
    keptWords (word ++ ' ' :: spelling) = keptWords spelling ∧
      keptWords (spelling ++ ' ' :: word) = keptWords spelling := by
  have dropped : [word].filterMap stripWord? = [] := by
    rw [List.filterMap_cons_none nothing.dropped, List.filterMap_nil]
  constructor
  · rw [keptWords, Text.words_append_blank (by decide), nothing.isWord.words_eq,
      List.filterMap_append, dropped, List.nil_append, keptWords]
  · rw [keptWords, Text.words_append_blank (by decide), nothing.isWord.words_eq,
      List.filterMap_append, dropped, List.append_nil, keptWords]

/-- An annotation that is glued to a star that stands apart is taken off. -/
theorem stripAnnotations_glued {word front : List Char} (nothing : SaysNothing word)
    (apart : StarStandsApart (front ++ ['*'])) :
    stripAnnotations (front ++ '*' :: word) = stripAnnotations (front ++ ['*']) := by
  have isWord : IsWord ('*' :: word) := Text.isWord_cons (by decide) nothing.isWord.not_blank
  obtain ⟨ws, w, read⟩ := Text.exists_words_append_eq_concat front
  have star : words (front ++ ['*']) = ws ++ [w ++ ['*']] := read ['*'] (by decide)
  have alone : w = [] := by
    rw [StarStandsApart, star, List.getLast?_concat] at apart
    simpa using apart
  have lone : stripWord? ['*'] = some ['*'] := by decide
  rw [stripAnnotations_eq, stripAnnotations_eq, keptWords, keptWords, star, read _ isWord, alone,
    List.filterMap_append, List.filterMap_append, List.nil_append, List.nil_append,
    List.filterMap_cons_some nothing.leaves_star, List.filterMap_cons_some lone]

/-- **What is glued to a star that does not stand apart stays**, and what stands in front of
that star is looked at alike, whatever it is. -/
theorem exists_storageSpelling_glued {front : List Char}
    (joined : ¬ StarStandsApart (front ++ ['*'])) :
    ∃ base, ∀ glued, (∀ c ∈ glued, Text.isBlank c = false) →
      storageSpelling (front ++ '*' :: glued) = base ++ '*' :: glued := by
  obtain ⟨ws, w, read⟩ := Text.exists_words_append_eq_concat front
  have filled : w ≠ [] := by
    rintro rfl
    refine joined ?_
    rw [StarStandsApart, read ['*'] (by decide), List.getLast?_concat,
      List.nil_append]
  obtain ⟨start, spelled⟩ := Text.exists_intercalate_concat (ws.filterMap stripWord?)
  refine ⟨Text.trimStart (Text.dropRepeatedPrefix "const ".toList (start ++ w)), ?_⟩
  intro glued visible
  have isWord : IsWord ('*' :: glued) := Text.isWord_cons (by decide) visible
  have whole : stripWord? (w ++ '*' :: glued) = some (w ++ '*' :: glued) := by
    obtain ⟨c, w, rfl⟩ := List.exists_cons_of_ne_nil filled
    have star : '*' ∈ (c :: w ++ '*' :: glued).tail :=
      List.mem_append_right w (List.mem_cons_self ..)
    exact stripWord?_of_symbol star (by decide)
  have kept : keptWords (front ++ '*' :: glued) =
      ws.filterMap stripWord? ++ [w ++ '*' :: glued] := by
    rw [keptWords, read _ isWord, List.filterMap_append, List.filterMap_cons_some whole,
      List.filterMap_nil]
  rw [storageSpelling, stripAnnotations_eq, kept, spelled, ← List.append_assoc,
    Text.dropRepeatedPrefix_append_cons (by decide), isWord.trim_append]

/-- **A glued annotation changes the storage of a pointer exactly if the star does not stand
apart and the type is an object by the name of its class.** -/
theorem storageClass_glued_iff {word front : List Char} (nothing : SaysNothing word) :
    storageClass (front ++ '*' :: word) = storageClass (front ++ ['*']) ↔
      StarStandsApart (front ++ ['*']) ∨ storageClass (front ++ ['*']) ≠ .object ∨
        isUntypedObject (storageSpelling (front ++ ['*'])) = true := by
  by_cases apart : StarStandsApart (front ++ ['*'])
  · have same := storageClass_eq_of_stripAnnotations_eq (stripAnnotations_glued nothing apart)
    simp only [same, apart, true_or]
  obtain ⟨base, spelled⟩ := exists_storageSpelling_glued apart
  have bare := spelled [] (by simp)
  have glued := spelled word nothing.isWord.not_blank
  have nowhere : pointerDepth (base ++ '*' :: word) = 0 := by
    rw [List.append_cons]
    exact nothing.pointsNowhere _
  rw [storageClass_of_star bare (by simp), storageClass_of_star glued nothing.noBlock, nowhere,
    bare]
  -- Both are decided alike up to the depth of the pointer, which is lost.
  by_cases block : Text.containsPattern "(^".toList base = true
  · simp only [block, if_true, true_iff]
    exact .inr (.inl (by decide))
  · by_cases untyped : isUntypedObject (base ++ ['*']) = true
    · simp only [block, untyped, if_true, or_true]
    · simp only [apart, block, untyped, false_or]
      by_cases named : pointerDepth (base ++ ['*']) = 1 ∧
          isClassName (base.takeWhile isWordChar) = true
      · simp [named]
      · simp [named]

/-- **Annotations of a pointer and its storage.** For a type that ends with a star, an annotation
that is a word of its own never changes how it is stored, whether it stands in front of the type
or behind it.  Glued to the star it leaves the storage alone exactly if the star stands apart from
the word in front of it, or the type is not stored as an object, or it is an untyped object. -/
theorem storageClass_annotated {spelling : List Char} {note : String}
    (pointer : spelling.getLast? = some '*') (listed : note ∈ annotations) :
    storageClass (note.toList ++ ' ' :: spelling) = storageClass spelling ∧
      storageClass (spelling ++ ' ' :: note.toList) = storageClass spelling ∧
      (storageClass (spelling ++ note.toList) = storageClass spelling ↔
        StarStandsApart spelling ∨ storageClass spelling ≠ .object ∨
          isUntypedObject (storageSpelling spelling) = true) := by
  have word := saysNothing_of_mem listed
  obtain ⟨before, behind⟩ := keptWords_spaced word spelling
  refine ⟨?_, ?_, ?_⟩
  · apply storageClass_eq_of_stripAnnotations_eq
    rw [stripAnnotations_eq, before, stripAnnotations_eq]
  · apply storageClass_eq_of_stripAnnotations_eq
    rw [stripAnnotations_eq, behind, stripAnnotations_eq]
  · obtain ⟨front, rfl⟩ := List.getLast?_eq_some_iff.1 pointer
    rw [List.append_assoc, List.singleton_append]
    exact storageClass_glued_iff word

theorem storageClass_annotated_string :
    "const NSString *".toList.getLast? = some '*' ∧ "_Nullable" ∈ annotations ∧
      storageClass "_Nullable const NSString *".toList = .object ∧
      storageClass "const NSString * _Nullable".toList = .object ∧
      storageClass "const NSString *_Nullable".toList = .object := by
  have pointer : "const NSString *".toList.getLast? = some '*' := by decide
  have listed : "_Nullable" ∈ annotations := by decide
  have stored : storageClass "const NSString *".toList = .object := by decide +kernel
  obtain ⟨before, behind, glued⟩ := storageClass_annotated pointer listed
  have apart : StarStandsApart "const NSString *".toList := by
    unfold StarStandsApart
    decide
  exact ⟨pointer, listed, before.trans stored, behind.trans stored,
    (glued.2 (.inl apart)).trans stored⟩

/-- **A glued annotation may change the storage of a pointer.** -/
theorem glued_annotation_may_change_storage :
    ¬ ∀ (spelling : List Char) (note : String), spelling.getLast? = some '*' →
      note ∈ annotations →
        storageClass (spelling ++ note.toList) = storageClass spelling := by
  intro everyPointer
  have same := everyPointer "NSString*".toList "_Nullable" (by decide) (by decide)
  revert same
  decide +kernel

end ProtocolFakes
