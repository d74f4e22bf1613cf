import ProtocolFakes.Fake
import ProtocolFakes.Proofs.Text.Words

/-!
# Spellings without annotations

A spelling loses its annotations word by word, and what is left of a word stays when it is
looked at again (`stripWord?_of_stripWord?`).  The words that are left are those of the stripped
spelling (`words_stripAnnotations`), so stripping is done once and for all
(`stripAnnotations_stripAnnotations`).

Storage looks at the stripped spelling only.  A property is declared with that spelling, or with
`id` where it would be `instancetype`, which is stored alike.  Therefore the spelling with which
a property is declared decides on its storage, on its attributes and on its zero, just as the
spelling from which it was made (`declared_spelling_decides`).
-/

namespace ProtocolFakes

set_option autoImplicit false

open Text (IsWord words)

/-! ## Words -/

/-- Annotations consist of the characters of ordinary words. -/
theorem isAnnotation_eq_false {word : List Char} {c : Char} (member : c ∈ word)
    (symbol : isWordChar c = false) : isAnnotation word = false := by
  have ordinary : ∀ a ∈ annotations, a.toList.all isWordChar = true := by decide
  unfold isAnnotation
  rw [List.any_eq_false]
  intro a listed same
  rw [← beq_iff_eq.1 same] at member
  simp [List.all_eq_true.1 (ordinary a listed) c member] at symbol

/-- **A word is dropped, or stays as it is, or leaves a star.** -/
theorem stripWord?_cases (word : List Char) :
    stripWord? word = none ∨ stripWord? word = some word ∨ stripWord? word = some ['*'] := by
  unfold stripWord?
  split
  · split
    · exact .inr (.inr rfl)
    · exact .inr (.inl rfl)
  · split
    · exact .inl rfl
    · exact .inr (.inl rfl)

/-- What is left of a word stays. -/
theorem stripWord?_of_stripWord? {word left : List Char} (strip : stripWord? word = some left) :
    stripWord? left = some left := by
  rcases stripWord?_cases word with dropped | same | star
  · rw [dropped] at strip
    cases strip
  · obtain rfl := Option.some.inj (same.symm.trans strip)
    exact same
  · obtain rfl := Option.some.inj (star.symm.trans strip)
    decide

/-- What is left of a word is a word. -/
theorem isWord_of_stripWord? {word left : List Char} (isWord : IsWord word)
    (strip : stripWord? word = some left) : IsWord left := by
  rcases stripWord?_cases word with dropped | same | star
  · rw [dropped] at strip
    cases strip
  · obtain rfl := Option.some.inj (same.symm.trans strip)
    exact isWord
  · obtain rfl := Option.some.inj (star.symm.trans strip)
    decide

/-- A word with a symbol behind its first character stays as it is. -/
theorem stripWord?_of_symbol {word : List Char} {c : Char} (member : c ∈ word.tail)
    (symbol : isWordChar c = false) : stripWord? word = some word := by
  unfold stripWord?
  split
  · rename_i rest
    have plain : isAnnotation rest = false := isAnnotation_eq_false member symbol
    rw [if_neg (by simp [plain])]
  · rw [if_neg (by simp [isAnnotation_eq_false (List.mem_of_mem_tail member) symbol])]

/-! ## Spellings -/

/-- What is left of the words of a spelling. -/
def keptWords (spelling : List Char) : List (List Char) := (words spelling).filterMap stripWord?

theorem stripAnnotations_eq (spelling : List Char) :
    stripAnnotations spelling = [' '].intercalate (keptWords spelling) := rfl

/-- **The words that are left are those of the stripped spelling.** -/
theorem words_stripAnnotations (spelling : List Char) :
    words (stripAnnotations spelling) = keptWords spelling := by
  rw [stripAnnotations_eq]
  apply Text.words_intercalate
  intro left member
  obtain ⟨word, inside, strip⟩ := List.mem_filterMap.1 member
  exact isWord_of_stripWord? (Text.isWord_of_mem_words inside) strip

/-- Nothing more is lost when a spelling is stripped again. -/
theorem keptWords_stripAnnotations (spelling : List Char) :
    keptWords (stripAnnotations spelling) = keptWords spelling := by
  have again : (fun word => (stripWord? word).bind stripWord?) = stripWord? := by
    funext word
    cases strip : stripWord? word with
    | none => rfl
    | some left => exact stripWord?_of_stripWord? strip
  rw [keptWords, words_stripAnnotations, keptWords, List.filterMap_filterMap, again]

/-- **Stripping a spelling again changes nothing.** -/
theorem stripAnnotations_stripAnnotations (spelling : List Char) :
    stripAnnotations (stripAnnotations spelling) = stripAnnotations spelling := by
  rw [stripAnnotations_eq, keptWords_stripAnnotations, ← stripAnnotations_eq]

/-- **Stripping neither makes nor hides the mark of a block.** -/
theorem block_stripAnnotations_iff (spelling : List Char) :
    "(^".toList <:+: stripAnnotations spelling ↔ "(^".toList <:+: spelling := by
  have isWord : IsWord "(^".toList := by decide
  rw [Text.infix_iff_of_isWord isWord, words_stripAnnotations, Text.infix_iff_of_isWord isWord]
  constructor
  · rintro ⟨left, member, inside⟩
    obtain ⟨word, listed, strip⟩ := List.mem_filterMap.1 member
    rcases stripWord?_cases word with dropped | same | star
    · rw [dropped] at strip
      cases strip
    · obtain rfl := Option.some.inj (same.symm.trans strip)
      exact ⟨_, listed, inside⟩
    · obtain rfl := Option.some.inj (star.symm.trans strip)
      exact absurd inside (by decide)
  · rintro ⟨word, listed, front, back, rfl⟩
    have caret : '^' ∈ (front ++ "(^".toList ++ back).tail := by
      cases front with
      | nil => exact List.mem_cons_self ..
      | cons c front => exact List.mem_append_left _ (List.mem_append_right _ (by decide))
    exact ⟨_, List.mem_filterMap.2 ⟨_, listed, stripWord?_of_symbol caret (by decide)⟩,
      front, back, rfl⟩

/-- Storage looks at the stripped spelling only. -/
theorem storageClass_eq_of_stripAnnotations_eq {spelling spelling' : List Char}
    (same : stripAnnotations spelling = stripAnnotations spelling') :
    storageClass spelling = storageClass spelling' := by
  unfold storageClass storageSpelling
  rw [same]

/-! ## The spelling of a property -/

/-- The spelling of a property is its own. -/
theorem propertySpelling_propertySpelling (spelling : List Char) :
    propertySpelling (propertySpelling spelling) = propertySpelling spelling := by
  unfold propertySpelling
  dsimp only
  split
  · decide
  · rename_i other
    rw [stripAnnotations_stripAnnotations, if_neg other]

/-- **A property is stored like the type from which it was made.** -/
theorem storageClass_propertySpelling (spelling : List Char) :
    storageClass (propertySpelling spelling) = storageClass spelling := by
  unfold propertySpelling
  dsimp only
  split
  · rename_i same
    have stored : storageClass spelling = storageClass "instancetype".toList := by
      apply storageClass_eq_of_stripAnnotations_eq
      rw [same]
      decide
    rw [stored]
    decide +kernel
  · exact storageClass_eq_of_stripAnnotations_eq (stripAnnotations_stripAnnotations spelling)

/-- **The spelling with which a property is declared decides on everything about it.** It has
no annotation left, it is stored like the type from which it was made, nothing of it is written
alike, and a property has the same attributes, whichever of the two spellings they are computed
from. -/
theorem declared_spelling_decides (spelling : List Char) :
    stripAnnotations (stripAnnotations spelling) = stripAnnotations spelling ∧
      storageClass (propertySpelling spelling) = storageClass spelling ∧
      zeroValue? spelling = zeroValue? (propertySpelling spelling) ∧
      ∀ (assumeNonnull isReadonly : Bool) (name : String),
        RecordingProperty.attributes assumeNonnull ⟨String.ofList spelling, name, isReadonly⟩ =
          RecordingProperty.attributes assumeNonnull
            ⟨String.ofList (propertySpelling spelling), name, isReadonly⟩ := by
  have stored := storageClass_propertySpelling spelling
  refine ⟨stripAnnotations_stripAnnotations spelling, stored, ?_, ?_⟩
  · unfold zeroValue?
    rw [propertySpelling_propertySpelling, stored]
  · intro assumeNonnull isReadonly name
    have same : storageOf (String.ofList spelling) =
        storageOf (String.ofList (propertySpelling spelling)) := by
      rw [storageOf, storageOf, String.toList_ofList, String.toList_ofList, stored]
    unfold RecordingProperty.attributes
    rw [same]

end ProtocolFakes
