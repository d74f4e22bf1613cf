import ProtocolFakes.Proofs.SourceRange.Slice
import ProtocolFakes.TextEdit

/-!
# Replacing a range of a text

An edit puts a new text in the place of the part that its range covers and leaves what stands
before and behind it (`applyTo?_eq_some_iff`).  So it applies exactly where its range covers a
part of the text, it can be read off the bytes what it changes, and it is taken back by the edit
that puts the old part in the place of the new one.

Main theorem: `replaces_and_restores`.
-/

namespace ProtocolFakes.TextEdit

set_option autoImplicit false

open Text (byteLength IsBoundary)

/-! ## Parts of a text -/

/-- An edit replaces exactly the text that its range covers. -/
theorem applyTo?_eq {edit : TextEdit} {before old after : List Char}
    (fits : edit.range.Fits) (location : edit.range.location = byteLength before)
    (stop : edit.range.stop = byteLength before + byteLength old) :
    edit.applyTo? (String.ofList (before ++ old ++ after)) =
      some (String.ofList before ++ edit.newText ++ String.ofList after) := by
  have stopFound : edit.range.stop? = some (byteLength (before ++ old)) := by
    rw [SourceRange.stop?_of_fits fits, ← SourceRange.stop_of_fits fits, stop,
      Text.byteLength_append]
  have front := Text.splitAtByte?_append before (old ++ after)
  rw [← List.append_assoc] at front
  rw [TextEdit.applyTo?, String.toList_ofList, location, front, stopFound]
  simp only [Option.bind_eq_bind, Option.bind_some, Text.splitAtByte?_append]
  rfl

/-- **An edit replaces the part of a text that its range covers.** -/
theorem applyTo?_eq_some_iff {edit : TextEdit} {source text : String} :
    edit.applyTo? source = some text ↔ edit.range.Fits ∧ ∃ before old after : String,
      source = before ++ old ++ after ∧ byteLength before.toList = edit.range.location ∧
      byteLength old.toList = edit.range.length ∧ text = before ++ edit.newText ++ after := by
  constructor
  · intro applied
    simp only [applyTo?, SourceRange.stop?, bind, pure, Option.bind_eq_some_iff, Prod.exists,
      Option.ite_none_right_eq_some, Option.some.injEq] at applied
    obtain ⟨before, rest, front, stop, ⟨fits, rfl⟩, upTo, after, back, rfl⟩ := applied
    have frontLength := Text.byteLength_of_splitAtByte? front
    have backLength := Text.byteLength_of_splitAtByte? back
    obtain ⟨old, rfl, -⟩ := Text.exists_append_of_byteLength_le
      ((Text.append_of_splitAtByte? front).trans (Text.append_of_splitAtByte? back).symm)
      (by omega)
    rw [Text.byteLength_append] at backLength
    refine ⟨fits, .ofList before, .ofList old, .ofList after, ?_, ?_, ?_, rfl⟩
    · rw [← String.ofList_append, ← String.ofList_append, Text.append_of_splitAtByte? back,
        String.ofList_toList]
    · rw [String.toList_ofList, frontLength]
    · rw [String.toList_ofList]
      omega
  · rintro ⟨fits, before, old, after, rfl, location, length, rfl⟩
    have stop : edit.range.stop = byteLength before.toList + byteLength old.toList := by
      rw [SourceRange.stop_of_fits fits, location, length]
    have applied : edit.applyTo? (.ofList (before.toList ++ old.toList ++ after.toList)) = _ :=
      applyTo?_eq fits location.symm stop
    simpa only [String.ofList_append, String.ofList_toList] using applied

/-! ## Replacing and restoring -/

section Replacement

variable {edit : TextEdit} {source old text : String}
variable (covers : edit.range.slice? source = some old)
variable (applied : edit.applyTo? source = some text)
include covers applied

/-- What an edit replaces is what its range covers. -/
theorem exists_parts : ∃ before after : String, source = before ++ old ++ after ∧
    text = before ++ edit.newText ++ after ∧ before.utf8ByteSize = edit.range.location ∧
    old.utf8ByteSize = edit.range.length := by
  obtain ⟨fits, before, old', after, whole, location, length, rfl⟩ :=
    applyTo?_eq_some_iff.1 applied
  rw [Text.byteLength_toList] at location length
  have covered : edit.range.slice? source = some old' := by
    refine SourceRange.slice?_eq_some_iff.2 ⟨before, after, whole, location, ?_⟩
    rw [SourceRange.stop_of_fits fits, length]
  obtain rfl := Option.some.inj (covers.symm.trans covered)
  exact ⟨before, after, whole, rfl, location, length⟩

/-- The bytes in front of the range and behind it stay, and those of the new text stand between
them. -/
theorem toByteArray_of_applyTo? :
    text.toByteArray = source.toByteArray.extract 0 edit.range.location ++
      edit.newText.toByteArray ++
      source.toByteArray.extract (edit.range.location + edit.range.length)
        source.utf8ByteSize := by
  obtain ⟨before, after, rfl, rfl, location, length⟩ := exists_parts covers applied
  rw [← location, ← length]
  simp only [String.toByteArray_append, ← String.size_toByteArray]
  have front : (before.toByteArray ++ old.toByteArray ++ after.toByteArray).extract 0
      before.toByteArray.size = before.toByteArray := by
    rw [ByteArray.append_assoc]
    exact ByteArray.extract_append_eq_left rfl
  have behind : (before.toByteArray ++ old.toByteArray ++ after.toByteArray).extract
      (before.toByteArray.size + old.toByteArray.size)
      (before.toByteArray ++ old.toByteArray ++ after.toByteArray).size = after.toByteArray :=
    ByteArray.extract_append_eq_right ByteArray.size_append.symm ByteArray.size_append
  rw [front, behind]

/-- **An edit can be taken back.** The new text stands where the old one stood, and putting the
old one in its place restores the text. -/
theorem restores {back : SourceRange} (location : back.location = edit.range.location)
    (length : back.length = edit.newText.utf8ByteSize) (fits : back.Fits) :
    back.slice? text = some edit.newText ∧ applyTo? ⟨back, old⟩ text = some source := by
  obtain ⟨before, after, rfl, rfl, start, -⟩ := exists_parts covers applied
  refine ⟨SourceRange.slice?_eq_some_iff.2 ⟨before, after, rfl, ?_, ?_⟩,
    applyTo?_eq_some_iff.2 ⟨fits, before, edit.newText, after, rfl, ?_, ?_, rfl⟩⟩
  · rw [start, location]
  · rw [SourceRange.stop_of_fits fits, length]
  · rw [Text.byteLength_toList, start, location]
  · rw [Text.byteLength_toList, length]

end Replacement

/-- An edit applies exactly where its range covers a part of the text. -/
theorem isSome_applyTo?_iff {edit : TextEdit} {source : String}
    (sized : source.utf8ByteSize ≤ Text.maxLength) :
    (edit.applyTo? source).isSome = true ↔ (edit.range.slice? source).isSome = true := by
  constructor
  · intro applies
    obtain ⟨text, applied⟩ := Option.isSome_iff_exists.1 applies
    obtain ⟨fits, before, old, after, whole, location, length, -⟩ :=
      applyTo?_eq_some_iff.1 applied
    rw [Text.byteLength_toList] at location length
    refine Option.isSome_iff_exists.2 ⟨old, SourceRange.slice?_eq_some_iff.2
      ⟨before, after, whole, location, ?_⟩⟩
    rw [SourceRange.stop_of_fits fits, length]
  · intro covers
    have fits := ((SourceRange.isSome_slice?_iff sized).1 covers).1
    obtain ⟨old, covered⟩ := Option.isSome_iff_exists.1 covers
    obtain ⟨before, after, whole, location, stop⟩ := SourceRange.slice?_eq_some_iff.1 covered
    rw [SourceRange.stop_of_fits fits] at stop
    refine Option.isSome_iff_exists.2 ⟨_, applyTo?_eq_some_iff.2
      ⟨fits, before, old, after, whole, ?_, ?_, rfl⟩⟩
    · rw [Text.byteLength_toList, location]
    · rw [Text.byteLength_toList]
      omega

/-- **Edits are exact and can be taken back.** On a text that fits into memory, an edit applies
if its range covers a part of the text, and that is if the end of the range is an offset, lies in
the text, and neither end of the range cuts a character.  The bytes of this part are then
replaced and all others stay.  The new text, if it fits into memory too, is what stands at the
location of the range; putting the old part there restores the text. -/
theorem replaces_and_restores {source : String} (sized : source.utf8ByteSize ≤ Text.maxLength)
    (edit : TextEdit) :
    ((edit.applyTo? source).isSome = true ↔ (edit.range.slice? source).isSome = true) ∧
    ((edit.range.slice? source).isSome = true ↔
      edit.range.location + edit.range.length ≤ maxOffset ∧
      edit.range.location + edit.range.length ≤ source.utf8ByteSize ∧
      IsBoundary source edit.range.location ∧
      IsBoundary source (edit.range.location + edit.range.length)) ∧
    ∀ old text, edit.range.slice? source = some old → edit.applyTo? source = some text →
      text.toByteArray = source.toByteArray.extract 0 edit.range.location ++
        edit.newText.toByteArray ++
        source.toByteArray.extract (edit.range.location + edit.range.length)
          source.utf8ByteSize ∧
      (edit.newText.utf8ByteSize ≤ Text.maxLength → ∀ back : SourceRange,
        back.location = edit.range.location → back.length = edit.newText.utf8ByteSize →
        back.slice? text = some edit.newText ∧ applyTo? ⟨back, old⟩ text = some source) := by
  refine ⟨isSome_applyTo?_iff sized, SourceRange.isSome_slice?_iff sized, ?_⟩
  intro old text covers applied
  refine ⟨toByteArray_of_applyTo? covers applied, ?_⟩
  intro newSized back location length
  have inside : edit.range.location ≤ source.utf8ByteSize := by
    have covered := Option.isSome_iff_exists.2 ⟨old, covers⟩
    exact ((SourceRange.isSome_slice?_iff sized).1 covered).2.2.1.le
  refine restores covers applied location length ?_
  have beyond := Text.maxLength_add_maxLength_lt
  unfold SourceRange.Fits
  omega

/-- An edit that puts a letter of two bytes in the place of a sign of four. -/
def narrowing : TextEdit := ⟨⟨1, 4, by decide, by decide⟩, "é"⟩

theorem replaces_and_restores_narrowing :
    "x😀y".utf8ByteSize ≤ Text.maxLength ∧ narrowing.range.slice? "x😀y" = some "😀" ∧
      narrowing.applyTo? "x😀y" = some "xéy" ∧ narrowing.newText.utf8ByteSize ≤ Text.maxLength ∧
      SourceRange.slice? ⟨1, 2, by decide, by decide⟩ "xéy" = some "é" ∧
      applyTo? ⟨⟨1, 2, by decide, by decide⟩, "😀"⟩ "xéy" = some "x😀y" := by
  have sized : "x😀y".utf8ByteSize ≤ Text.maxLength := by decide
  have covers : narrowing.range.slice? "x😀y" = some "😀" := by decide
  have applied : narrowing.applyTo? "x😀y" = some "xéy" := by decide
  have newSized : narrowing.newText.utf8ByteSize ≤ Text.maxLength := by decide
  obtain ⟨-, -, exact⟩ := replaces_and_restores sized narrowing
  obtain ⟨-, restored⟩ := exact "😀" "xéy" covers applied
  obtain ⟨there, back⟩ := restored newSized ⟨1, 2, by decide, by decide⟩ rfl rfl
  exact ⟨sized, covers, applied, newSized, there, back⟩

-- A range that ends inside a sign covers no part of the text.
example : SourceRange.slice? ⟨1, 2, by decide, by decide⟩ "x😀y" = none := by decide

end ProtocolFakes.TextEdit
