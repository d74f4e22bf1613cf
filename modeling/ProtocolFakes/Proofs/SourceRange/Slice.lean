import ProtocolFakes.Proofs.SourceRange.Envelope
import ProtocolFakes.Proofs.Text.Boundary

/-!
# The text that a range covers

A range covers the part of a text between its two ends (`slice?_eq`, `slice?_eq_some_iff`).  The
end of a range is clamped, and no text that fits into memory reaches as far as the largest
offset.  So a range covers a part of such a text exactly if its end is an offset, lies in the
text, and neither end cuts a character (`isSome_slice?_iff`).
-/

namespace ProtocolFakes

set_option autoImplicit false

open Text (byteLength IsBoundary)

/-- The most bytes that a text in memory takes. -/
def Text.maxLength : Nat := 9223372036854775807

/-- Not even two such texts together reach the largest offset. -/
theorem Text.maxLength_add_maxLength_lt : maxLength + maxLength < maxOffset := by decide

namespace SourceRange

variable {r : SourceRange} {source : String}

/-- A range cuts out the text that stands between its ends. -/
theorem slice?_eq {before mid after : List Char}
    (whole : source.toList = before ++ (mid ++ after)) (location : r.location = byteLength before)
    (stop : r.stop = byteLength before + byteLength mid) :
    r.slice? source = some (String.ofList mid) := by
  rw [slice?, whole, location, stop, Text.sliceBytes?_append]
  rfl

/-- **A range covers the part of a text between its ends.** -/
theorem slice?_eq_some_iff {text : String} :
    r.slice? source = some text ↔ ∃ before after : String, source = before ++ text ++ after ∧
      before.utf8ByteSize = r.location ∧ r.location + text.utf8ByteSize = r.stop := by
  simp only [slice?, Option.map_eq_some_iff, Text.sliceBytes?_eq_some_iff, ← Text.byteLength_toList]
  constructor
  · rintro ⟨mid, ⟨before, after, whole, location, stop⟩, rfl⟩
    refine ⟨.ofList before, .ofList after, ?_, ?_, ?_⟩
    · rw [← String.ofList_append, ← String.ofList_append, List.append_assoc, ← whole,
        String.ofList_toList]
    · rw [String.toList_ofList, location]
    · rw [String.toList_ofList, stop]
  · rintro ⟨before, after, rfl, location, stop⟩
    refine ⟨text.toList, ⟨before.toList, after.toList, ?_, location, stop⟩, String.ofList_toList⟩
    rw [String.toList_append, String.toList_append, List.append_assoc]

/-- **A range covers a part of a text if it lies in the text and cuts no character.** -/
theorem isSome_slice?_iff (sized : source.utf8ByteSize ≤ Text.maxLength) :
    (r.slice? source).isSome = true ↔ r.Fits ∧ r.location + r.length ≤ source.utf8ByteSize ∧
      IsBoundary source r.location ∧ IsBoundary source (r.location + r.length) := by
  rw [slice?, Option.isSome_map, Text.isSome_sliceBytes?_iff]
  constructor
  · rintro ⟨-, first, last⟩
    -- A clamped end would be the largest offset, which lies behind the text.
    have fits : r.Fits := by
      have inside := last.le
      have beyond := Text.maxLength_add_maxLength_lt
      unfold stop clampOffset at inside
      unfold Fits
      omega
    rw [stop_of_fits fits] at last
    exact ⟨fits, last.le, first, last⟩
  · rintro ⟨fits, -, first, last⟩
    rw [stop_of_fits fits]
    exact ⟨Nat.le_add_right .., first, last⟩

end SourceRange

end ProtocolFakes
