import ProtocolFakes.Proofs.Token.Partition

/-!
# Excerpts of a source

A range of a document that has `base` bytes in front of a source cuts a text out of the
source when the range, less these bytes, covers that text (`SourceRange.CutsOut`).

The tokens of a source stand in order.  A range that goes from the start of one of them to the
end of a later one therefore cuts out a text that begins with the one and ends with the other
(`exists_cutsOut_between`); the range of a token cuts out its text, and the empty range behind
a token cuts out nothing.
-/

namespace ProtocolFakes

set_option autoImplicit false

open Text (byteLength)

/-- The range, less the `base` bytes in front of the source, cuts a text out of the source. -/
def SourceRange.CutsOut (r : SourceRange) (base : Nat) (source text : String) : Prop :=
  ∃ here : SourceRange, here.location + base = r.location ∧ here.length = r.length ∧
    here.slice? source = some text

/-- A range that stands where a part of the source stands cuts this part out. -/
theorem SourceRange.cutsOut_of_split {r : SourceRange} {base : Nat} {source : String}
    {before mid after : List Char} (whole : source.toList = before ++ (mid ++ after))
    (location : r.location = base + byteLength before)
    (length : r.length = byteLength mid) (fits : r.Fits) :
    r.CutsOut base source (String.ofList mid) := by
  have inside : byteLength before + byteLength mid ≤ maxOffset := by
    unfold Fits at fits
    omega
  refine ⟨⟨byteLength before, byteLength mid, by omega, by omega⟩, ?_, length.symm, ?_⟩
  · rw [location, Nat.add_comm]
  · exact SourceRange.slice?_eq whole rfl (clampOffset_of_le inside)

section Source

variable {source : String} {base : Nat} (fits : base + byteLength source.toList ≤ maxOffset)
include fits

/-- **From the start of a token to the end of another one** behind it, or of itself, stands a
text that begins with the one and ends with the other. -/
theorem exists_cutsOut_between {t u : Token} (here : t ∈ tokenize source base)
    (there : u ∈ tokenize source base) (order : t = u ∨ t.range.stop ≤ u.range.location) :
    ∃ text, (SourceRange.ofBounds t.range.location u.range.stop).CutsOut base source text ∧
      t.text.toList <+: text.toList ∧ u.text.toList <:+ text.toList := by
  obtain ⟨before, after, whole, location, stop⟩ := exists_split_of_mem_tokenize fits here
  obtain ⟨before', after', whole', location', stop'⟩ := exists_split_of_mem_tokenize fits there
  -- The text goes on from the first token to what stands between the two and the second one.
  have joined : ∃ mid, source.toList = before ++ (mid ++ after') ∧
      byteLength before + byteLength mid = byteLength before' + byteLength u.text.toList ∧
      t.text.toList <+: mid ∧ u.text.toList <:+ mid := by
    rcases order with rfl | apart
    · obtain rfl := Text.eq_of_byteLength_eq (whole.symm.trans whole') (by omega)
      exact ⟨t.text.toList, whole', rfl, List.prefix_refl _, List.suffix_refl _⟩
    · have same : before ++ t.text.toList ++ after =
          before' ++ (u.text.toList ++ after') := by
        rw [List.append_assoc, ← whole, whole']
      obtain ⟨gap, rfl, -⟩ := Text.exists_append_of_byteLength_le same
        (by rw [Text.byteLength_append]; omega)
      refine ⟨t.text.toList ++ gap ++ u.text.toList, ?_, ?_, ?_, List.suffix_append ..⟩
      · simpa using whole'
      · simp only [Text.byteLength_append]
        omega
      · rw [List.append_assoc]
        exact List.prefix_append ..
  obtain ⟨mid, split, length, begins, ends⟩ := joined
  have startLe := t.range.location_le
  have stopLe := u.range.stop_le
  refine ⟨String.ofList mid, SourceRange.cutsOut_of_split split ?_ ?_
    (SourceRange.fits_ofBounds startLe stopLe), ?_, ?_⟩
  · rw [SourceRange.location_ofBounds startLe, location]
  · rw [SourceRange.length_ofBounds stopLe]
    omega
  · rwa [String.toList_ofList]
  · rwa [String.toList_ofList]

/-- The range of a token cuts out its text. -/
theorem cutsOut_of_mem_tokenize {t : Token} (member : t ∈ tokenize source base) :
    t.range.CutsOut base source t.text := by
  obtain ⟨before, after, whole, location, stop⟩ := exists_split_of_mem_tokenize fits member
  have inside := (bounds_of_mem_tokenize fits member).2.2
  rw [SourceRange.stop_of_fits inside] at stop
  have cut := SourceRange.cutsOut_of_split whole location (by omega) inside
  rwa [String.ofList_toList] at cut

/-- The empty range behind a token cuts out nothing. -/
theorem cutsOut_behind {t : Token} (member : t ∈ tokenize source base) :
    (behind t).CutsOut base source "" := by
  obtain ⟨before, after, whole, -, stop⟩ := exists_split_of_mem_tokenize fits member
  have stopLe := t.range.stop_le
  have split : source.toList = (before ++ t.text.toList) ++ ([] ++ after) := by
    rw [whole, List.append_assoc, List.nil_append]
  refine SourceRange.cutsOut_of_split split ?_ (SourceRange.length_clamped (Nat.zero_le _))
    (SourceRange.fits_clamped stopLe)
  rw [behind, SourceRange.emptyAt, SourceRange.location_clamped stopLe, stop,
    Text.byteLength_append, Nat.add_assoc]

end Source

end ProtocolFakes
