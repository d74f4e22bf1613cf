import ProtocolFakes.Text.Byte

/-!
# Where a text can be cut

A text can be cut where one of its characters begins, and at its end.  The core library says
this of the bytes of a text: the bytes in front of such a place are the UTF-8 form of a text
(`IsBoundary`).  Here a text is a list of characters, and a cut is made between two of them;
both are the same places (`isBoundary_iff`, `isSome_splitAtByte?_iff`).

What a cut or a slice answers is said by the parts of the text (`splitAtByte?_eq_some_iff`,
`sliceBytes?_eq_some_iff`).  The first byte of a character tells whether it is a given ASCII
character (`head?_utf8EncodeChar`).
-/

namespace ProtocolFakes.Text

set_option autoImplicit false

/-! ## Bytes -/

theorem utf8ByteSize_ofList (cs : List Char) : (String.ofList cs).utf8ByteSize = byteLength cs := by
  induction cs with
  | nil => rfl
  | cons c cs ih =>
      rw [← List.singleton_append, String.ofList_append, String.utf8ByteSize_append, ih,
        List.singleton_append, byteLength_cons, ← String.singleton_eq_ofList,
        String.utf8ByteSize_singleton]

theorem byteLength_toList (s : String) : byteLength s.toList = s.utf8ByteSize := by
  rw [← utf8ByteSize_ofList, String.ofList_toList]

/-- The first byte of a character tells whether it is a given ASCII character. -/
theorem head?_utf8EncodeChar {a c : Char} (ascii : a.toNat < 128) :
    (String.utf8EncodeChar c).head? = some a.toUInt8 ↔ c = a := by
  have small : a.toUInt8.toNat = a.toNat := Nat.mod_eq_of_lt (show a.toNat < 2 ^ 8 by omega)
  rw [← Char.toNat_inj]
  unfold String.utf8EncodeChar
  simp only [Char.toNat_val]
  split
  · simp [← UInt8.toNat_inj, small]
    omega
  · have large : 128 ≤ c.toNat := by omega
    refine iff_of_false ?_ (by omega)
    split
    · simp [← UInt8.toNat_inj, small]
      omega
    · split
      · simp [← UInt8.toNat_inj, small]
        omega
      · simp [← UInt8.toNat_inj, small]
        omega

theorem length_flatMap_utf8EncodeChar (cs : List Char) :
    (cs.flatMap String.utf8EncodeChar).length = byteLength cs := by
  induction cs with
  | nil => rfl
  | cons c cs ih => simp [ih]

/-! ## Boundaries -/

/-- An offset where a character of a text begins, or where the text ends. -/
def IsBoundary (s : String) (offset : Nat) : Prop := (String.Pos.Raw.mk offset).IsValid s

instance (s : String) (offset : Nat) : Decidable (IsBoundary s offset) :=
  inferInstanceAs (Decidable (String.Pos.Raw.IsValid ..))

/-- **A boundary lies between two parts of a text.** -/
theorem isBoundary_iff {s : String} {offset : Nat} :
    IsBoundary s offset ↔
      ∃ before after, s.toList = before ++ after ∧ byteLength before = offset := by
  rw [IsBoundary, String.Pos.Raw.isValid_iff_exists_append]
  constructor
  · rintro ⟨before, after, rfl, position⟩
    refine ⟨before.toList, after.toList, String.toList_append, ?_⟩
    rw [byteLength_toList]
    exact (congrArg String.Pos.Raw.byteIdx position).symm
  · rintro ⟨before, after, whole, rfl⟩
    refine ⟨.ofList before, .ofList after, ?_, ?_⟩
    · rw [← String.ofList_append, ← whole, String.ofList_toList]
    · rw [← utf8ByteSize_ofList]
      rfl

theorem IsBoundary.le {s : String} {offset : Nat} (boundary : IsBoundary s offset) :
    offset ≤ s.utf8ByteSize := by
  obtain ⟨before, after, whole, rfl⟩ := isBoundary_iff.1 boundary
  rw [← byteLength_toList, whole, byteLength_append]
  exact Nat.le_add_right ..

/-! ## Cuts -/

/-- A cut answers the two parts of a text with the offset between them. -/
theorem splitAtByte?_eq_some_iff {n : Nat} {cs before after : List Char} :
    splitAtByte? n cs = some (before, after) ↔ before ++ after = cs ∧ byteLength before = n := by
  constructor
  · exact fun cut => ⟨append_of_splitAtByte? cut, byteLength_of_splitAtByte? cut⟩
  · rintro ⟨rfl, rfl⟩
    exact splitAtByte?_append before after

/-- **A text can be cut at its boundaries and nowhere else.** -/
theorem isSome_splitAtByte?_iff {s : String} {n : Nat} :
    (splitAtByte? n s.toList).isSome = true ↔ IsBoundary s n := by
  rw [Option.isSome_iff_exists, Prod.exists, isBoundary_iff]
  simp only [splitAtByte?_eq_some_iff, @eq_comm _ s.toList]

/-! ## Slices -/

/-- The pieces of a cut text. -/
theorem exists_append_of_sliceBytes? {start stop : Nat} {cs mid : List Char}
    (cut : sliceBytes? start stop cs = some mid) :
    ∃ before after, cs = before ++ (mid ++ after) ∧ byteLength before = start ∧
      start + byteLength mid = stop := by
  unfold sliceBytes? at cut
  split at cut
  · rename_i ordered
    simp only [bind, pure, Option.bind_eq_some_iff, Option.some.injEq, Prod.exists] at cut
    obtain ⟨before, rest, front, mid', after, here, rfl⟩ := cut
    refine ⟨before, after, ?_, byteLength_of_splitAtByte? front, ?_⟩
    · rw [append_of_splitAtByte? here, append_of_splitAtByte? front]
    · rw [byteLength_of_splitAtByte? here]
      omega
  · cases cut

/-- A slice answers the part of a text between two offsets. -/
theorem sliceBytes?_eq_some_iff {start stop : Nat} {cs mid : List Char} :
    sliceBytes? start stop cs = some mid ↔
      ∃ before after, cs = before ++ (mid ++ after) ∧ byteLength before = start ∧
        start + byteLength mid = stop := by
  refine ⟨exists_append_of_sliceBytes?, ?_⟩
  rintro ⟨before, after, rfl, rfl, rfl⟩
  exact sliceBytes?_append before mid after

/-- **A slice goes from a boundary to a boundary behind it.** -/
theorem isSome_sliceBytes?_iff {s : String} {start stop : Nat} :
    (sliceBytes? start stop s.toList).isSome = true ↔
      start ≤ stop ∧ IsBoundary s start ∧ IsBoundary s stop := by
  rw [Option.isSome_iff_exists]
  constructor
  · rintro ⟨mid, cut⟩
    obtain ⟨before, after, whole, rfl, rfl⟩ := exists_append_of_sliceBytes? cut
    refine ⟨Nat.le_add_right .., isBoundary_iff.2 ⟨before, _, whole, rfl⟩,
      isBoundary_iff.2 ⟨before ++ mid, after, ?_, byteLength_append ..⟩⟩
    rw [whole, List.append_assoc]
  · rintro ⟨ordered, first, last⟩
    obtain ⟨before, rest, whole, rfl⟩ := isBoundary_iff.1 first
    obtain ⟨upTo, after, whole', rfl⟩ := isBoundary_iff.1 last
    obtain ⟨mid, rfl, rfl⟩ := exists_append_of_byteLength_le (whole.symm.trans whole') ordered
    exact ⟨mid, sliceBytes?_eq_some_iff.2 ⟨before, after, whole, rfl, (byteLength_append ..).symm⟩⟩

end ProtocolFakes.Text
