import ProtocolFakes.Text.Search

/-!
# Where a pattern occurs

A text is cut at the first occurrence of a pattern exactly if the pattern occurs in it
(`splitAtFirst?_eq_none_iff`).  The cut loses nothing, and no occurrence begins further to the
front (`splitAtFirst?_eq_some`): even with all of the pattern but its last character behind
it, the part before the cut does not hold the pattern.  A single character is found where it
stands first (`splitAtFirst?_singleton`).

A character that is not in a pattern separates its occurrences: the pattern lies on one side
of it (`infix_append_cons_iff`), it is dropped from the front of both sides alike
(`dropRepeatedPrefix_append_cons`), and as a beginning it lies in front
(`prefix_append_cons_iff`).
-/

namespace ProtocolFakes.Text

set_option autoImplicit false

/-! ## Separators -/

theorem prefix_append_cons_iff {pattern cs ds : List Char} {c : Char} (outside : c ∉ pattern) :
    pattern <+: cs ++ c :: ds ↔ pattern <+: cs := by
  constructor
  · rintro ⟨rest, split⟩
    rcases List.append_eq_append_iff.1 split with ⟨mid, same, -⟩ | ⟨mid, same, tail⟩
    · exact ⟨mid, same.symm⟩
    · cases mid with
      | nil => exact ⟨[], by simpa using same⟩
      | cons d mid =>
          obtain ⟨rfl, -⟩ := List.cons.inj tail
          exact absurd (same ▸ List.mem_append_right cs (List.mem_cons_self ..)) outside
  · exact fun begins => begins.trans (List.prefix_append ..)

/-- **A pattern lies on one side of a character that is not in it.** -/
theorem infix_append_cons_iff {pattern cs ds : List Char} {c : Char} (outside : c ∉ pattern) :
    pattern <:+: cs ++ c :: ds ↔ pattern <:+: cs ∨ pattern <:+: ds := by
  constructor
  · induction cs with
    | nil =>
        intro occurs
        rcases List.infix_cons_iff.1 occurs with begins | behind
        · have nothing : pattern <+: [] := (prefix_append_cons_iff outside).1 begins
          exact .inl nothing.isInfix
        · exact .inr behind
    | cons d cs ih =>
        intro occurs
        rcases List.infix_cons_iff.1 occurs with begins | behind
        · exact .inl ((prefix_append_cons_iff outside).1 begins).isInfix
        · exact (ih behind).imp_left fun inside => inside.trans (List.suffix_cons ..).isInfix
  · rintro (inside | inside)
    · exact inside.trans (List.prefix_append ..).isInfix
    · exact inside.trans ((List.suffix_cons ..).trans (List.suffix_append ..)).isInfix

/-! ## Dropping a beginning -/

theorem dropPrefix?_eq_some_iff {pattern cs rest : List Char} :
    dropPrefix? pattern cs = some rest ↔ pattern ++ rest = cs := by
  refine ⟨append_of_dropPrefix?, ?_⟩
  rintro rfl
  induction pattern with
  | nil => rw [dropPrefix?, List.nil_append]
  | cons p ps ih => rw [List.cons_append, dropPrefix?, if_pos rfl, ih]

theorem dropPrefix?_eq_none_iff {pattern cs : List Char} :
    dropPrefix? pattern cs = none ↔ ¬ pattern <+: cs := by
  constructor
  · rintro nothing ⟨rest, split⟩
    rw [dropPrefix?_eq_some_iff.2 split] at nothing
    cases nothing
  · intro other
    cases dropped : dropPrefix? pattern cs with
    | none => rfl
    | some rest => exact absurd ⟨rest, append_of_dropPrefix? dropped⟩ other

/-- A text that begins otherwise loses nothing. -/
theorem dropRepeatedPrefix_of_not_prefix {pattern cs : List Char} (other : ¬ pattern <+: cs) :
    dropRepeatedPrefix pattern cs = cs := by
  cases pattern with
  | nil => exact absurd List.nil_prefix other
  | cons p ps =>
      rw [dropRepeatedPrefix]
      split
      · rename_i rest dropped
        exact absurd ⟨rest, append_of_dropPrefix? dropped⟩ other
      · rfl

/-- What is dropped from the front lies in front of a character that is not in the pattern. -/
theorem dropRepeatedPrefix_append_cons {pattern : List Char} {c : Char} (outside : c ∉ pattern)
    (cs ds : List Char) :
    dropRepeatedPrefix pattern (cs ++ c :: ds) = dropRepeatedPrefix pattern cs ++ c :: ds := by
  fun_induction dropRepeatedPrefix pattern cs with
  | case1 cs => rw [dropRepeatedPrefix]
  | case2 cs p ps rest dropped ih =>
      obtain rfl := append_of_dropPrefix? dropped
      rw [List.append_assoc, dropRepeatedPrefix]
      split
      · rename_i rest' dropped'
        obtain rfl := List.append_cancel_left (append_of_dropPrefix? dropped')
        exact ih outside
      · rename_i nothing
        exact absurd (List.prefix_append ..) (dropPrefix?_eq_none_iff.1 nothing)
  | case3 cs p ps nothing =>
      apply dropRepeatedPrefix_of_not_prefix
      rw [prefix_append_cons_iff outside]
      exact dropPrefix?_eq_none_iff.1 nothing

/-! ## The first occurrence -/

/-- **A text is not cut exactly if the pattern does not occur in it.** -/
theorem splitAtFirst?_eq_none_iff {pattern cs : List Char} :
    splitAtFirst? pattern cs = none ↔ ¬ pattern <:+: cs := by
  induction cs with
  | nil => cases pattern <;> simp [splitAtFirst?]
  | cons c cs ih =>
      rw [splitAtFirst?_cons, List.infix_cons_iff, not_or]
      cases dropped : dropPrefix? pattern (c :: cs) with
      | none => simp [ih, dropPrefix?_eq_none_iff.1 dropped]
      | some rest =>
          have begins : pattern <+: c :: cs := ⟨rest, append_of_dropPrefix? dropped⟩
          simp [begins]

/-- **A text is cut at the first occurrence of the pattern.** -/
theorem splitAtFirst?_eq_some {pattern cs before after : List Char} (ne : pattern ≠ [])
    (cut : splitAtFirst? pattern cs = some (before, after)) :
    cs = before ++ (pattern ++ after) ∧ ¬ pattern <:+: before ++ pattern.dropLast := by
  induction cs generalizing before with
  | nil =>
      rw [splitAtFirst?, if_neg (by simpa using ne)] at cut
      cases cut
  | cons c cs ih =>
      rw [splitAtFirst?_cons] at cut
      cases dropped : dropPrefix? pattern (c :: cs) with
      | some rest =>
          rw [dropped] at cut
          cases cut
          refine ⟨(append_of_dropPrefix? dropped).symm, fun occurs => ?_⟩
          have shorter := occurs.length_le
          have positive := List.length_pos_iff.2 ne
          rw [List.nil_append, List.length_dropLast] at shorter
          omega
      | none =>
          rw [dropped] at cut
          obtain ⟨⟨front, rest⟩, later, same⟩ := Option.map_eq_some_iff.1 cut
          obtain ⟨rfl, rfl⟩ := Prod.mk.inj same
          obtain ⟨split, first⟩ := ih later
          refine ⟨by rw [split, List.cons_append], fun occurs => ?_⟩
          rcases List.infix_cons_iff.1 occurs with begins | behind
          · have longer : c :: front ++ pattern.dropLast <+: c :: cs := by
              rw [split, List.cons_append, List.cons_prefix_cons, List.prefix_append_right_inj]
              exact ⟨rfl, (List.dropLast_prefix _).trans (List.prefix_append ..)⟩
            exact dropPrefix?_eq_none_iff.1 dropped (begins.trans longer)
          · exact first behind

/-- A single character is found where it stands first. -/
theorem splitAtFirst?_singleton {c : Char} {front : List Char} (absent : c ∉ front)
    (later : List Char) : splitAtFirst? [c] (front ++ c :: later) = some (front, later) := by
  induction front with
  | nil => simp [splitAtFirst?, dropPrefix?]
  | cons d front ih =>
      have other : c ≠ d := List.ne_of_not_mem_cons absent
      rw [List.cons_append, splitAtFirst?_cons, dropPrefix?, if_neg other]
      dsimp only
      rw [ih (List.not_mem_of_not_mem_cons absent)]
      rfl

theorem containsPattern_eq_true_iff {pattern cs : List Char} :
    containsPattern pattern cs = true ↔ pattern <:+: cs := by
  rw [containsPattern, ← Decidable.not_iff_not, ← splitAtFirst?_eq_none_iff, Bool.not_eq_true,
    Option.isSome_eq_false_iff, Option.isNone_iff_eq_none]

end ProtocolFakes.Text
