import ProtocolFakes.CommandLine.Argument
import ProtocolFakes.Proofs.Text.Natural
import ProtocolFakes.Proofs.Text.Search

/-!
# Line numbers on the command line

A line number stands in two places: behind the last colon of a location, and alone as a range of
one line.  The one reader takes what is behind the last colon, whatever colons the path has; the
other one looks for a first colon, trims both ends and reads the same digits twice.  Both count
from one, and both refuse a number that is no offset.

They differ at the number zero.  A range refuses it; a location takes it for the first line
(`location_may_differ_from_range`).

Main theorem: `location_agrees_with_range_iff`.
-/

namespace ProtocolFakes.CommandLine

set_option autoImplicit false

/-- The last colon is the one behind which there is none. -/
theorem splitAtLastColon?_append {path line : List Char} (noColon : ':' ∉ line) :
    splitAtLastColon? (path ++ ':' :: line) = some (path, line) := by
  have behind : ∀ c ∈ line.reverse, decide (c ≠ ':') = true := by
    intro c member
    have other : c ≠ ':' := fun same => noColon (same ▸ List.mem_reverse.1 member)
    exact decide_eq_true other
  rw [splitAtLastColon?, List.reverse_append, List.reverse_cons, List.append_assoc,
    List.dropWhile_append_of_pos behind, List.takeWhile_append_of_pos behind]
  simp

section Digits

variable {path digits : String} {n : Nat} (spells : SpellsDecimal digits.toList n)
include spells

theorem splitLocation_eq :
    splitLocation (path ++ ":" ++ digits) =
      if n ≤ maxOffset then (path, some (n - 1)) else (path ++ ":" ++ digits, none) := by
  have split : splitAtLastColon? (path ++ ":" ++ digits).toList =
      some (path.toList, digits.toList) := by
    rw [String.toList_append, String.toList_append, List.append_assoc]
    exact splitAtLastColon?_append (spells.not_mem (by decide))
  rw [splitLocation, split]
  dsimp only
  rw [spells.readNatural_eq]
  by_cases fits : n ≤ maxOffset
  · rw [if_pos fits, if_pos fits]
    simp
  · rw [if_neg fits, if_neg fits]

theorem readLineRange_eq :
    readLineRange digits =
      if n ≤ maxOffset then
        if n = 0 then .error (.lineZero digits) else .ok ⟨n - 1, n - 1⟩
      else .error (.invalidStartLine digits .tooLarge) := by
  have single : splitRange digits.toList = (digits.toList, digits.toList) := by
    have noColon : Text.splitAtFirst? [':'] digits.toList = none := by
      rw [Text.splitAtFirst?_eq_none_iff]
      exact fun occurs => spells.not_mem (by decide) (occurs.subset (List.mem_singleton_self ':'))
    rw [splitRange, noColon, Option.getD_none]
  have untrimmed : Text.trim digits.toList = digits.toList := spells.isWord.trim_append []
  rw [readLineRange, single]
  dsimp only
  rw [untrimmed, spells.readNatural_eq]
  by_cases fits : n ≤ maxOffset
  · rw [if_pos fits, if_pos fits]
    change (if n = 0 ∨ n = 0 then _ else if n < n then _ else _) = _
    simp only [or_self, if_neg (Nat.lt_irrefl n)]
    rfl
  · rw [if_neg fits, if_neg fits]
    rfl

end Digits

/-- **Locations and ranges agree on a line number exactly if it is not zero.** The digits may
spell it with zeros in front, and the path may have any characters, colons too.

An offset `n` is the line `n - 1` of a location, and of a range too unless it is zero, which a
range refuses.  A larger number is no line of either: all of the location is a path, and the
range is refused. -/
theorem location_agrees_with_range_iff (path : String) {digits : String} {n : Nat}
    (spells : SpellsDecimal digits.toList n) :
    ((∀ k, splitLocation (path ++ ":" ++ digits) = (path, some k) ↔
      readLineRange digits = .ok ⟨k, k⟩) ↔ n ≠ 0) ∧
    (n ≤ maxOffset →
      splitLocation (path ++ ":" ++ digits) = (path, some (n - 1)) ∧
      readLineRange digits =
        if n = 0 then .error (.lineZero digits) else .ok ⟨n - 1, n - 1⟩) ∧
    (maxOffset < n →
      splitLocation (path ++ ":" ++ digits) = (path ++ ":" ++ digits, none) ∧
      readLineRange digits = .error (.invalidStartLine digits .tooLarge)) := by
  rw [splitLocation_eq spells, readLineRange_eq spells]
  rcases Nat.lt_or_ge maxOffset n with tooLarge | fits
  · rw [if_neg (Nat.not_le.2 tooLarge), if_neg (Nat.not_le.2 tooLarge)]
    refine ⟨⟨fun _ => by omega, fun _ k => ⟨fun same => ?_, nofun⟩⟩,
      fun fits => absurd tooLarge (Nat.not_lt.2 fits), fun _ => ⟨rfl, rfl⟩⟩
    cases (Prod.mk.inj same).2
  · rw [if_pos fits, if_pos fits]
    refine ⟨⟨?_, ?_⟩, fun _ => ⟨rfl, rfl⟩, fun tooLarge => absurd tooLarge (Nat.not_lt.2 fits)⟩
    · rintro agree rfl
      have accepted := (agree 0).1 rfl
      rw [if_pos rfl] at accepted
      cases accepted
    · intro positive k
      rw [if_neg positive]
      simp [LineRange.ext_iff]

theorem location_agrees_with_range_iff_colons :
    (splitLocation ("a:7/G.h" ++ ":" ++ "012") = ("a:7/G.h", some 11) ↔
      readLineRange "012" = .ok ⟨11, 11⟩) ∧
    splitLocation ("a:7/G.h" ++ ":" ++ "012") = ("a:7/G.h", some 11) := by
  have spells : SpellsDecimal "012".toList 12 := by decide
  obtain ⟨agree, here, -⟩ := location_agrees_with_range_iff "a:7/G.h" spells
  exact ⟨agree.2 (by decide) 11, (here (by decide)).1⟩

/-- At zero they differ: a location takes it for the first line. -/
theorem location_may_differ_from_range :
    ¬ ∀ (path digits : String) (n : Nat), SpellsDecimal digits.toList n → n ≤ maxOffset →
      ∀ k, splitLocation (path ++ ":" ++ digits) = (path, some k) ↔
        readLineRange digits = .ok ⟨k, k⟩ := by
  intro always
  have location : splitLocation ("Greeter.h" ++ ":" ++ "0") = ("Greeter.h", some 0) := by
    decide
  have range : readLineRange "0" = .error (.lineZero "0") := by rfl
  have spells : SpellsDecimal "0".toList 0 := spellsDecimal_toString 0
  rw [(always "Greeter.h" "0" 0 spells (by decide) 0).1 location] at range
  cases range

end ProtocolFakes.CommandLine
