import ProtocolFakes.FreshName
import Mathlib.Data.List.Nodup
import Mathlib.Data.List.Perm.Subperm
import Mathlib.Order.Bounds.Basic

/-!
# The first free number

Different numbers make different names (`numberedName_inj`), so among one more names
than are in use one is free, and the search ends at it: `firstFree` answers the name
with the least number that is not in use (`firstFree_least`).

The bound of the search is never what ends it.  A search that only ends at a free name
(`SearchEnds`) ends as well, after no more steps than there are names in use, and with the
same answer (`exists_searchEnds`).
-/

namespace ProtocolFakes

set_option autoImplicit false

/-- Different numbers make different names. -/
theorem numberedName_inj {base : String} {m n : Nat} :
    numberedName base m = numberedName base n ↔ m = n := by
  refine ⟨fun same => ?_, fun same => same ▸ rfl⟩
  have digits : Nat.toDigits 10 m = Nat.toDigits 10 n := by
    simpa [numberedName, ← String.toList_inj, Nat.toString_eq_ofList_toDigits] using same
  calc m = Nat.ofDigitChars 10 (Nat.toDigits 10 m) 0 := Nat.ofDigitChars_ten_toDigits.symm
    _ = Nat.ofDigitChars 10 (Nat.toDigits 10 n) 0 := by rw [digits]
    _ = n := Nat.ofDigitChars_ten_toDigits

/-- The search within a bound answers the least number that is not in use, or the one
behind the bound, when all before it are in use. -/
theorem firstFreeWithin_spec (used : List String) (base : String) (bound n : Nat) :
    ∃ k, firstFreeWithin used base bound n = numberedName base k ∧ n ≤ k ∧
      (numberedName base k ∉ used ∨ k = n + bound) ∧
      ∀ j, n ≤ j → j < k → numberedName base j ∈ used := by
  induction bound generalizing n with
  | zero => exact ⟨n, rfl, Nat.le_refl n, .inr rfl, by omega⟩
  | succ bound ih =>
      rw [firstFreeWithin]
      split
      · rename_i taken
        obtain ⟨k, found, least, free, before⟩ := ih (n + 1)
        refine ⟨k, found, by omega, free.imp_right (by omega), ?_⟩
        intro j above below
        rcases Nat.eq_or_lt_of_le above with rfl | above
        · simpa using taken
        · exact before j above below
      · rename_i free
        exact ⟨n, rfl, Nat.le_refl n, .inl (by simpa using free), by omega⟩

/-- As many numbers in a row as there are names in use are not all followed by one in
use again. -/
theorem not_mem_of_all_before {used : List String} {base : String} {n : Nat}
    (before : ∀ j, n ≤ j → j < n + used.length → numberedName base j ∈ used) :
    numberedName base (n + used.length) ∉ used := by
  intro last
  have distinct : ((List.range' n (used.length + 1)).map (numberedName base)).Nodup :=
    List.Nodup.map (fun _ _ same => numberedName_inj.1 same) List.nodup_range'
  have inside : (List.range' n (used.length + 1)).map (numberedName base) ⊆ used := by
    intro name member
    obtain ⟨j, bounds, rfl⟩ := List.mem_map.1 member
    have := List.mem_range'_1.1 bounds
    rcases Nat.lt_or_ge j (n + used.length) with below | above
    · exact before j this.1 below
    · rwa [show j = n + used.length by omega]
  have atMost := (distinct.subperm inside).length_le
  rw [List.length_map, List.length_range'] at atMost
  omega

/-- **The first free name has the least number that is not in use.** -/
theorem firstFree_least (used : List String) (base : String) (n : Nat) :
    ∃ k, firstFree used base n = numberedName base k ∧ n ≤ k ∧ numberedName base k ∉ used ∧
      ∀ j, n ≤ j → j < k → numberedName base j ∈ used := by
  obtain ⟨k, found, least, free, before⟩ := firstFreeWithin_spec used base used.length n
  refine ⟨k, found, least, ?_, before⟩
  rcases free with free | rfl
  · exact free
  · exact not_mem_of_all_before before

/-- The first free name is not in use. -/
theorem firstFree_not_mem (used : List String) (base : String) (n : Nat) :
    firstFree used base n ∉ used := by
  obtain ⟨k, found, -, free, -⟩ := firstFree_least used base n
  rwa [found]

/-! ## The search without a bound -/

section Search

variable {used : List String} {base : String} {n k : Nat}

/-- A search from `n` up that only a free name ends comes to its end at `k`. -/
inductive SearchEnds (used : List String) (base : String) : Nat → Nat → Prop where
  | here {n : Nat} (free : numberedName base n ∉ used) : SearchEnds used base n n
  | next {n k : Nat} (taken : numberedName base n ∈ used)
      (later : SearchEnds used base (n + 1) k) : SearchEnds used base n k

/-- It ends at the least number that is not in use. -/
theorem SearchEnds.isLeast (ends : SearchEnds used base n k) :
    IsLeast {m | n ≤ m ∧ numberedName base m ∉ used} k := by
  induction ends with
  | here free => exact ⟨⟨Nat.le_refl _, free⟩, fun m bound => bound.1⟩
  | @next n k taken later ih =>
      obtain ⟨⟨above, free⟩, least⟩ := ih
      refine ⟨⟨Nat.le_of_succ_le above, free⟩, ?_⟩
      rintro m ⟨from_n, freeHere⟩
      refine least ⟨Nat.lt_of_le_of_ne from_n ?_, freeHere⟩
      rintro rfl
      exact freeHere taken

/-- It asks no more of the names in use than which they are. -/
theorem SearchEnds.of_same {others : List String} (same : ∀ name, name ∈ used ↔ name ∈ others)
    (ends : SearchEnds used base n k) : SearchEnds others base n k := by
  induction ends with
  | here free => exact .here fun taken => free ((same _).2 taken)
  | next taken _ ih => exact .next ((same _).1 taken) ih

theorem searchEnds_of_before (free : numberedName base k ∉ used) (le : n ≤ k)
    (before : ∀ j, n ≤ j → j < k → numberedName base j ∈ used) : SearchEnds used base n k := by
  obtain ⟨d, rfl⟩ := Nat.exists_eq_add_of_le le
  induction d generalizing n with
  | zero => exact .here free
  | succ d ih =>
      have behind : n + (d + 1) = n + 1 + d := by omega
      rw [behind] at free before ⊢
      refine .next (before n (Nat.le_refl n) (by omega)) (ih free (by omega) ?_)
      exact fun j above => before j (Nat.le_of_succ_le above)

/-- **The search ends**, no later than behind as many names as are in use. -/
theorem exists_searchEnds (used : List String) (base : String) (n : Nat) :
    ∃ k ≤ n + used.length, SearchEnds used base n k ∧
      firstFree used base n = numberedName base k := by
  obtain ⟨k, found, le, free, before⟩ := firstFree_least used base n
  refine ⟨k, ?_, searchEnds_of_before free le before, found⟩
  by_contra beyond
  refine not_mem_of_all_before (fun j above below => before j above ?_) (before _ ?_ ?_) <;> omega

end Search

end ProtocolFakes
