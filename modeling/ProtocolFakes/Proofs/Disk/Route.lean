import ProtocolFakes.Proofs.Disk.Change
import ProtocolFakes.Proofs.FilePath

/-!
# The last names of a path

Names are followed one after another, so a path is followed up to some name and then
from there (`follow_append`).  What stands at the end of a path therefore says much about
where it leads: slashes at the end change nothing once a directory is reached
(`place_dropEndSlashes`), and a path that ends in the letters of a file name leads to a
place with a name that ends so (`exists_name_of_place`).
-/

namespace ProtocolFakes

set_option autoImplicit false

/-! ## Following the last names -/

namespace Disk

/-- Names are followed one after another. -/
theorem follow_append (d : Disk) (start : Place) (names more : List (List Char)) :
    d.follow start (names ++ more) =
      (d.follow start names).bind fun place => d.follow place more := by
  induction names generalizing start with
  | nil => rfl
  | cons name names ih =>
      rw [List.cons_append, follow, follow]
      cases d.entryAt? start with
      | none => rfl
      | some entry =>
          cases entry with
          | file content => rfl
          | directory =>
              dsimp only
              split
              · exact ih start
              · split
                · exact ih start.dropLast
                · split
                  · rfl
                  · exact ih (start ++ [name])

/-- Empty names lead nowhere else. -/
theorem eq_of_follow_replicate_nil {d : Disk} {start target : Place} {n : Nat}
    (led : d.follow start (List.replicate n []) = .ok target) : start = target := by
  induction n with
  | zero => exact Except.ok.inj led
  | succ n ih =>
      rw [List.replicate_succ] at led
      rw [follow_cons (directory_of_follow led)] at led
      exact ih led

/-- A name with a letter other than a dot leads to a place of that name. -/
theorem exists_concat_of_follow {d : Disk} {start target : Place} {names : List (List Char)}
    {name : List Char} (letter : ∃ c ∈ name, c ≠ '.')
    (led : d.follow start (names ++ [name]) = .ok target) :
    ∃ above, target = above ++ [name] := by
  obtain ⟨c, member, notDot⟩ := letter
  have counts : FilePath.isTrivial name = false := by
    rw [Bool.eq_false_iff]
    intro trivialName
    rcases Bool.or_eq_true_iff.1 trivialName with empty | dot
    · simp_all
    · simp_all
  have notUp : name ≠ ['.', '.'] := by
    rintro rfl
    simp_all
  rw [follow_append] at led
  cases first : d.follow start names with
  | error e =>
      rw [first] at led
      cases led
  | ok above =>
      rw [first] at led
      replace led : d.follow above [name] = .ok target := led
      rw [follow_cons (directory_of_follow led)] at led
      simp only [counts, notUp, if_false, Bool.false_eq_true] at led
      split at led
      · cases led
      · exact ⟨above, (Except.ok.inj led).symm⟩

/-- A path leads somewhere by its names. -/
theorem place_eq_ok_iff {d : Disk} {path : List Char} {target : Place} :
    d.place path = .ok target ↔ path.contains '\x00' = false ∧ path ≠ [] ∧
      d.follow (if path.head? = some '/' then [] else d.workingPlace) (FilePath.split path) =
        .ok target := by
  unfold place
  cases path.contains '\x00' with
  | true => simp
  | false => cases path <;> simp

/-- A path that ends in letters, of which one is no dot, leads to a place with a name that
ends so. -/
theorem exists_name_of_place {d : Disk} {front letters : List Char} {target : Place}
    (noSlash : '/' ∉ letters) (letter : ∃ c ∈ letters, c ≠ '.')
    (led : d.place (front ++ letters) = .ok target) :
    ∃ above piece, target = above ++ [piece ++ letters] := by
  obtain ⟨-, -, led⟩ := place_eq_ok_iff.1 led
  obtain ⟨pieces, piece, pieces_eq⟩ := FilePath.exists_split_append noSlash front
  rw [pieces_eq] at led
  obtain ⟨c, member, notDot⟩ := letter
  obtain ⟨above, rfl⟩ :=
    exists_concat_of_follow ⟨c, List.mem_append_right piece member, notDot⟩ led
  exact ⟨above, piece, rfl⟩

/-- **Slashes at the end of a path change nothing** of where it leads. -/
theorem place_dropEndSlashes {d : Disk} {path : List Char} {target : Place}
    (led : d.place path = .ok target) : d.place (FilePath.dropEndSlashes path) = .ok target := by
  obtain ⟨n, someLeft, whole⟩ := FilePath.exists_dropEndSlashes_append path
  obtain ⟨noNul, someName, led⟩ := place_eq_ok_iff.1 led
  replace someLeft := someLeft someName
  generalize FilePath.dropEndSlashes path = trimmed at someLeft whole ⊢
  subst whole
  rw [FilePath.split_append_slashes, follow_append] at led
  cases first : d.follow (if (trimmed ++ List.replicate n '/').head? = some '/' then [] else
      d.workingPlace) (FilePath.split trimmed) with
  | error e =>
      rw [first] at led
      cases led
  | ok above =>
      rw [first] at led
      obtain rfl := eq_of_follow_replicate_nil led
      refine place_eq_ok_iff.2 ⟨by simp_all, someLeft, ?_⟩
      cases trimmed with
      | nil => exact absurd rfl someLeft
      | cons c cs => exact first

end Disk

end ProtocolFakes
