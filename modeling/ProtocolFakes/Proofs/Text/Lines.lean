import Mathlib.Data.List.TakeWhile
import ProtocolFakes.Text.Line

/-!
# Lines and their offsets

A line begins behind the bytes of the lines in front of it (`lineStart`).  The search for the
first character on a line that is not blank counts them on its way from line to line
(`lineContentOffsetFrom_eq`); on the line itself it measures the text with and without its
leading blanks, and the difference is the length of these blanks (`byteLength_sub_trimStart`).

The lines between two others are the text between the offsets of these (`sliceBytes?_lineStart`).

Main statement: `lineContentOffset?_eq_some_iff`.
-/

namespace ProtocolFakes.Text

set_option autoImplicit false

/-! ## Leading blanks -/

/-- The blanks that a text begins with. -/
def leadingBlanks (cs : List Char) : List Char := cs.takeWhile isBlank

theorem leadingBlanks_append_trimStart (cs : List Char) : leadingBlanks cs ++ trimStart cs = cs :=
  List.takeWhile_append_dropWhile

/-- What is trimmed off the start of a text are its leading blanks. -/
theorem byteLength_sub_trimStart (cs : List Char) :
    byteLength cs - byteLength (trimStart cs) = byteLength (leadingBlanks cs) := by
  have whole : byteLength cs = byteLength (leadingBlanks cs) + byteLength (trimStart cs) := by
    rw [← byteLength_append, leadingBlanks_append_trimStart]
  omega

theorem trimStart_eq_nil_iff {cs : List Char} : trimStart cs = [] ↔ isAllBlank cs = true := by
  rw [trimStart, List.dropWhile_eq_nil_iff, isAllBlank, List.all_eq_true]

/-- A character that is not blank follows the leading blanks. -/
theorem exists_trimStart_eq_cons {cs : List Char} (visible : isAllBlank cs = false) :
    ∃ c rest, trimStart cs = c :: rest ∧ isBlank c = false := by
  have left : cs.dropWhile isBlank ≠ [] := fun empty => by
    rw [trimStart_eq_nil_iff.1 empty] at visible
    cases visible
  have first := List.head_dropWhile_not isBlank left
  obtain ⟨c, rest, split⟩ := List.exists_cons_of_ne_nil left
  simp only [split, List.head_cons] at first
  exact ⟨c, rest, split, first⟩

/-- Nothing is left of a text that is trimmed exactly if it is blank. -/
theorem isEmpty_trim (cs : List Char) : (trim cs).isEmpty = isAllBlank cs := by
  cases blank : isAllBlank cs with
  | true => rw [trim, trimStart_eq_nil_iff.2 blank]; rfl
  | false =>
      obtain ⟨c, rest, split, visible⟩ := exists_trimStart_eq_cons blank
      simp [trim, trimEnd, split, visible]

/-! ## Lines -/

/-- A line is a stretch without a line feed and the line feed behind it, which only the last
line may lack. -/
theorem exists_eq_of_lines {cs : List Char} {before after : List (List Char)} {line : List Char}
    (split : lines cs = before ++ line :: after) :
    ∃ stretch, '\n' ∉ stretch ∧
      (line = stretch ++ ['\n'] ∨ line = stretch ∧ stretch ≠ [] ∧ after = []) := by
  induction cs generalizing before line with
  | nil => simp [lines] at split
  | cons c cs ih =>
      rw [lines] at split
      split_ifs at split with newline
      · cases before with
        | nil =>
            obtain ⟨rfl, rfl⟩ := List.cons.inj split
            exact ⟨[], by simp, .inl (by simp [newline])⟩
        | cons _ before => exact ih (List.cons.inj split).2
      -- Any other character is put in front of the first line of the rest, if there is one.
      · cases rest : lines cs with
        | nil =>
            rw [rest] at split
            cases before with
            | nil =>
                obtain ⟨rfl, rfl⟩ := List.cons.inj split
                exact ⟨[c], by simpa [eq_comm] using newline, .inr ⟨rfl, by simp, rfl⟩⟩
            | cons _ before => exact absurd (List.cons.inj split).2 (by simp)
        | cons first others =>
            rw [rest] at split
            cases before with
            | nil =>
                obtain ⟨rfl, rfl⟩ := List.cons.inj split
                obtain ⟨stretch, none, ends⟩ := ih (show lines cs = [] ++ _ from rest)
                refine ⟨c :: stretch, by simp [none, eq_comm, newline], ?_⟩
                rcases ends with rfl | ⟨rfl, -, rfl⟩
                · exact .inl rfl
                · exact .inr ⟨rfl, by simp, rfl⟩
            | cons _ before =>
                obtain ⟨rfl, rfl⟩ := List.cons.inj split
                exact ih (show lines cs = (_ :: before) ++ _ from rest)

/-- The byte offset at which a line begins. -/
def lineStart (cs : List Char) (line : Nat) : Nat := byteLength ((lines cs).take line).flatten

/-- The lines from `first` up to `last`, which is not one of them. -/
def linesBetween (cs : List Char) (first last : Nat) : List (List Char) :=
  ((lines cs).take last).drop first

section Between

variable {cs : List Char} {first mid last : Nat}

theorem take_append_linesBetween (ordered : first ≤ last) :
    (lines cs).take first ++ linesBetween cs first last = (lines cs).take last := by
  have front : ((lines cs).take last).take first = (lines cs).take first := by
    rw [List.take_take, Nat.min_eq_left ordered]
  rw [linesBetween, ← front, List.take_append_drop]

theorem linesBetween_append (inside : first ≤ (lines cs).length) (front : first ≤ mid)
    (back : mid ≤ last) :
    linesBetween cs first mid ++ linesBetween cs mid last = linesBetween cs first last := by
  have reached : first ≤ ((lines cs).take mid).length := by
    rw [List.length_take]
    exact Nat.le_min.2 ⟨front, inside⟩
  calc linesBetween cs first mid ++ linesBetween cs mid last
      = ((lines cs).take mid ++ linesBetween cs mid last).drop first := by
        rw [List.drop_append_of_le_length reached, linesBetween]
    _ = linesBetween cs first last := by rw [take_append_linesBetween back, linesBetween]

theorem linesBetween_succ {line : Nat} {content : List Char}
    (found : (lines cs)[line]? = some content) : linesBetween cs line (line + 1) = [content] := by
  obtain ⟨inside, rfl⟩ := List.getElem?_eq_some_iff.1 found
  rw [linesBetween, List.drop_take, Nat.add_sub_cancel_left, List.drop_eq_getElem_cons inside,
    List.take_succ_cons, List.take_zero]

/-- Lines that are asked for behind the text are none. -/
theorem linesBetween_eq_of_lt (inside : first < (lines cs).length) :
    linesBetween cs first (last + 1) =
      ((lines cs).take (min last ((lines cs).length - 1) + 1)).drop first := by
  have same : (lines cs).take (last + 1) =
      (lines cs).take (min last ((lines cs).length - 1) + 1) := by
    rw [List.take_eq_take_iff]
    omega
  rw [linesBetween, same]

/-- Lines begin where those in front of them end. -/
theorem lineStart_add_byteLength (ordered : first ≤ last) :
    lineStart cs first + byteLength (linesBetween cs first last).flatten = lineStart cs last := by
  rw [lineStart, ← byteLength_append, ← List.flatten_append, take_append_linesBetween ordered,
    lineStart]

theorem flatten_append_linesBetween (cs : List Char) (ordered : first ≤ last) :
    ((lines cs).take first).flatten ++
      ((linesBetween cs first last).flatten ++ ((lines cs).drop last).flatten) = cs := by
  rw [← List.append_assoc, ← List.flatten_append, take_append_linesBetween ordered,
    ← List.flatten_append, List.take_append_drop, flatten_lines]

/-- Lines are the text between their offsets. -/
theorem sliceBytes?_lineStart (ordered : first ≤ last) :
    sliceBytes? (lineStart cs first) (lineStart cs last) cs =
      some (linesBetween cs first last).flatten := by
  have cut := sliceBytes?_append ((lines cs).take first).flatten
    (linesBetween cs first last).flatten ((lines cs).drop last).flatten
  rw [flatten_append_linesBetween cs ordered] at cut
  rwa [← lineStart_add_byteLength ordered]

end Between

/-- **The search counts the bytes of the lines it goes past.** -/
theorem lineContentOffsetFrom_eq {line index offset : Nat} (ls : List (List Char))
    (ahead : index ≤ line) :
    lineContentOffsetFrom line index offset ls = (ls[line - index]?).bind fun content =>
      if isAllBlank content then none
      else some (offset + byteLength (ls.take (line - index)).flatten +
        byteLength (leadingBlanks content)) := by
  induction ls generalizing index offset with
  | nil => rfl
  | cons content rest ih =>
      rw [lineContentOffsetFrom]
      by_cases here : index = line
      · simp [here, isEmpty_trim, byteLength_sub_trimStart]
      · obtain ⟨further, steps⟩ : ∃ n, line - index = n + 1 := ⟨line - index - 1, by omega⟩
        have next : line - (index + 1) = further := by omega
        rw [if_neg here, ih (by omega), next, steps]
        simp [Nat.add_assoc]

/-- Where the first character of a line stands that is not blank. -/
theorem lineContentOffset?_eq_some_iff {cs : List Char} {line offset : Nat} :
    lineContentOffset? cs line = some offset ↔ ∃ content, (lines cs)[line]? = some content ∧
      isAllBlank content = false ∧
      offset = lineStart cs line + byteLength (leadingBlanks content) := by
  simp only [lineContentOffset?, lineContentOffsetFrom_eq _ (Nat.zero_le _),
    Option.bind_eq_some_iff, Nat.sub_zero, Nat.zero_add, lineStart]
  refine exists_congr fun content => and_congr_right fun _ => ?_
  cases isAllBlank content <;> simp [eq_comm]

/-- The character there is not blank. -/
theorem exists_eq_of_lineContentOffset? {cs : List Char} {line offset : Nat}
    (found : lineContentOffset? cs line = some offset) :
    ∃ before c after, cs = before ++ c :: after ∧ byteLength before = offset ∧
      isBlank c = false := by
  obtain ⟨content, here, visible, rfl⟩ := lineContentOffset?_eq_some_iff.1 found
  obtain ⟨c, rest, split, notBlank⟩ := exists_trimStart_eq_cons visible
  refine ⟨((lines cs).take line).flatten ++ leadingBlanks content, c,
    rest ++ ((lines cs).drop (line + 1)).flatten, ?_, byteLength_append .., notBlank⟩
  calc cs
      = ((lines cs).take line).flatten ++ (content ++ ((lines cs).drop (line + 1)).flatten) := by
        have parts := (flatten_append_linesBetween cs (Nat.le_succ line)).symm
        rwa [linesBetween_succ here, List.flatten_singleton] at parts
    _ = ((lines cs).take line).flatten ++
          (leadingBlanks content ++ c :: rest ++ ((lines cs).drop (line + 1)).flatten) := by
        rw [← split, leadingBlanks_append_trimStart]
    _ = _ := by simp

end ProtocolFakes.Text
