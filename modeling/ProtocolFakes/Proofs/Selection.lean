import ProtocolFakes.Proofs.Text.Lines
import ProtocolFakes.Selection

/-!
# Selected lines

A scan over the lines of a text counts their bytes and notes where the first line of a range
begins and where the last one ends.  At the first line it notes the bytes in front of it
(`boundsFrom_fst_eq`).  Its end is that of the whole text until it comes to the last line and
stops there, so a range that goes on behind the text ends with it (`boundsFrom_snd_eq`).

The bytes between the two are the lines of the range (`select?_eq`).  A selection of one line
is what the search for the first character on it looks at.

Main theorem: `select?_selects_lines`.
-/

namespace ProtocolFakes

set_option autoImplicit false

open Text (byteLength lines)

namespace LineRange

/-! ## The scan -/

section Scan

variable {r : LineRange} {index offset stop : Nat} {start : Option Nat}

/-- Behind the first line, the start stays as it is. -/
theorem boundsFrom_fst_of_lt (ls : List (List Char)) (behind : r.first < index) :
    (r.boundsFrom index offset start stop ls).1 = start := by
  induction ls generalizing index offset with
  | nil => rfl
  | cons line rest ih =>
      rw [boundsFrom_cons, if_neg (Nat.ne_of_gt behind)]
      split
      · rfl
      · exact ih (Nat.lt_succ_of_lt behind)

/-- **The scan notes where the first line begins**, if it comes to it. -/
theorem boundsFrom_fst_eq (ls : List (List Char)) (ordered : r.first ≤ r.last)
    (ahead : index ≤ r.first) :
    (r.boundsFrom index offset start stop ls).1 =
      if r.first - index < ls.length then
        some (offset + byteLength (ls.take (r.first - index)).flatten)
      else start := by
  induction ls generalizing index offset with
  | nil => rfl
  | cons line rest ih =>
      rw [boundsFrom_cons]
      -- At the first line the start is noted, and the scan may stop at once if that is the last
      -- one too; in front of it neither end is met.
      by_cases here : index = r.first
      · have inside : 0 < (line :: rest).length := Nat.succ_pos _
        rw [if_pos here, here, Nat.sub_self, if_pos inside, List.take_zero]
        split
        · rfl
        · exact boundsFrom_fst_of_lt rest (Nat.lt_succ_self r.first)
      · obtain ⟨further, steps⟩ : ∃ n, r.first - index = n + 1 :=
          ⟨r.first - index - 1, by omega⟩
        have next : r.first - (index + 1) = further := by omega
        rw [if_neg here, if_neg (by omega), ih (by omega), next, steps]
        simp [Nat.add_assoc]

/-- **The scan notes where the last line ends**, or where the text does. -/
theorem boundsFrom_snd_eq (ls : List (List Char)) (ahead : index ≤ r.last)
    (whole : stop = offset + byteLength ls.flatten) :
    (r.boundsFrom index offset start stop ls).2 =
      offset + byteLength (ls.take (r.last + 1 - index)).flatten := by
  -- Until the last line is met, the end handed on is that of all lines, counted from the offset
  -- reached; a step moves one line from the rest to the offset.
  induction ls generalizing index offset start with
  | nil => simp [boundsFrom, whole]
  | cons line rest ih =>
      obtain ⟨further, steps⟩ : ∃ n, r.last + 1 - index = n + 1 := ⟨r.last - index, by omega⟩
      rw [boundsFrom_cons, steps]
      by_cases here : index = r.last
      · obtain rfl : further = 0 := by omega
        simp [here]
      · have next : r.last + 1 - (index + 1) = further := by omega
        rw [if_neg here, ih (by omega) (by simp [whole, Nat.add_assoc]), next]
        simp [Nat.add_assoc]

end Scan

/-! ## The selection -/

/-- The scan of a whole text. -/
theorem boundsFrom_eq {r : LineRange} (cs : List Char) (ordered : r.first ≤ r.last) :
    r.boundsFrom 0 0 none (byteLength cs) (lines cs) =
      (if r.first < (lines cs).length then some (Text.lineStart cs r.first) else none,
        Text.lineStart cs (r.last + 1)) := by
  have whole : byteLength cs = 0 + byteLength (lines cs).flatten := by
    rw [Text.flatten_lines, Nat.zero_add]
  refine Prod.ext ?_ ?_
  · simp [boundsFrom_fst_eq _ ordered (Nat.zero_le _), Text.lineStart]
  · simp [boundsFrom_snd_eq _ (Nat.zero_le _) whole, Text.lineStart]

/-- **What is selected** are the lines from the first to the last of a range, where the first
one begins, if there is a first one. -/
theorem select?_eq {r : LineRange} (source : String) (ordered : r.first ≤ r.last) :
    r.select? source =
      if r.first < (lines source.toList).length then
        some
          { text := String.ofList (Text.linesBetween source.toList r.first (r.last + 1)).flatten
            offset := Text.lineStart source.toList r.first }
      else none := by
  rw [select?, if_neg (Nat.not_lt.2 ordered)]
  simp only [boundsFrom_eq _ ordered]
  split
  · have cut : Text.sliceBytes? _ _ source.toList = _ :=
      Text.sliceBytes?_lineStart (Nat.le_succ_of_le ordered)
    simp [cut]
  · rfl

theorem select?_eq_some_iff {r : LineRange} {source : String} {s : Selection}
    (ordered : r.first ≤ r.last) :
    r.select? source = some s ↔ r.first < (lines source.toList).length ∧
      s.text.toList = (Text.linesBetween source.toList r.first (r.last + 1)).flatten ∧
      s.offset = Text.lineStart source.toList r.first := by
  rw [select?_eq source ordered, Option.ite_none_right_eq_some, Option.some.injEq,
    Selection.ext_iff, eq_comm (b := s.text), eq_comm (b := s.offset)]
  rw [← String.toList_inj, String.toList_ofList]

/-- A range selects nothing exactly when it begins behind the text. -/
theorem select?_eq_none_iff {r : LineRange} {source : String} (ordered : r.first ≤ r.last) :
    r.select? source = none ↔ (lines source.toList).length ≤ r.first := by
  rw [select?_eq source ordered, ite_eq_right_iff]
  simp

/-- The bytes of a selection are those at its offset. -/
theorem sliceBytes?_of_select? {r : LineRange} {source : String} {s : Selection}
    (ordered : r.first ≤ r.last) (selected : r.select? source = some s) :
    Text.sliceBytes? s.offset (s.offset + byteLength s.text.toList) source.toList =
      some s.text.toList := by
  obtain ⟨-, text, offset⟩ := (select?_eq_some_iff ordered).1 selected
  have upTo := Nat.le_succ_of_le ordered
  rw [text, offset, Text.lineStart_add_byteLength upTo, Text.sliceBytes?_lineStart upTo]

/-- **Selections side by side make up the selection of both ranges.** -/
theorem select?_append {source : String} {first mid last : Nat} {s t : Selection}
    (front : first ≤ mid) (back : mid < last)
    (here : (⟨first, mid⟩ : LineRange).select? source = some s)
    (there : (⟨mid + 1, last⟩ : LineRange).select? source = some t) :
    t.offset = s.offset + byteLength s.text.toList ∧
      (⟨first, last⟩ : LineRange).select? source = some ⟨s.text ++ t.text, s.offset⟩ := by
  obtain ⟨inside, text, offset⟩ := (select?_eq_some_iff front).1 here
  obtain ⟨-, text', offset'⟩ := (select?_eq_some_iff (Nat.succ_le_of_lt back)).1 there
  dsimp only at inside text offset text' offset'
  have upTo : first ≤ mid + 1 := Nat.le_succ_of_le front
  have joined := Text.linesBetween_append (Nat.le_of_lt inside) upTo
    (Nat.succ_le_succ (Nat.le_of_lt back))
  refine ⟨?_, (select?_eq_some_iff (Nat.le_trans front (Nat.le_of_lt back))).2 ⟨inside, ?_, offset⟩⟩
  · rw [offset', offset, text, Text.lineStart_add_byteLength upTo]
  · rw [String.toList_append, text, text', ← List.flatten_append, joined]

/-- Behind the text there is nothing more to select. -/
theorem select?_eq_of_behind {source : String} {first mid last : Nat} (front : first ≤ mid)
    (back : mid < last) (nothing : (⟨mid + 1, last⟩ : LineRange).select? source = none) :
    (⟨first, last⟩ : LineRange).select? source = (⟨first, mid⟩ : LineRange).select? source := by
  have short := (select?_eq_none_iff (Nat.succ_le_of_lt back)).1 nothing
  dsimp only at short
  rw [select?_eq (r := ⟨first, mid⟩) source front,
    select?_eq (r := ⟨first, last⟩) source (Nat.le_trans front (Nat.le_of_lt back))]
  simp only [Text.linesBetween, List.take_of_length_le short,
    List.take_of_length_le (Nat.le_trans short (Nat.succ_le_succ (Nat.le_of_lt back)))]

/-- The search for the first character on a line looks at the selection of this line. -/
theorem lineContentOffset?_eq_some_iff {source : String} {line offset : Nat} :
    Text.lineContentOffset? source.toList line = some offset ↔
      ∃ s, (⟨line, line⟩ : LineRange).select? source = some s ∧ s.isBlank = false ∧
        offset = s.offset + byteLength (Text.leadingBlanks s.text.toList) := by
  rw [Text.lineContentOffset?_eq_some_iff]
  constructor
  · rintro ⟨content, found, visible, same⟩
    obtain ⟨inside, -⟩ := List.getElem?_eq_some_iff.1 found
    refine ⟨⟨String.ofList content, Text.lineStart source.toList line⟩,
      (select?_eq_some_iff (Nat.le_refl line)).2 ⟨inside, ?_, rfl⟩, ?_, ?_⟩
    · simp [Text.linesBetween_succ found]
    · simpa [Selection.isBlank] using visible
    · simpa using same
  · rintro ⟨s, selected, visible, same⟩
    obtain ⟨inside, text, offset⟩ := (select?_eq_some_iff (Nat.le_refl line)).1 selected
    have found := List.getElem?_eq_getElem inside
    rw [Text.linesBetween_succ found, List.flatten_singleton] at text
    rw [Selection.isBlank, text] at visible
    rw [offset, text] at same
    exact ⟨_, found, visible, same⟩

/-- **The selection of lines is exact, and the search for the first character on a line agrees
with it.** The lines of a text are the stretches up to each line feed, with the line feed, and
what stands behind the last one.

* A range selects nothing exactly when it begins behind the last line.  Otherwise it selects the
  lines from its first to its last, or to the last of the text; they begin behind the bytes of
  the lines in front of them, and the text cut there is the selection.
* Two ranges side by side select what both together select.
* The search on a line answers exactly when the line is there and is not blank, with the offset
  of the line and its leading blanks.  A character that is not blank stands there. -/
theorem select?_selects_lines (source : String) :
    ((lines source.toList).flatten = source.toList ∧
      ∀ before line after, lines source.toList = before ++ line :: after →
        ∃ stretch, '\n' ∉ stretch ∧
          (line = stretch ++ ['\n'] ∨ line = stretch ∧ stretch ≠ [] ∧ after = [])) ∧
    (∀ first last, first ≤ last →
      ((⟨first, last⟩ : LineRange).select? source = none ↔
        (lines source.toList).length ≤ first) ∧
      ∀ s, (⟨first, last⟩ : LineRange).select? source = some s →
        s.text.toList = (((lines source.toList).take
          (min last ((lines source.toList).length - 1) + 1)).drop first).flatten ∧
        s.offset = byteLength ((lines source.toList).take first).flatten ∧
        Text.sliceBytes? s.offset (s.offset + byteLength s.text.toList) source.toList =
          some s.text.toList) ∧
    (∀ first mid last, first ≤ mid → mid < last →
      (∀ s t, (⟨first, mid⟩ : LineRange).select? source = some s →
        (⟨mid + 1, last⟩ : LineRange).select? source = some t →
          t.offset = s.offset + byteLength s.text.toList ∧
          (⟨first, last⟩ : LineRange).select? source = some ⟨s.text ++ t.text, s.offset⟩) ∧
      ((⟨mid + 1, last⟩ : LineRange).select? source = none →
        (⟨first, last⟩ : LineRange).select? source =
          (⟨first, mid⟩ : LineRange).select? source)) ∧
    (∀ line offset, Text.lineContentOffset? source.toList line = some offset ↔
      ∃ s, (⟨line, line⟩ : LineRange).select? source = some s ∧ s.isBlank = false ∧
        offset = s.offset + byteLength (Text.leadingBlanks s.text.toList)) ∧
    ∀ line offset, Text.lineContentOffset? source.toList line = some offset →
      ∃ before c after, source.toList = before ++ c :: after ∧ byteLength before = offset ∧
        Text.isBlank c = false := by
  refine ⟨⟨Text.flatten_lines _, fun before line after => Text.exists_eq_of_lines⟩, ?_, ?_,
    fun line offset => lineContentOffset?_eq_some_iff,
    fun line offset => Text.exists_eq_of_lineContentOffset?⟩
  · intro first last ordered
    refine ⟨select?_eq_none_iff ordered, ?_⟩
    intro s selected
    obtain ⟨inside, text, offset⟩ := (select?_eq_some_iff ordered).1 selected
    refine ⟨?_, offset, sliceBytes?_of_select? ordered selected⟩
    rw [text, Text.linesBetween_eq_of_lt inside]
  · intro first mid last front back
    exact ⟨fun s t => select?_append front back, select?_eq_of_behind front back⟩

/-- Three lines with characters of several bytes; the second is blank, the third has no end. -/
def unevenSource : String := "é//\n\u00a0\n \u2003b"

theorem select?_selects_lines_uneven :
    (⟨0, 1⟩ : LineRange).select? unevenSource = some ⟨"é//\n\u00a0\n", 0⟩ ∧
      (⟨2, 9⟩ : LineRange).select? unevenSource = some ⟨" \u2003b", 8⟩ ∧
      (⟨0, 9⟩ : LineRange).select? unevenSource = some ⟨unevenSource, 0⟩ ∧
      (⟨3, 9⟩ : LineRange).select? unevenSource = none ∧
      Text.lineContentOffset? unevenSource.toList 2 = some 12 := by
  obtain ⟨-, exact, adjacent, search, -⟩ := select?_selects_lines unevenSource
  have here : (⟨0, 1⟩ : LineRange).select? unevenSource = some ⟨"é//\n\u00a0\n", 0⟩ := by
    decide
  have there : (⟨2, 9⟩ : LineRange).select? unevenSource = some ⟨" \u2003b", 8⟩ := by
    decide
  have last : (⟨2, 2⟩ : LineRange).select? unevenSource = some ⟨" \u2003b", 8⟩ := by
    decide
  have joined := ((adjacent 0 1 9 (by decide) (by decide)).1 _ _ here there).2
  have behind := (exact 3 9 (by decide)).1.2 (by decide)
  have found := (search 2 12).2 ⟨_, last, by decide, by decide⟩
  exact ⟨here, there, joined, behind, found⟩

end LineRange

end ProtocolFakes
