import Mathlib.Data.List.Induction
import ProtocolFakes.Proofs.Token.Pieces

/-!
# What stands between tokens

A gap is a newline, another blank, a comment or a preprocessor line.  `IsTrivia rest`
says for each kind which characters make up such a gap in front of `rest`, without
speaking of the scanners: a line comment holds no newline and ends in front of one, a
block comment holds no closing mark but the one that it ends with, and every newline
in a preprocessor line stands behind a backslash.  At the end of a source any of the
comments and lines may break off.

What the cutter takes as a gap is trivia (`Piece.ReadAt.isTrivia`), and it takes a
preprocessor line only where a line of the source begins (`AtLineStart`): behind no
token since the last newline between tokens (`atLineStart_of_lineStartBehind`).
-/

namespace ProtocolFakes

set_option autoImplicit false

/-! ## Lines that go on -/

/-- A line, as far as it has been read, that a backslash at its end continues.
Carriage returns behind the backslash do not count. -/
def EndsInBackslash (line : List Char) : Prop :=
  ∃ front n, line = front ++ '\\' :: List.replicate n '\r'

theorem not_endsInBackslash_nil : ¬ EndsInBackslash [] := by
  rintro ⟨front, n, same⟩
  simp at same

theorem endsInBackslash_concat {line : List Char} {c : Char} :
    EndsInBackslash (line ++ [c]) ↔ c = '\\' ∨ c = '\r' ∧ EndsInBackslash line := by
  constructor
  · rintro ⟨front, n, same⟩
    cases n with
    | zero => exact .inl (List.singleton_inj.1 (List.append_inj' same rfl).2)
    | succ n =>
        rw [List.replicate_succ', ← List.cons_append, ← List.append_assoc] at same
        obtain ⟨lines, last⟩ := List.append_inj' same rfl
        exact .inr ⟨List.singleton_inj.1 last, front, n, lines⟩
  · rintro (rfl | ⟨rfl, front, n, rfl⟩)
    · exact ⟨line, 0, rfl⟩
    · exact ⟨front, n + 1, by simp [List.replicate_succ']⟩

/-! ## The characters of a gap -/

/-- The characters of a gap of a kind, in front of `rest`. -/
inductive IsTrivia (rest : List Char) : GapKind → List Char → Prop where
  | newline : IsTrivia rest .newline ['\n']
  | blank {c : Char} (notNewline : c ≠ '\n') (isBlank : Text.isBlank c = true) :
      IsTrivia rest .blank [c]
  /-- Two slashes and the rest of the line, up to a newline that is left. -/
  | lineComment {body : List Char} (oneLine : '\n' ∉ body)
      (ends : ∀ d ∈ rest.head?, d = '\n') :
      IsTrivia rest .lineComment ('/' :: '/' :: body)
  /-- A comment between its marks. -/
  | blockComment {body : List Char} (inside : ¬ ['*', '/'] <:+: body) :
      IsTrivia rest .blockComment ('/' :: '*' :: (body ++ ['*', '/']))
  /-- A comment that runs to the end of the source. -/
  | openComment {body : List Char} (inside : ¬ ['*', '/'] <:+: body) (last : rest = []) :
      IsTrivia rest .blockComment ('/' :: '*' :: body)
  /-- A preprocessor line with the lines that continue it. -/
  | directive {body : List Char}
      (continued : ∀ front back, body = front ++ '\n' :: back → EndsInBackslash front)
      (ends : rest = [] ∨ (∃ later, rest = '\n' :: later) ∧ ¬ EndsInBackslash body) :
      IsTrivia rest .directive ('#' :: body)

/-- A block comment is scanned up to its first closing mark, or to the end. -/
theorem scanBlockComment_cases (text : List Char) :
    (∃ body, (scanBlockComment text).1 = body ++ ['*', '/'] ∧ ¬ ['*', '/'] <:+: body) ∨
      (scanBlockComment text).2 = [] ∧ ¬ ['*', '/'] <:+: (scanBlockComment text).1 := by
  fun_induction scanBlockComment text with
  | case1 => exact .inr ⟨rfl, by simp⟩
  | case2 cs => exact .inl ⟨[], rfl, by simp⟩
  | case3 c cs goesOn ih =>
      -- No closing mark begins at `c`, because the scanner would have stopped there.
      have noMark : ∀ taken, taken <+: cs → ¬ ['*', '/'] <+: c :: taken := by
        rintro taken ⟨left, rfl⟩ ⟨later, mark⟩
        obtain ⟨rfl, rfl⟩ := List.cons.inj mark
        exact goesOn (later ++ left) rfl rfl
      have whole := append_scanBlockComment cs
      rcases ih with ⟨body, taken, inside⟩ | ⟨left, inside⟩
      · have front : body <+: cs := ⟨_, by rw [← List.append_assoc, ← taken]; exact whole⟩
        refine .inl ⟨c :: body, by simp [scanCons, taken], ?_⟩
        rw [List.infix_cons_iff, not_or]
        exact ⟨noMark body front, inside⟩
      · refine .inr ⟨left, ?_⟩
        rw [scanCons, List.infix_cons_iff, not_or]
        exact ⟨noMark _ ⟨_, whole⟩, inside⟩

/-- A newline inside a preprocessor line is continued, and the next line is a new one. -/
theorem scanDirective_newline {continued : Bool} {cs rest : List Char}
    (scanned : scanDirective continued ('\n' :: (cs ++ rest)) = ('\n' :: cs, rest)) :
    continued = true ∧ scanDirective false (cs ++ rest) = (cs, rest) := by
  rw [scanDirective, if_pos rfl] at scanned
  cases continued with
  | false => simp at scanned
  | true => exact ⟨rfl, scanCons_eq_iff.1 scanned⟩

/-- Any other character only tells whether the line is continued. -/
theorem scanDirective_letter {front cs rest : List Char} {c : Char} {continued : Bool}
    (letter : c ≠ '\n') (state : continued = true ↔ EndsInBackslash front)
    (scanned : scanDirective continued (c :: (cs ++ rest)) = (c :: cs, rest)) :
    ∃ continued', (continued' = true ↔ EndsInBackslash (front ++ [c])) ∧
      scanDirective continued' (cs ++ rest) = (cs, rest) := by
  rw [scanDirective, if_neg letter, scanCons_eq_iff] at scanned
  refine ⟨_, ?_, scanned⟩
  rw [endsInBackslash_concat, ← state]
  by_cases isReturn : c = '\r' <;> simp [isReturn]

/-- A preprocessor line is scanned as far as backslashes continue it.  The induction
is on what is scanned; `front` is the line as far as it has been read. -/
theorem continued_of_scanDirective {front cs rest : List Char} {continued : Bool}
    (state : continued = true ↔ EndsInBackslash front)
    (scanned : scanDirective continued (cs ++ rest) = (cs, rest)) :
    (∀ p q, cs = p ++ '\n' :: q → EndsInBackslash (front ++ p)) ∧
      (rest = [] ∨ (∃ later, rest = '\n' :: later) ∧ ¬ EndsInBackslash (front ++ cs)) := by
  induction cs generalizing front continued with
  | nil =>
      refine ⟨by simp, ?_⟩
      cases rest with
      | nil => exact .inl rfl
      | cons d later =>
          rw [List.nil_append, scanDirective] at scanned
          by_cases newline : d = '\n'
          · cases continued with
            | true => simp [newline, scanCons] at scanned
            | false => exact .inr ⟨⟨later, by rw [newline]⟩, by simpa using state⟩
          · simp [newline, scanCons] at scanned
  | cons c cs ih =>
      by_cases newline : c = '\n'
      · subst newline
        obtain ⟨rfl, tail⟩ := scanDirective_newline scanned
        have fresh : false = true ↔ EndsInBackslash (front ++ ['\n']) := by
          simp [endsInBackslash_concat]
        obtain ⟨lines, ends⟩ := ih fresh tail
        refine ⟨?_, by simpa using ends⟩
        intro p q split
        rcases List.cons_eq_append_iff.1 split with ⟨rfl, -⟩ | ⟨p, rfl, later⟩
        · simpa using state
        · simpa using lines p q later
      · obtain ⟨continued', state', tail⟩ := scanDirective_letter newline state scanned
        obtain ⟨lines, ends⟩ := ih state' tail
        refine ⟨?_, by simpa using ends⟩
        intro p q split
        rcases List.cons_eq_append_iff.1 split with ⟨rfl, same⟩ | ⟨p, rfl, later⟩
        · exact absurd (List.cons.inj same).1.symm newline
        · simpa using lines p q later

/-- **What the cutter takes as a gap is trivia.** -/
theorem Piece.ReadAt.isTrivia {lineStart : Bool} {kind : GapKind} {chars rest : List Char}
    (read : (Piece.gap kind chars).ReadAt lineStart rest) : IsTrivia rest kind chars := by
  cases Piece.readAt_gap_iff.1 read with
  | newline => exact .newline
  | blank notNewline isBlank => exact .blank notNewline isBlank
  | lineComment oneLine ends =>
      exact .lineComment (fun member => oneLine _ member rfl) ends
  | @blockComment cs scanned =>
      have cases := scanBlockComment_cases (cs ++ rest)
      rw [scanned] at cases
      rcases cases with ⟨body, rfl, inside⟩ | ⟨last, inside⟩
      · exact .blockComment inside
      · exact .openComment inside last
  | directive start scanned =>
      have fresh : false = true ↔ EndsInBackslash [] := by simp [not_endsInBackslash_nil]
      obtain ⟨lines, ends⟩ := continued_of_scanDirective fresh scanned
      exact .directive lines ends

/-! ## Where preprocessor lines begin -/

/-- Behind these pieces a line of the source begins, as far as tokens can tell: there
was none since the last newline between tokens, or since the start of the source. -/
def AtLineStart (before : List Piece) : Prop :=
  ∃ lines gap, before = lines ++ gap ∧ (∀ p ∈ gap, p.isGap = true) ∧
    ∀ p ∈ lines.getLast?, ∃ chars, p = .gap .newline chars

theorem AtLineStart.concat_gap {before : List Piece} (start : AtLineStart before)
    (kind : GapKind) (chars : List Char) : AtLineStart (before ++ [.gap kind chars]) := by
  obtain ⟨lines, gap, rfl, gaps, last⟩ := start
  refine ⟨lines, gap ++ [.gap kind chars], List.append_assoc .., ?_, last⟩
  intro p member
  rcases List.mem_append.1 member with old | new
  · exact gaps p old
  · cases List.mem_singleton.1 new
    rfl

/-- **The cutter knows where lines begin.** -/
theorem atLineStart_of_lineStartBehind {before : List Piece}
    (start : lineStartBehind true before = true) : AtLineStart before := by
  induction before using List.reverseRecOn with
  | nil => exact ⟨[], [], rfl, by simp, by simp⟩
  | append_singleton before p ih =>
      rw [lineStartBehind, List.foldl_append] at start
      cases p with
      | token kind chars => cases start
      | gap kind chars =>
          cases kind with
          | newline => exact ⟨before ++ [.gap .newline chars], [], by simp, by simp, by simp⟩
          | blank | lineComment | blockComment | directive => exact (ih start).concat_gap _ _

end ProtocolFakes
