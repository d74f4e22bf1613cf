import ProtocolFakes.Proofs.Text.Search
import ProtocolFakes.Text.Blank

/-!
# Words of a text

The words of a text are not empty and have no blanks (`isWord_of_mem_words`).  A blank ends a
word, so the words of a text with a blank in it are those in front of the blank and those behind
it (`words_append_blank`), and words that are joined by spaces are the words of the joined text
(`words_intercalate`).

What a text begins with belongs to its first word and what it ends with to its last one
(`exists_words_append_eq_cons`, `exists_words_append_eq_concat`).  A pattern without blanks
occurs in a text exactly if it occurs in one of its words (`infix_iff_of_isWord`).

A word at either end of a text stays there when the text is trimmed
(`IsWord.trimStart_append`, `IsWord.trimEnd_append`).
-/

namespace ProtocolFakes.Text

set_option autoImplicit false

/-- One word: a text that is not empty and has no blanks. -/
structure IsWord (word : List Char) : Prop where
  ne_nil : word ≠ []
  not_blank : ∀ c ∈ word, isBlank c = false

instance (word : List Char) : Decidable (IsWord word) :=
  decidable_of_iff (word ≠ [] ∧ word.all (!isBlank ·) = true)
    ⟨fun ⟨ne, visible⟩ => ⟨ne, by simpa using visible⟩,
      fun isWord => ⟨isWord.ne_nil, by simpa using isWord.not_blank⟩⟩

theorem isWord_cons {c : Char} {cs : List Char} (first : isBlank c = false)
    (later : ∀ d ∈ cs, isBlank d = false) : IsWord (c :: cs) :=
  ⟨List.cons_ne_nil c cs, List.forall_mem_cons.2 ⟨first, later⟩⟩

/-! ## Reading words -/

/-- What has no blanks is added to the word under way. -/
theorem wordsFrom_append_of_not_blank {front : List Char} (free : ∀ c ∈ front, isBlank c = false)
    (word rest : List Char) : wordsFrom word (front ++ rest) = wordsFrom (word ++ front) rest := by
  induction front generalizing word with
  | nil => rw [List.nil_append, List.append_nil]
  | cons c front ih =>
      rw [List.cons_append, wordsFrom_cons, if_neg (by simp [free c (List.mem_cons_self ..)]),
        ih fun d member => free d (List.mem_cons_of_mem _ member), List.append_assoc,
        List.singleton_append]

theorem wordsFrom_append_blank {c : Char} (blank : isBlank c = true) (word cs ds : List Char) :
    wordsFrom word (cs ++ c :: ds) = wordsFrom word cs ++ words ds := by
  induction cs generalizing word with
  | nil =>
      rw [List.nil_append, wordsFrom_cons, wordsFrom_nil, if_pos blank, words]
      split <;> rfl
  | cons d cs ih =>
      rw [List.cons_append, wordsFrom_cons, wordsFrom_cons]
      split
      · split
        · exact ih []
        · rw [ih [], List.cons_append]
      · exact ih (word ++ [d])

/-- **A blank ends a word.** -/
theorem words_append_blank {c : Char} (blank : isBlank c = true) (cs ds : List Char) :
    words (cs ++ c :: ds) = words cs ++ words ds := wordsFrom_append_blank blank [] cs ds

/-- A word is the only word of itself. -/
theorem IsWord.words_eq {word : List Char} (isWord : IsWord word) : words word = [word] := by
  have read := wordsFrom_append_of_not_blank isWord.not_blank [] []
  rw [List.append_nil, List.nil_append, wordsFrom_nil,
    if_neg (by simpa using isWord.ne_nil)] at read
  exact read

theorem isWord_of_mem_wordsFrom {word cs w : List Char} (free : ∀ c ∈ word, isBlank c = false)
    (member : w ∈ wordsFrom word cs) : IsWord w := by
  fun_induction wordsFrom word cs with
  | case1 word empty => cases member
  | case2 word filled =>
      obtain rfl := List.mem_singleton.1 member
      exact ⟨by simpa using filled, free⟩
  | case3 word c cs blank empty ih => exact ih (by simp) member
  | case4 word c cs blank filled ih =>
      rcases List.mem_cons.1 member with rfl | later
      · exact ⟨by simpa using filled, free⟩
      · exact ih (by simp) later
  | case5 word c cs notBlank ih =>
      refine ih ?_ member
      intro d inside
      rcases List.mem_append.1 inside with old | new
      · exact free d old
      · rw [List.mem_singleton.1 new]
        simpa using notBlank

/-- **The words of a text are words.** -/
theorem isWord_of_mem_words {cs w : List Char} (member : w ∈ words cs) : IsWord w :=
  isWord_of_mem_wordsFrom (by simp) member

/-- **Words that are joined by spaces are read again.** -/
theorem words_intercalate {ws : List (List Char)} (all : ∀ w ∈ ws, IsWord w) :
    words ([' '].intercalate ws) = ws := by
  induction ws with
  | nil => rfl
  | cons w ws ih =>
      have first := (all w (List.mem_cons_self ..)).words_eq
      have later := ih fun v member => all v (List.mem_cons_of_mem _ member)
      cases ws with
      | nil => rw [List.intercalate_singleton, first]
      | cons v ws =>
          rw [List.intercalate_cons_cons, List.append_assoc, List.singleton_append,
            words_append_blank (by decide), first, later, List.singleton_append]

/-! ## The first word and the last one -/

theorem exists_wordsFrom_eq_cons {word : List Char} (ne : word ≠ []) (cs : List Char) :
    ∃ w ws, wordsFrom word cs = (word ++ w) :: ws := by
  induction cs generalizing word with
  | nil => exact ⟨[], [], by rw [wordsFrom_nil, if_neg (by simpa using ne), List.append_nil]⟩
  | cons c cs ih =>
      rw [wordsFrom_cons]
      split
      · exact ⟨[], wordsFrom [] cs, by rw [if_neg (by simpa using ne), List.append_nil]⟩
      · obtain ⟨w, ws, read⟩ := ih (List.append_ne_nil_of_left_ne_nil ne [c])
        exact ⟨c :: w, ws, by rw [read, List.append_assoc, List.singleton_append]⟩

/-- **What a text begins with is part of its first word.** -/
theorem exists_words_append_eq_cons {front : List Char} (isWord : IsWord front)
    (back : List Char) : ∃ w ws, words (front ++ back) = (front ++ w) :: ws := by
  rw [words, wordsFrom_append_of_not_blank isWord.not_blank, List.nil_append]
  exact exists_wordsFrom_eq_cons isWord.ne_nil back

theorem exists_wordsFrom_append_eq_concat (word front : List Char) :
    ∃ ws w, ∀ back, IsWord back → wordsFrom word (front ++ back) = ws ++ [w ++ back] := by
  induction front generalizing word with
  | nil =>
      refine ⟨[], word, fun back isWord => ?_⟩
      have read := wordsFrom_append_of_not_blank isWord.not_blank word []
      rw [List.append_nil, wordsFrom_nil,
        if_neg (by simpa using fun _ => isWord.ne_nil)] at read
      exact read
  | cons c front ih =>
      by_cases blank : isBlank c = true
      · obtain ⟨ws, w, read⟩ := ih []
        refine ⟨(if word.isEmpty then [] else [word]) ++ ws, w, fun back isWord => ?_⟩
        rw [List.cons_append, wordsFrom_cons, if_pos blank, read back isWord]
        split <;> rfl
      · obtain ⟨ws, w, read⟩ := ih (word ++ [c])
        refine ⟨ws, w, fun back isWord => ?_⟩
        rw [List.cons_append, wordsFrom_cons, if_neg blank, read back isWord]

/-- **What a text ends with is part of its last word**, and the rest of its words depends on
what stands in front alone. -/
theorem exists_words_append_eq_concat (front : List Char) :
    ∃ ws w, ∀ back, IsWord back → words (front ++ back) = ws ++ [w ++ back] :=
  exists_wordsFrom_append_eq_concat [] front

/-- Joined words begin with the first of them. -/
theorem exists_intercalate_cons (w : List Char) (ws : List (List Char)) :
    ∃ back, [' '].intercalate (w :: ws) = w ++ back := by
  cases ws with
  | nil => exact ⟨[], by rw [List.intercalate_singleton, List.append_nil]⟩
  | cons v ws => exact ⟨_, by rw [List.intercalate_cons_cons, List.append_assoc]⟩

/-- A word that is joined to others stands behind a space. -/
theorem intercalate_concat {ws : List (List Char)} (ne : ws ≠ []) (w : List Char) :
    [' '].intercalate (ws ++ [w]) = [' '].intercalate ws ++ ' ' :: w := by
  induction ws with
  | nil => exact absurd rfl ne
  | cons v ws ih =>
      cases ws with
      | nil => simp [List.intercalate_cons_cons]
      | cons u ws =>
          have later := ih (List.cons_ne_nil u ws)
          rw [List.cons_append] at later
          rw [List.cons_append, List.cons_append, List.intercalate_cons_cons, later,
            List.intercalate_cons_cons]
          simp only [List.append_assoc]

/-- Joined words end with the last of them. -/
theorem exists_intercalate_concat (ws : List (List Char)) :
    ∃ front, ∀ w, [' '].intercalate (ws ++ [w]) = front ++ w := by
  by_cases ne : ws = []
  · exact ⟨[], fun w => by rw [ne, List.nil_append, List.intercalate_singleton, List.nil_append]⟩
  · exact ⟨[' '].intercalate ws ++ [' '], fun w => by
      rw [intercalate_concat ne, List.append_assoc, List.singleton_append]⟩

/-! ## Trimming -/

/-- A word at the beginning of a text stays there. -/
theorem IsWord.trimStart_append {word : List Char} (isWord : IsWord word) (cs : List Char) :
    trimStart (word ++ cs) = word ++ cs := by
  obtain ⟨c, word, rfl⟩ := List.exists_cons_of_ne_nil isWord.ne_nil
  have visible := isWord.not_blank c (List.mem_cons_self ..)
  rw [trimStart, List.cons_append, List.dropWhile_cons_of_neg (by simp [visible])]

/-- A word at the end of a text stays there. -/
theorem IsWord.trimEnd_append {word : List Char} (isWord : IsWord word) (cs : List Char) :
    trimEnd (cs ++ word) = cs ++ word := by
  have reversed : IsWord word.reverse :=
    ⟨by simpa using isWord.ne_nil, fun c member => isWord.not_blank c (List.mem_reverse.1 member)⟩
  have stays := reversed.trimStart_append cs.reverse
  rw [trimStart] at stays
  rw [trimEnd, List.reverse_append, stays, List.reverse_append, List.reverse_reverse,
    List.reverse_reverse]

/-- **In front of a word at its end a text is trimmed alone.** -/
theorem IsWord.trim_append {word : List Char} (isWord : IsWord word) (cs : List Char) :
    trim (cs ++ word) = trimStart cs ++ word := by
  have start : trimStart (cs ++ word) = trimStart cs ++ word := by
    rw [trimStart, List.dropWhile_append]
    split
    · rename_i blank
      rw [trimStart, List.isEmpty_iff.1 blank, List.nil_append]
      simpa [trimStart] using isWord.trimStart_append []
    · rfl
  rw [trim, start, isWord.trimEnd_append]

/-! ## Patterns -/

theorem infix_iff_exists_wordsFrom {pattern : List Char} (isWord : IsWord pattern)
    (word cs : List Char) :
    pattern <:+: word ++ cs ↔ ∃ w ∈ wordsFrom word cs, pattern <:+: w := by
  have none : ∀ {v : List Char}, v.isEmpty = true → ¬ pattern <:+: v := by
    intro v empty inside
    rw [List.isEmpty_iff.1 empty, List.infix_nil] at inside
    exact isWord.ne_nil inside
  have separates : ∀ {c : Char} (v ds : List Char), isBlank c = true →
      (pattern <:+: v ++ c :: ds ↔ pattern <:+: v ∨ pattern <:+: ds) := by
    intro c v ds blank
    apply infix_append_cons_iff
    intro member
    rw [isWord.not_blank c member] at blank
    cases blank
  fun_induction wordsFrom word cs with
  | case1 word empty => simpa using none empty
  | case2 word filled => simp
  | case3 word c cs blank empty ih =>
      exact (separates word cs blank).trans ((or_iff_right (none empty)).trans ih)
  | case4 word c cs blank filled ih =>
      simp only [separates word cs blank, List.mem_cons, exists_eq_or_imp, ← ih, List.nil_append]
  | case5 word c cs notBlank ih =>
      rw [List.append_cons]
      exact ih

/-- **A pattern without blanks occurs in a text exactly if it occurs in one of its words.** -/
theorem infix_iff_of_isWord {pattern : List Char} (isWord : IsWord pattern) (cs : List Char) :
    pattern <:+: cs ↔ ∃ w ∈ words cs, pattern <:+: w :=
  infix_iff_exists_wordsFrom isWord [] cs

end ProtocolFakes.Text
