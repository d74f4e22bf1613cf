import ProtocolFakes.Proofs.Token.Scanner.Position

/-!
# Turns inside a piece

Inside a piece the scanner has taken some of its characters, and the cutter would take the others
next (`Inside`).  A turn of the loop that it is in takes more of them, or takes the last ones and
leaves the piece (`turn`): there is one lemma for each loop.
-/

namespace ProtocolFakes

set_option autoImplicit false

open Text (byteLength)

namespace Scanner

variable {source : String} {base : Nat} {before taken : List Char}

/-! ## Inside a piece -/

/-- One turn of the scanner, to the head of a loop. -/
def Next (source : String) (base : Nat) (s t : Scanner) : Prop :=
  step source base s = some (.goOn t)

/-- The scanner at the head of a loop inside a piece, which begins behind `before` and ends in
front of `later`. -/
inductive Inside (source : String) (s : Scanner) (before later : List Char) : Piece → Prop where
  | word {kind : TokenKind} {taken left : List Char}
      (placed : Placed source s.pos before taken (left ++ later))
      (loop : s.loop = .word kind (byteLength before))
      (word : ∀ d ∈ left, continuesWord kind d = true)
      (ends : ∀ d ∈ later.head?, continuesWord kind d = false) :
      Inside source s before later (.token kind (taken ++ left))
  | quoted {taken left : List Char}
      (placed : Placed source s.pos before taken (left ++ later))
      (loop : s.loop = .quoted (byteLength before))
      (scanned : scanQuoted (left ++ later) = (left, later)) :
      Inside source s before later (.token .stringLiteral (taken ++ left))
  /-- Only the line that is being read tells whether it is continued. -/
  | directive {taken left : List Char} {continued : Bool}
      (placed : Placed source s.pos before taken (left ++ later))
      (loop : s.loop = .directive)
      (state : continued = true ↔ EndsInBackslash (before ++ taken))
      (scanned : scanDirective continued (left ++ later) = (left, later)) :
      Inside source s before later (.gap .directive (taken ++ left))

/-- A turn inside a piece goes on inside it, further behind, or leaves it. -/
inductive Turn (source : String) (base : Nat) (s : Scanner) (before later : List Char)
    (q : Piece) : Prop where
  | along {t : Scanner} (next : Next source base s t) (lt : s.pos < t.pos)
      (lineStart : t.lineStart = s.lineStart) (tokens : t.tokens = s.tokens)
      (inside : Inside source t before later q)
  | leaves (next : Next source base s (s.behind base before q))

section Turn

variable {s : Scanner} {left later : List Char}

/-- A turn that only moves the position goes on. -/
theorem Turn.of_moved {q : Piece} {n : Nat}
    (turn : step source base s = some (.goOn { s with pos := n })) (lt : s.pos < n)
    (inside : Inside source { s with pos := n } before later q) :
    Turn source base s before later q :=
  .along turn lt rfl rfl inside

/-- A turn that ends a token leaves it. -/
theorem Turn.of_emit {kind : TokenKind} {n : Nat}
    (turn : step source base s =
      (emit source base kind (byteLength before) { s with pos := n }).map .goOn)
    (placed : Placed source n before taken later) :
    Turn source base s before later (.token kind taken) := by
  refine .leaves ?_
  rw [Next, turn, emit_eq placed]
  rfl

/-! ## Words -/

theorem turn_word {kind : TokenKind} (placed : Placed source s.pos before taken (left ++ later))
    (loop : s.loop = .word kind (byteLength before))
    (word : ∀ d ∈ left, continuesWord kind d = true)
    (ends : ∀ d ∈ later.head?, continuesWord kind d = false) :
    Turn source base s before later (.token kind (taken ++ left)) := by
  have turn : step source base s =
      (stepWord source base kind (byteLength before) s).map .goOn := by
    rw [step, loop]
  cases left with
  | nil =>
      have ended : stepWord source base kind (byteLength before) s =
          emit source base kind (byteLength before) s := by
        rw [stepWord, placed.rest?_eq]
        cases later with
        | nil => rfl
        | cons d later =>
            have stops : continuesWord kind d = false := ends d rfl
            simp [stops]
      rw [ended] at turn
      rw [List.append_nil]
      exact .of_emit turn placed
  | cons d left =>
      have goesOn : continuesWord kind d = true := word d (List.mem_cons_self ..)
      have moved : stepWord source base kind (byteLength before) s =
          some { s with pos := s.pos + d.utf8Size } := by
        rw [stepWord, placed.rest?_eq]
        simp [goesOn]
      have others : ∀ e ∈ left, continuesWord kind e = true := fun e member =>
        word e (List.mem_cons_of_mem _ member)
      rw [moved] at turn
      rw [List.append_cons]
      exact .of_moved turn (Nat.lt_add_of_pos_right d.utf8Size_pos)
        (.word placed.char loop others ends)

/-! ## Quoted texts -/

/-- The rest of a quoted text, by what is taken of it next. -/
inductive QuotedRest (later : List Char) : List Char → Prop where
  | openEnd (newline : ∀ d ∈ later.head?, d = '\n') : QuotedRest later []
  | loneBackslash (last : later = []) : QuotedRest later ['\\']
  | quote : QuotedRest later ['"']
  | escape {d : Char} {rest : List Char} (tail : scanQuoted (rest ++ later) = (rest, later)) :
      QuotedRest later ('\\' :: d :: rest)
  | plain {c : Char} {rest : List Char} (other : c ≠ '\\' ∧ c ≠ '"' ∧ c ≠ '\n')
      (tail : scanQuoted (rest ++ later) = (rest, later)) : QuotedRest later (c :: rest)

theorem quotedRest (scanned : scanQuoted (left ++ later) = (left, later)) :
    QuotedRest later left := by
  have again : ∀ cs, scanQuoted ((scanQuoted cs).1 ++ (scanQuoted cs).2) =
      ((scanQuoted cs).1, (scanQuoted cs).2) := fun cs => by rw [append_scanQuoted]
  generalize left ++ later = text at scanned
  fun_cases scanQuoted text with
  | case1 =>
      obtain ⟨rfl, rfl⟩ := Prod.mk.inj scanned
      exact .openEnd (by simp)
  | case2 =>
      obtain ⟨rfl, rfl⟩ := Prod.mk.inj scanned
      exact .loneBackslash rfl
  | case3 d cs =>
      rw [scanQuoted] at scanned
      obtain ⟨rfl, rfl⟩ := Prod.mk.inj scanned
      exact .escape (again cs)
  | case4 cs =>
      rw [scanQuoted] at scanned
      obtain ⟨rfl, rfl⟩ := Prod.mk.inj scanned
      exact .quote
  | case5 cs =>
      rw [scanQuoted] at scanned
      obtain ⟨rfl, rfl⟩ := Prod.mk.inj scanned
      exact .openEnd (by simp)
  | case6 c cs notLone notEscape notQuote notNewline =>
      have notBackslash : c ≠ '\\' := ne_backslash_of_not_escape notLone notEscape
      rw [scanQuoted_cons notBackslash notQuote notNewline] at scanned
      obtain ⟨rfl, rfl⟩ := Prod.mk.inj scanned
      exact .plain ⟨notBackslash, notQuote, notNewline⟩ (again cs)

theorem turn_quoted (placed : Placed source s.pos before taken (left ++ later))
    (loop : s.loop = .quoted (byteLength before))
    (scanned : scanQuoted (left ++ later) = (left, later)) :
    Turn source base s before later (.token .stringLiteral (taken ++ left)) := by
  have turn : step source base s = (stepQuoted source base (byteLength before) s).map .goOn := by
    rw [step, loop]
  cases quotedRest scanned with
  | openEnd newline =>
      have ended : stepQuoted source base (byteLength before) s =
          emit source base .stringLiteral (byteLength before) s := by
        rw [stepQuoted, placed.rest?_eq]
        cases later with
        | nil => rfl
        | cons d later =>
            obtain rfl := newline d rfl
            rfl
      rw [ended] at turn
      rw [List.append_nil]
      exact .of_emit turn placed
  | loneBackslash last =>
      subst last
      have next : Placed source (s.pos + 1) before (taken ++ ['\\']) ([] ++ []) := placed.char
      have moved : stepQuoted source base (byteLength before) s =
          some { s with pos := s.pos + 1 } := by
        have nothing : rest? source (s.pos + 1) = some [] := next.rest?_eq
        rw [stepQuoted, placed.rest?_eq]
        simp [nothing]
      have inside : Inside source { s with pos := s.pos + 1 } before []
          (.token .stringLiteral (taken ++ ['\\'] ++ [])) := .quoted next loop rfl
      rw [List.append_nil] at inside
      rw [moved] at turn
      exact .of_moved turn (Nat.lt_succ_self _) inside
  | quote =>
      have next : Placed source (s.pos + 1) before (taken ++ ['"']) later := placed.char
      have ended : stepQuoted source base (byteLength before) s =
          emit source base .stringLiteral (byteLength before) { s with pos := s.pos + 1 } := by
        rw [stepQuoted, placed.rest?_eq]
        rfl
      rw [ended] at turn
      exact .of_emit turn next
  | @escape d rest tail =>
      have first : Placed source (s.pos + 1) before (taken ++ ['\\']) (d :: (rest ++ later)) :=
        placed.char
      have moved : stepQuoted source base (byteLength before) s =
          some { s with pos := s.pos + 1 + d.utf8Size } := by
        rw [stepQuoted, placed.rest?_eq]
        simp [first.rest?_eq]
      rw [moved] at turn
      rw [List.append_cons, List.append_cons]
      exact .of_moved turn (Nat.lt_add_right _ (Nat.lt_succ_self _)) (.quoted first.char loop tail)
  | @plain c rest other tail =>
      have moved : stepQuoted source base (byteLength before) s =
          some { s with pos := s.pos + c.utf8Size } := by
        rw [stepQuoted, placed.rest?_eq]
        simp [other]
      rw [moved] at turn
      rw [List.append_cons]
      exact .of_moved turn (Nat.lt_add_of_pos_right c.utf8Size_pos)
        (.quoted placed.char loop tail)

/-! ## Directives -/

/-- A directive goes on behind a line that is continued, or ends with its last line. -/
theorem scanDirective_cases {front : List Char} {continued : Bool}
    (state : continued = true ↔ EndsInBackslash front)
    (scanned : scanDirective continued (left ++ later) = (left, later)) :
    (∃ line rest, left = line ++ '\n' :: rest ∧ '\n' ∉ line ∧ EndsInBackslash (front ++ line) ∧
        scanDirective false (rest ++ later) = (rest, later)) ∨
      '\n' ∉ left ∧
        (later = [] ∨ (∃ after, later = '\n' :: after) ∧ ¬ EndsInBackslash (front ++ left)) := by
  induction left generalizing front continued with
  | nil => exact .inr ⟨List.not_mem_nil, (continued_of_scanDirective state scanned).2⟩
  | cons c left ih =>
      by_cases newline : c = '\n'
      · subst newline
        obtain ⟨rfl, tail⟩ := scanDirective_newline scanned
        exact .inl ⟨[], left, rfl, List.not_mem_nil, by simpa using state, tail⟩
      · obtain ⟨continued', state', tail⟩ := scanDirective_letter newline state scanned
        rcases ih state' tail with ⟨line, rest, rfl, oneLine, goesOn, tail⟩ | ⟨oneLine, ends⟩
        · refine .inl ⟨c :: line, rest, rfl, ?_, by simpa using goesOn, tail⟩
          exact List.not_mem_cons_of_ne_of_not_mem (Ne.symm newline) oneLine
        · refine .inr ⟨?_, by simpa using ends⟩
          exact List.not_mem_cons_of_ne_of_not_mem (Ne.symm newline) oneLine

theorem turn_directive {continued : Bool}
    (placed : Placed source s.pos before taken (left ++ later)) (loop : s.loop = .directive)
    (state : continued = true ↔ EndsInBackslash (before ++ taken))
    (scanned : scanDirective continued (left ++ later) = (left, later)) :
    Turn source base s before later (.gap .directive (taken ++ left)) := by
  have turn : step source base s = (stepDirective source s).map .goOn := by
    rw [step, loop]
  obtain ⟨line, rest, rfl, oneLine, goesOn, tail⟩ | ⟨oneLine, ends⟩ :=
    scanDirective_cases state scanned
  · rw [List.append_assoc] at placed
    have next := placed.move line
    have moved : stepDirective source s = some { s with pos := s.pos + byteLength line + 1 } := by
      have skipped := skipLine_eq placed oneLine (by simp)
      have continued : endsInBackslash (before ++ (taken ++ line)) = true := by
        rw [endsInBackslash_eq_true_iff, ← List.append_assoc]
        exact goesOn
      have inside : s.pos + byteLength line < source.utf8ByteSize := next.lt_iff.2 (by simp)
      rw [stepDirective, skipped]
      simp only [bind, Option.bind, next.split, continued, inside, and_self, if_true]
      rfl
    -- The newline is no backslash, so the next line is not continued yet.
    have fresh : false = true ↔ EndsInBackslash (before ++ (taken ++ line ++ ['\n'])) := by
      rw [← List.append_assoc, endsInBackslash_concat]
      simp
    have whole : taken ++ (line ++ '\n' :: rest) = taken ++ line ++ ['\n'] ++ rest := by simp
    rw [moved] at turn
    rw [whole]
    exact .of_moved turn (Nat.lt_succ_of_le (Nat.le_add_right ..))
      (.directive next.char loop fresh tail)
  · have next := placed.move left
    have first : ∀ d ∈ later.head?, d = '\n' := by
      rcases ends with rfl | ⟨⟨after, rfl⟩, -⟩ <;> simp
    have ended : stepDirective source s =
        some { s with pos := s.pos + byteLength left, loop := .between } := by
      have skipped := skipLine_eq placed oneLine first
      have stops : ¬ (endsInBackslash (before ++ (taken ++ left)) = true ∧
          s.pos + byteLength left < source.utf8ByteSize) := by
        rw [endsInBackslash_eq_true_iff, ← List.append_assoc, next.lt_iff]
        rintro ⟨continued, inside⟩
        rcases ends with rfl | ⟨-, notContinued⟩
        · exact inside rfl
        · exact notContinued continued
      rw [stepDirective, skipped]
      simp only [bind, Option.bind, next.split, if_neg stops]
      rfl
    refine .leaves ?_
    rw [Next, turn, ended, behind_gap, next.pos_eq]
    rfl

/-! ## Every loop -/

/-- **A turn inside a piece goes on inside it, or leaves it.** -/
theorem turn {q : Piece} (inside : Inside source s before later q) :
    Turn source base s before later q := by
  cases inside with
  | word placed loop word ends => exact turn_word placed loop word ends
  | quoted placed loop scanned => exact turn_quoted placed loop scanned
  | directive placed loop state scanned => exact turn_directive placed loop state scanned

end Turn

end Scanner

end ProtocolFakes
