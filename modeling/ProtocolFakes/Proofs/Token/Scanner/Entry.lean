import ProtocolFakes.Proofs.Token.Scanner.Turn

/-!
# Turns in front of a piece

In front of a piece the first turn of the scanner enters the loop that goes along it, or passes
all of it at once (`entry`).  The cases are those of the cutter: `ReadsGap` for gaps and
`ReadsToken` for tokens.
-/

namespace ProtocolFakes

set_option autoImplicit false

open Text (byteLength)

namespace Scanner

variable {source : String} {base : Nat} {before taken rest : List Char}

/-! ## In front of a piece -/

/-- The first turn of a piece enters it, or passes all of it. -/
inductive Entry (source : String) (base : Nat) (s : Scanner) (before later : List Char)
    (q : Piece) : Prop where
  | enters {t : Scanner} (next : Next source base s t)
      (lineStart : t.lineStart = q.lineStartAfter s.lineStart) (tokens : t.tokens = s.tokens)
      (inside : Inside source t before later q)
  | passes (next : Next source base s
      ({ s with lineStart := q.lineStartAfter s.lineStart }.behind base before q))

section Entry

variable {s : Scanner} {c : Char} {cs later : List Char}

theorem step_between (placed : Placed source s.pos before taken (c :: rest))
    (loop : s.loop = .between) :
    step source base s = (beginPiece source base c s).map .goOn := by
  rw [step, loop, placed.rest?_eq]
  rfl

/-- A gap that is skipped at once is passed. -/
theorem Entry.of_gap {kind : GapKind} {chars : List Char} (n : Nat) (lineStart : Bool)
    (placed : Placed source s.pos before [] (c :: rest)) (loop : s.loop = .between)
    (begun : beginPiece source base c s =
      some { s with pos := s.pos + n, lineStart := lineStart })
    (length : n = byteLength chars)
    (same : lineStart = (Piece.gap kind chars).lineStartAfter s.lineStart) :
    Entry source base s before later (.gap kind chars) := by
  have start : s.pos = byteLength before := placed.pos_eq
  refine .passes ?_
  rw [Next, step_between placed loop, begun, behind_gap, ← start, ← length, ← loop, ← same]
  rfl

theorem entry_gap {kind : GapKind} {chars : List Char}
    (placed : Placed source s.pos before [] (chars ++ later)) (loop : s.loop = .between)
    (reads : ReadsGap s.lineStart later kind chars) :
    Entry source base s before later (.gap kind chars) := by
  cases reads with
  | newline => exact .of_gap 1 true placed loop rfl rfl rfl
  | @blank c notNewline isBlank =>
      refine .of_gap c.utf8Size s.lineStart placed loop ?_ rfl rfl
      rw [beginPiece, if_neg notNewline, if_pos isBlank]
  | @lineComment cs oneLine ends =>
      have second : byteAt? source (s.pos + 1) = some '/'.toUInt8 :=
        (placed.byteAt?_eq (by decide)).2 rfl
      refine .of_gap (byteLength ('/' :: '/' :: cs)) s.lineStart placed loop ?_ rfl rfl
      have skipped := skipLine_eq placed (by simpa using fun member => oneLine _ member rfl) ends
      rw [beginPiece, if_neg (by decide), if_neg (by decide), if_pos ⟨rfl, second⟩, skipped]
  | @blockComment cs scanned =>
      have second : byteAt? source (s.pos + 1) = some '*'.toUInt8 :=
        (placed.byteAt?_eq (by decide)).2 rfl
      have notLine : ¬ ('/' = '/' ∧ byteAt? source (s.pos + 1) = some '/'.toUInt8) := by
        rw [second]
        decide
      have length : 2 + byteLength cs = byteLength ('/' :: '*' :: cs) := Nat.add_assoc 1 1 _
      refine .of_gap (2 + byteLength cs) s.lineStart placed loop ?_ length rfl
      rw [beginPiece, if_neg (by decide), if_neg (by decide), if_neg notLine, if_pos ⟨rfl, second⟩,
        skipBlockComment_eq placed scanned]
  | @directive cs start scanned =>
      refine .enters (t := { s with loop := .directive }) ?_ rfl rfl ?_
      · rw [Next, step_between placed loop, beginPiece, if_neg (by decide), if_neg (by decide),
          if_neg (by simp), if_neg (by simp), if_pos ⟨rfl, start⟩]
        rfl
      · have state : endsInBackslash before = true ↔ EndsInBackslash (before ++ []) := by
          rw [endsInBackslash_eq_true_iff, List.append_nil]
        -- The hash sign is no backslash, so what stands in front of it does not count.
        have fromHash : scanDirective (endsInBackslash before) ('#' :: (cs ++ later)) =
            ('#' :: cs, later) := by
          rw [scanDirective, if_neg (by decide), if_neg (by decide), scanCons_eq_iff]
          exact scanned
        change Inside source _ before later (.gap .directive ([] ++ '#' :: cs))
        exact .directive placed rfl state fromHash

theorem beginPiece_of_startsToken (placed : Placed source s.pos before [] (c :: rest))
    (starts : StartsToken s.lineStart c rest) :
    beginPiece source base c s = beginToken source base c { s with lineStart := false } := by
  have notComment : ∀ a : Char, a.toNat < 128 ∧ (a = '/' ∨ a = '*') →
      ¬ (c = '/' ∧ byteAt? source (s.pos + 1) = some a.toUInt8) := by
    rintro a ⟨ascii, mark⟩ ⟨rfl, second⟩
    have head := (placed.byteAt?_eq ⟨by decide, ascii⟩).1 second
    have other := starts.not_comment rfl a head
    rcases mark with rfl | rfl
    · exact other.1 rfl
    · exact other.2 rfl
  have notDirective : ¬ (c = '#' ∧ s.lineStart = true) := by
    rintro ⟨hash, start⟩
    rw [starts.not_directive hash] at start
    cases start
  rw [beginPiece, if_neg starts.not_newline, if_neg (by simp [starts.not_blank]),
    if_neg (notComment _ (by decide)), if_neg (notComment _ (by decide)), if_neg notDirective]

/-- A character that begins no longer token is one by itself. -/
theorem beginToken_of_punct (placed : Placed source s.pos before [] (c :: rest))
    (notWord : isIdentStart c = false) (notDigit : c.isDigit = false) (notQuote : c ≠ '"')
    (noName : c = '@' → ∀ d ∈ rest.head?, d ≠ '"' ∧ isIdentStart d = false)
    (noDots : c = '.' → ¬ ['.', '.'] <+: rest) :
    beginToken source base c { s with lineStart := false } = emit source base .punct s.pos
      { s with pos := s.pos + byteLength [c], lineStart := false } := by
  have notAtQuote : ¬ (c = '@' ∧ byteAt? source (s.pos + 1) = some '"'.toUInt8) := by
    rintro ⟨rfl, second⟩
    exact (noName rfl '"' ((placed.byteAt?_eq (by decide)).1 second)).1 rfl
  have notAtName : ¬ (c = '@' ∧
      ((rest? source (s.pos + 1)).bind (·.head?)).any isIdentStart = true) := by
    rintro ⟨rfl, name⟩
    have next : Placed source (s.pos + 1) before ['@'] rest := placed.move ['@']
    rw [next.rest?_eq, Option.bind_some, Option.any_eq_true] at name
    obtain ⟨d, head, isStart⟩ := name
    rw [(noName rfl d head).2] at isStart
    cases isStart
  rw [beginToken, if_neg (by simp [notWord]), if_neg (by simp [notDigit]), if_neg notQuote,
    if_neg notAtQuote, if_neg notAtName]
  split
  · rename_i point
    subst point
    have dots : ['.', '.', '.'].isPrefixOf ('.' :: rest) = false := by
      rw [Bool.eq_false_iff, ne_eq, List.isPrefixOf_iff_prefix]
      exact fun dots => noDots rfl (List.cons_prefix_cons.1 dots).2
    have here : rest? source s.pos = some ('.' :: rest) := placed.rest?_eq
    simp only [bind, Option.bind, here, dots]
    rfl
  · rfl

/-- A token of fixed length is passed. -/
theorem entry_of_emit {kind : TokenKind} {chars : List Char}
    (turn : step source base s = (emit source base kind s.pos
      { s with pos := s.pos + byteLength chars, lineStart := false }).map .goOn)
    (placed : Placed source s.pos before [] (chars ++ later)) :
    Entry source base s before later (.token kind chars) := by
  have start : s.pos = byteLength before := placed.pos_eq
  have next : Placed source (s.pos + byteLength chars) before chars later := placed.move chars
  have emitted : emit source base kind (byteLength before)
      { s with pos := s.pos + byteLength chars, lineStart := false } = _ := emit_eq next kind
  rw [← start] at emitted
  refine .passes ?_
  rw [Next, turn, emitted]
  rfl

/-- A word that is entered at its beginning or behind an at sign. -/
theorem entry_of_word {kind : TokenKind} (taken left : List Char)
    (turn : step source base s = some (.goOn
      { s with pos := s.pos + byteLength taken, lineStart := false, loop := .word kind s.pos }))
    (placed : Placed source s.pos before [] (taken ++ (left ++ later)))
    (word : ∀ d ∈ left, continuesWord kind d = true)
    (ends : ∀ d ∈ later.head?, continuesWord kind d = false) :
    Entry source base s before later (.token kind (taken ++ left)) := by
  have start : s.pos = byteLength before := placed.pos_eq
  have next : Placed source (s.pos + byteLength taken) before taken (left ++ later) :=
    placed.move taken
  exact .enters turn rfl rfl (.word next (congrArg (Loop.word kind) start) word ends)

/-- A quoted text that is entered behind its opening quote. -/
theorem entry_of_quoted (taken left : List Char)
    (turn : step source base s = some (.goOn
      { s with pos := s.pos + byteLength taken, lineStart := false, loop := .quoted s.pos }))
    (placed : Placed source s.pos before [] (taken ++ (left ++ later)))
    (scanned : scanQuoted (left ++ later) = (left, later)) :
    Entry source base s before later (.token .stringLiteral (taken ++ left)) := by
  have start : s.pos = byteLength before := placed.pos_eq
  have next : Placed source (s.pos + byteLength taken) before taken (left ++ later) :=
    placed.move taken
  exact .enters turn rfl rfl (.quoted next (congrArg Loop.quoted start) scanned)

theorem entry_token {kind : TokenKind}
    (placed : Placed source s.pos before [] (c :: cs ++ later)) (loop : s.loop = .between)
    (starts : StartsToken s.lineStart c (cs ++ later)) (reads : ReadsToken later kind (c :: cs)) :
    Entry source base s before later (.token kind (c :: cs)) := by
  have turn : step source base s =
      (beginToken source base c { s with lineStart := false }).map .goOn := by
    rw [step_between placed loop, beginPiece_of_startsToken placed starts]
  cases reads with
  | identifier isStart word ends =>
      rw [beginToken, if_pos isStart] at turn
      refine entry_of_word [] (c :: cs) turn placed ?_ ends
      exact List.forall_mem_cons.2 ⟨isIdentContinue_of_isIdentStart isStart, word⟩
  | number notWord digit word ends =>
      rw [beginToken, if_neg (by simp [notWord]), if_pos digit] at turn
      refine entry_of_word [] (c :: cs) turn placed ?_ ends
      refine List.forall_mem_cons.2 ⟨?_, word⟩
      simp [continuesWord, isNumberContinue, Char.isAlphanum, digit]
  | quoted scanned => exact entry_of_quoted ['"'] cs turn placed scanned
  | @atQuoted cs scanned =>
      have second : byteAt? source (s.pos + 1) = some '"'.toUInt8 :=
        (placed.byteAt?_eq (by decide)).2 rfl
      rw [beginToken, if_neg (by decide), if_neg (by decide), if_neg (by decide),
        if_pos ⟨rfl, second⟩] at turn
      exact entry_of_quoted ['@', '"'] cs turn placed scanned
  | @atKeyword d cs isStart word ends =>
      have notQuote : ¬ ('@' = '@' ∧ byteAt? source (s.pos + 1) = some '"'.toUInt8) := by
        rw [placed.byteAt?_eq (by decide)]
        rintro ⟨-, head⟩
        obtain rfl := Option.some.inj head
        cases isStart
      have next : Placed source (s.pos + 1) before ['@'] (d :: (cs ++ later)) := placed.move ['@']
      rw [beginToken, if_neg (by decide), if_neg (by decide), if_neg (by decide), if_neg notQuote,
        if_pos ⟨rfl, by simp [next.rest?_eq, isStart]⟩] at turn
      refine entry_of_word ['@'] (d :: cs) turn placed ?_ ends
      exact List.forall_mem_cons.2 ⟨isIdentContinue_of_isIdentStart isStart, word⟩
  | ellipsis =>
      refine entry_of_emit ?_ placed
      rw [turn, beginToken, if_neg (by decide), if_neg (by decide), if_neg (by decide),
        if_neg (by simp), if_neg (by simp), if_pos rfl, placed.rest?_eq]
      rfl
  | punct notWord notDigit notQuote noName noDots =>
      refine entry_of_emit ?_ placed
      rw [turn, beginToken_of_punct placed notWord notDigit notQuote noName noDots]

/-- **The first turn of a piece enters it, or passes all of it.** -/
theorem entry {q : Piece} (placed : Placed source s.pos before [] (q.chars ++ later))
    (loop : s.loop = .between) (reads : q.ReadAt s.lineStart later) :
    Entry source base s before later q := by
  cases q with
  | token kind chars =>
      obtain ⟨c, cs, split, -⟩ := id reads
      obtain rfl : chars = c :: cs := split
      obtain ⟨starts, token⟩ := Piece.readAt_token_iff.1 reads
      exact entry_token placed loop starts token
  | gap kind chars => exact entry_gap placed loop (Piece.readAt_gap_iff.1 reads)

end Entry

end Scanner

end ProtocolFakes
