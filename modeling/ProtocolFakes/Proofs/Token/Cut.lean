import ProtocolFakes.Token.Lexer

/-!
# Where a token ends

What a token is depends on what follows it: a word goes on as long as letters do,
and an at sign, a point or a slash looks one or two characters ahead.
`ReadsToken rest kind chars` says, class by class, that `chars` are a token in
front of `rest`, and the cutter reads exactly such tokens (`nextToken_eq_iff`).

A token is read again in front of another text that looks like the old one as far as a
token looks (`LooksAlike`, `ReadsToken.of_looksAlike`).  So does a text that begins as the
old one did and then breaks off at a character that continues no token (`SharesStart`).
Only a quoted text needs more: it must end with its own closing quote (`closesQuote`), or
else it runs on.  In front of less than before, every token is read again, closed or not
(`ReadsToken.of_shorter`).
-/

namespace ProtocolFakes

set_option autoImplicit false

/-! ## Closing quotes -/

/-- Whether a text behind an opening quote ends with the quote that closes it. -/
def closesQuote : List Char → Bool
  | [] => false
  | ['\\'] => false
  | '\\' :: _ :: cs => closesQuote cs
  | '"' :: cs => cs.isEmpty
  | '\n' :: _ => false
  | _ :: cs => closesQuote cs

theorem scanCons_eq_iff {c : Char} {cs rest : List Char} {scan : List Char × List Char} :
    scanCons c scan = (c :: cs, rest) ↔ scan = (cs, rest) := by
  simp [scanCons, Prod.ext_iff]

/-- Inside a quoted text most characters are taken as they are. -/
theorem scanQuoted_cons {c : Char} (notBackslash : c ≠ '\\') (notQuote : c ≠ '"')
    (notNewline : c ≠ '\n') (cs : List Char) :
    scanQuoted (c :: cs) = scanCons c (scanQuoted cs) := by
  rw [scanQuoted]
  all_goals simp_all

/-- A character that begins no escape, whatever stands behind it, is no backslash. -/
theorem ne_backslash_of_not_escape {c : Char} {cs : List Char}
    (notLone : c = '\\' → cs = [] → False)
    (notEscape : ∀ (d : Char) (tail : List Char), c = '\\' → cs = d :: tail → False) :
    c ≠ '\\' := by
  intro same
  cases cs with
  | nil => exact notLone same rfl
  | cons d cs => exact notEscape d cs same rfl

/-- A text that closes its quote is scanned whatever follows it. -/
theorem scanQuoted_append {cs : List Char} (closed : closesQuote cs = true) (rest : List Char) :
    scanQuoted (cs ++ rest) = (cs, rest) := by
  fun_induction closesQuote cs with
  | case1 => cases closed
  | case2 => cases closed
  | case3 d cs ih => simp [scanQuoted, scanCons, ih closed]
  | case4 cs =>
      obtain rfl := List.isEmpty_iff.1 closed
      simp [scanQuoted]
  | case5 => cases closed
  | case6 c cs notLone notEscape notQuote notNewline ih =>
      have notBackslash := ne_backslash_of_not_escape notLone notEscape
      rw [List.cons_append, scanQuoted_cons notBackslash notQuote notNewline, ih closed]
      rfl

/-- A quoted text goes on until its closing quote or a newline. -/
theorem scanQuoted_fst_ne_nil {c : Char} (notNewline : c ≠ '\n') (cs : List Char) :
    (scanQuoted (c :: cs)).1 ≠ [] := by
  intro nothing
  rw [scanQuoted.eq_def] at nothing
  split at nothing <;> simp_all [scanCons]

/-- A quoted text, closed or not, is scanned again where less follows it. -/
theorem scanQuoted_of_shorter {cs a b : List Char} (scanned : scanQuoted (cs ++ a) = (cs, a))
    (less : b <+: a) : scanQuoted (cs ++ b) = (cs, b) := by
  fun_induction closesQuote cs with
  | case1 =>
      -- The scan stopped at once, so what followed was nothing or began with a newline.
      cases b with
      | nil => rfl
      | cons d b =>
          obtain ⟨tail, rfl⟩ := less
          by_cases newline : d = '\n'
          · subst newline
            simp [scanQuoted]
          · exact absurd (congrArg Prod.fst scanned) (scanQuoted_fst_ne_nil newline _)
  | case2 =>
      -- A backslash takes the next character with it, so nothing followed.
      cases a with
      | nil => rw [List.prefix_nil.1 less, scanned]
      | cons d a => simp [scanQuoted, scanCons] at scanned
  | case3 d cs ih =>
      simp only [List.cons_append, scanQuoted, scanCons_eq_iff] at scanned ⊢
      exact ih scanned
  | case4 cs =>
      simp only [List.cons_append, scanQuoted] at scanned ⊢
      obtain rfl : [] = cs := (List.cons.inj (congrArg Prod.fst scanned)).2
      rfl
  | case5 cs => simp [scanQuoted] at scanned
  | case6 c cs notLone notEscape notQuote notNewline ih =>
      have notBackslash := ne_backslash_of_not_escape notLone notEscape
      rw [List.cons_append, scanQuoted_cons notBackslash notQuote notNewline,
        scanCons_eq_iff] at scanned ⊢
      exact ih scanned

/-- Whether a quoted text, with or without an at sign, ends with its closing quote. -/
def isClosedQuote : List Char → Bool
  | '"' :: body => closesQuote body
  | '@' :: '"' :: body => closesQuote body
  | _ => false

/-- Whether a token is whole: a quoted text has its closing quote. -/
def Token.isClosed (t : Token) : Bool :=
  t.kind != .stringLiteral || isClosedQuote t.text.toList

/-! ## Tokens in front of a text -/

/-- The characters of a token of a class, as they are read in front of `rest`. -/
inductive ReadsToken (rest : List Char) : TokenKind → List Char → Prop where
  | identifier {c : Char} {cs : List Char} (start : isIdentStart c = true)
      (word : ∀ d ∈ cs, isIdentContinue d = true)
      (ends : ∀ d ∈ rest.head?, isIdentContinue d = false) :
      ReadsToken rest .identifier (c :: cs)
  | number {c : Char} {cs : List Char} (notWord : isIdentStart c = false)
      (digit : c.isDigit = true) (word : ∀ d ∈ cs, isNumberContinue d = true)
      (ends : ∀ d ∈ rest.head?, isNumberContinue d = false) :
      ReadsToken rest .number (c :: cs)
  | quoted {cs : List Char} (scanned : scanQuoted (cs ++ rest) = (cs, rest)) :
      ReadsToken rest .stringLiteral ('"' :: cs)
  | atQuoted {cs : List Char} (scanned : scanQuoted (cs ++ rest) = (cs, rest)) :
      ReadsToken rest .stringLiteral ('@' :: '"' :: cs)
  | atKeyword {c : Char} {cs : List Char} (start : isIdentStart c = true)
      (word : ∀ d ∈ cs, isIdentContinue d = true)
      (ends : ∀ d ∈ rest.head?, isIdentContinue d = false) :
      ReadsToken rest .atKeyword ('@' :: c :: cs)
  | ellipsis : ReadsToken rest .ellipsis ['.', '.', '.']
  | punct {c : Char} (notWord : isIdentStart c = false) (notDigit : c.isDigit = false)
      (notQuote : c ≠ '"')
      (noName : c = '@' → ∀ d ∈ rest.head?, d ≠ '"' ∧ isIdentStart d = false)
      (noDots : c = '.' → ¬ ['.', '.'] <+: rest) :
      ReadsToken rest .punct [c]

theorem mem_takeWhile {p : Char → Bool} {cs : List Char} :
    ∀ d ∈ cs.takeWhile p, p d = true :=
  List.all_eq_true.1 List.all_takeWhile

theorem head?_dropWhile {p : Char → Bool} {cs : List Char} :
    ∀ d ∈ (cs.dropWhile p).head?, p d = false := by
  intro d member
  have stopped := List.head?_dropWhile_not p cs
  rw [Option.mem_def.1 member] at stopped
  simpa using stopped

/-- A run of characters is taken up to a character of another kind. -/
theorem takeWhile_append_rest {p : Char → Bool} {cs rest : List Char}
    (all : ∀ d ∈ cs, p d = true) (ends : ∀ d ∈ rest.head?, p d = false) :
    (cs ++ rest).takeWhile p = cs ∧ (cs ++ rest).dropWhile p = rest := by
  rw [List.takeWhile_append_of_pos all, List.dropWhile_append_of_pos all]
  cases rest with
  | nil => simp
  | cons d rest =>
      have stops : p d = false := ends d rfl
      simp [stops]

/-- What the cutter takes as a token is one in front of what it leaves. -/
theorem readsToken_nextToken (c : Char) (cs : List Char) :
    ReadsToken (nextToken c cs).2.2 (nextToken c cs).1 (nextToken c cs).2.1 := by
  unfold nextToken
  split
  · rename_i start
    exact .identifier start mem_takeWhile head?_dropWhile
  split
  · rename_i notWord digit
    exact .number (by simpa using notWord) digit mem_takeWhile head?_dropWhile
  rename_i notWord notDigit
  split
  · exact .quoted (by rw [append_scanQuoted])
  · exact .atQuoted (by rw [append_scanQuoted])
  · rename_i d cs notQuote
    split
    · rename_i start
      exact .atKeyword start mem_takeWhile head?_dropWhile
    · rename_i notStart
      refine .punct (by decide) (by decide) (by decide) ?_ fun isPoint => absurd isPoint (by decide)
      intro _ e head
      cases Option.some.inj (Option.mem_def.1 head)
      exact ⟨notQuote, by simpa using notStart⟩
  · exact .ellipsis
  · rename_i c cs notQuote notAtQuote notAt notDots
    refine .punct (by simpa using notWord) (by simpa using notDigit) (fun same => notQuote same)
      ?_ ?_
    · intro same d head
      obtain ⟨rest, split⟩ := List.head?_eq_some_iff.1 (Option.mem_def.1 head)
      exact absurd split (notAt d rest same)
    · intro same dots
      obtain ⟨rest, split⟩ := dots
      exact notDots rest same split.symm

/-- A token in front of a text is what the cutter takes. -/
theorem ReadsToken.nextToken_eq {rest cs : List Char} {kind : TokenKind} {c : Char}
    (reads : ReadsToken rest kind (c :: cs)) :
    nextToken c (cs ++ rest) = (kind, c :: cs, rest) := by
  have quote : isIdentStart '"' = false ∧ '"'.isDigit = false := by decide
  have atSign : isIdentStart '@' = false ∧ '@'.isDigit = false := by decide
  have point : isIdentStart '.' = false ∧ '.'.isDigit = false := by decide
  cases reads with
  | identifier start word ends =>
      obtain ⟨taken, left⟩ := takeWhile_append_rest word ends
      simp [nextToken, start, taken, left]
  | number notWord digit word ends =>
      obtain ⟨taken, left⟩ := takeWhile_append_rest word ends
      simp [nextToken, notWord, digit, taken, left]
  | quoted scanned => simp [nextToken, quote, scanned]
  | atQuoted scanned => simp [nextToken, atSign, scanned]
  | @atKeyword d cs start word ends =>
      obtain ⟨taken, left⟩ := takeWhile_append_rest word ends
      -- The branch of the quoted text behind an at sign is excluded first.
      have notQuote : d ≠ '"' := by
        rintro rfl
        exact absurd start (by decide)
      simp [nextToken, atSign, start, taken, left]
  | ellipsis => simp [nextToken, point]
  | punct notWord notDigit notQuote noName noDots =>
      unfold nextToken
      rw [if_neg (by simp [notWord]), if_neg (by simp [notDigit]), List.nil_append]
      split
      · exact absurd rfl notQuote
      · exact absurd rfl (noName rfl '"' rfl).1
      · rename_i d cs _
        rw [if_neg (by simp [(noName rfl d rfl).2])]
      · rename_i cs
        exact absurd ⟨cs, rfl⟩ (noDots rfl)
      · rfl

/-- **The cutter reads exactly the tokens of the six classes.** -/
theorem nextToken_eq_iff {rest cs : List Char} {kind : TokenKind} {c : Char} :
    nextToken c (cs ++ rest) = (kind, c :: cs, rest) ↔ ReadsToken rest kind (c :: cs) := by
  constructor
  · intro read
    have reads := readsToken_nextToken c (cs ++ rest)
    rwa [read] at reads
  · exact ReadsToken.nextToken_eq

/-! ## The same token in front of another text -/

/-- A text that begins with no character that a token could run on into. -/
def BreaksOff (rest : List Char) : Prop :=
  ∀ d ∈ rest.head?, isIdentContinue d = false ∧ d ≠ '.' ∧ d ≠ '/' ∧ d ≠ '*' ∧ d ≠ '"'

theorem breaksOff_cons {c : Char} (breaks : isIdentContinue c = false ∧ c ≠ '.' ∧ c ≠ '/' ∧
    c ≠ '*' ∧ c ≠ '"') (rest : List Char) : BreaksOff (c :: rest) := by
  intro d head
  cases Option.some.inj (Option.mem_def.1 head)
  exact breaks

/-- Two texts that are alike up to where the second one breaks off. -/
def SharesStart (a b : List Char) : Prop :=
  ∃ p x y, a = p ++ x ∧ b = p ++ y ∧ BreaksOff y

theorem sharesStart_of_breaksOff (a : List Char) {b : List Char} (breaks : BreaksOff b) :
    SharesStart a b := ⟨[], a, b, rfl, rfl, breaks⟩

theorem SharesStart.append {a b : List Char} (shares : SharesStart a b) (cs : List Char) :
    SharesStart (cs ++ a) (cs ++ b) := by
  obtain ⟨p, x, y, rfl, rfl, breaks⟩ := shares
  exact ⟨cs ++ p, x, y, by simp, by simp, breaks⟩

/-- A character in front of the second text is one in front of the first, or it
breaks off. -/
theorem SharesStart.head {a b : List Char} (shares : SharesStart a b) :
    ∀ d ∈ b.head?, d ∈ a.head? ∨
      isIdentContinue d = false ∧ d ≠ '.' ∧ d ≠ '/' ∧ d ≠ '*' ∧ d ≠ '"' := by
  obtain ⟨p, x, y, rfl, rfl, breaks⟩ := shares
  intro d head
  cases p with
  | nil => exact .inr (breaks d head)
  | cons e p => exact .inl head

/-- Two texts that a token in front of them takes for the same: the second one begins as the first
does or breaks off, and it begins with two points only if the first does. -/
structure LooksAlike (a b : List Char) : Prop where
  head : ∀ d ∈ b.head?, d ∈ a.head? ∨
    isIdentContinue d = false ∧ d ≠ '.' ∧ d ≠ '/' ∧ d ≠ '*' ∧ d ≠ '"'
  points : ['.', '.'] <+: b → ['.', '.'] <+: a

theorem SharesStart.looksAlike {a b : List Char} (shares : SharesStart a b) :
    LooksAlike a b where
  head := shares.head
  points := by
    -- Both points lie in the common beginning, because no text breaks off at a point.
    intro points
    obtain ⟨p, x, y, rfl, rfl, breaks⟩ := shares
    obtain ⟨rest, split⟩ := points
    rcases p with _ | ⟨c, _ | ⟨d, p⟩⟩
    · exact absurd rfl (breaks '.' (by rw [← List.nil_append y, ← split]; rfl)).2.1
    · obtain ⟨-, rfl⟩ := List.cons.inj split
      exact absurd rfl (breaks '.' rfl).2.1
    · obtain ⟨rfl, tails⟩ := List.cons.inj split
      obtain ⟨rfl, -⟩ := List.cons.inj tails
      exact ⟨p ++ x, rfl⟩

/-- No token looks further than to a character that is no point. -/
theorem looksAlike_cons {c : Char} (notPoint : c ≠ '.') (a b : List Char) :
    LooksAlike (c :: a) (c :: b) where
  head _ head := .inl head
  points points := absurd (List.cons_prefix_cons.1 points).1.symm notPoint

theorem LooksAlike.append {a b : List Char} (alike : LooksAlike a b) (cs : List Char) :
    LooksAlike (cs ++ a) (cs ++ b) := by
  rcases cs with _ | ⟨c, _ | ⟨d, cs⟩⟩
  · exact alike
  · refine ⟨fun d head => .inl head, fun points => ?_⟩
    obtain ⟨rfl, second⟩ := List.cons_prefix_cons.1 points
    have here : '.' ∈ b.head? := by
      obtain ⟨rest, rfl⟩ := second
      rfl
    obtain ⟨rest, rfl⟩ := List.head?_eq_some_iff.1 ((alike.head '.' here).resolve_right (by simp))
    exact ⟨rest, rfl⟩
  · refine ⟨fun e head => .inl head, fun points => ?_⟩
    obtain ⟨rfl, second⟩ := List.cons_prefix_cons.1 points
    obtain ⟨rfl, -⟩ := List.cons_prefix_cons.1 second
    exact ⟨cs ++ a, rfl⟩

theorem isIdentContinue_of_isIdentStart {c : Char} (start : isIdentStart c = true) :
    isIdentContinue c = true := by
  simp only [isIdentStart, isIdentContinue, Char.isAlphanum, Bool.or_eq_true] at start ⊢
  rcases start with (letter | underscore) | dollar
  · exact .inl (.inl (.inl letter))
  · exact .inl (.inr underscore)
  · exact .inr dollar

theorem isNumberContinue_eq_false {c : Char} (breaks : isIdentContinue c = false)
    (notPoint : c ≠ '.') : isNumberContinue c = false := by
  simp only [isIdentContinue, isNumberContinue, Bool.or_eq_false_iff, beq_eq_false_iff_ne] at *
  exact ⟨breaks.1.1, notPoint⟩

/-- **A token stays one in front of a text that looks alike.** A quoted text has to close its
quote. -/
theorem ReadsToken.of_looksAlike {a b chars : List Char} {kind : TokenKind}
    (reads : ReadsToken a kind chars) (alike : LooksAlike a b)
    (closed : kind = .stringLiteral → isClosedQuote chars = true) :
    ReadsToken b kind chars := by
  have ends : (∀ d ∈ a.head?, isIdentContinue d = false) →
      ∀ d ∈ b.head?, isIdentContinue d = false := by
    intro old d head
    rcases alike.head d head with same | breaks
    · exact old d same
    · exact breaks.1
  cases reads with
  | identifier start word old => exact .identifier start word (ends old)
  | number notWord digit word old =>
      refine .number notWord digit word ?_
      intro d head
      rcases alike.head d head with same | breaks
      · exact old d same
      · exact isNumberContinue_eq_false breaks.1 breaks.2.1
  | quoted scanned => exact .quoted (scanQuoted_append (closed rfl) b)
  | atQuoted scanned => exact .atQuoted (scanQuoted_append (closed rfl) b)
  | atKeyword start word old => exact .atKeyword start word (ends old)
  | ellipsis => exact .ellipsis
  | punct notWord notDigit notQuote noName noDots =>
      refine .punct notWord notDigit notQuote ?_ fun isPoint => mt alike.points (noDots isPoint)
      intro isAt d head
      rcases alike.head d head with same | breaks
      · exact noName isAt d same
      · refine ⟨breaks.2.2.2.2, ?_⟩
        cases start : isIdentStart d with
        | false => rfl
        | true => simp [isIdentContinue_of_isIdentStart start] at breaks

/-! ## The same token in front of less -/

theorem mem_head?_of_shorter {a b : List Char} (less : b <+: a) {d : Char} (head : d ∈ b.head?) :
    d ∈ a.head? := by
  obtain ⟨tail, rfl⟩ := less
  cases b with
  | nil => cases head
  | cons c b => exact head

/-- **A token stays one where less follows it**, closed or not. -/
theorem ReadsToken.of_shorter {a b chars : List Char} {kind : TokenKind}
    (reads : ReadsToken a kind chars) (less : b <+: a) : ReadsToken b kind chars := by
  have head : ∀ d ∈ b.head?, d ∈ a.head? := fun d member => mem_head?_of_shorter less member
  cases reads with
  | identifier start word ends =>
      exact .identifier start word fun d member => ends d (head d member)
  | number notWord digit word ends =>
      exact .number notWord digit word fun d member => ends d (head d member)
  | quoted scanned => exact .quoted (scanQuoted_of_shorter scanned less)
  | atQuoted scanned => exact .atQuoted (scanQuoted_of_shorter scanned less)
  | atKeyword start word ends =>
      exact .atKeyword start word fun d member => ends d (head d member)
  | ellipsis => exact .ellipsis
  | punct notWord notDigit notQuote noName noDots =>
      exact .punct notWord notDigit notQuote (fun isAt d member => noName isAt d (head d member))
        fun isPoint dots => noDots isPoint (dots.trans less)

end ProtocolFakes
