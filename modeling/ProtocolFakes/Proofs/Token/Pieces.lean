import ProtocolFakes.Proofs.Token.Cut

/-!
# Texts cut into pieces

`Cuts lineStart qs rest` says that each of the pieces `qs` is what the cutter takes
at its place, with the pieces behind it and then `rest` to follow.  Such pieces are
the beginning of any text they spell (`Cuts.piecesFrom_eq`), and the pieces of a
text are cut everywhere (`cuts_of_piecesFrom`).

What follows may be exchanged.  A token is read again where the new text looks like
the old one (`Piece.ReadAt.of_looksAlike`).  A gap is read again in front of
any text that is not empty, provided a newline stays a newline
(`Piece.ReadAt.gap_of_ne_nil`): a block comment that something follows has been
closed, and the other comments end at a newline.  Pieces that end with a token are all
read again where less follows them (`Cuts.of_shorter`).
-/

namespace ProtocolFakes

set_option autoImplicit false

/-! ## One piece -/

/-- A piece that the cutter takes in front of `rest`. -/
def Piece.ReadAt (lineStart : Bool) (q : Piece) (rest : List Char) : Prop :=
  ∃ c cs, q.chars = c :: cs ∧ nextPiece lineStart c (cs ++ rest) = (q, rest)

/-- A character that begins a token in front of `rest`, and no gap. -/
structure StartsToken (lineStart : Bool) (c : Char) (rest : List Char) : Prop where
  not_newline : c ≠ '\n'
  not_blank : Text.isBlank c = false
  not_comment : c = '/' → ∀ d ∈ rest.head?, d ≠ '/' ∧ d ≠ '*'
  not_directive : c = '#' → lineStart = false

theorem nextPiece_of_startsToken {lineStart : Bool} {c : Char} {rest : List Char}
    (starts : StartsToken lineStart c rest) :
    nextPiece lineStart c rest =
      (.token (nextToken c rest).1 (nextToken c rest).2.1, (nextToken c rest).2.2) := by
  obtain ⟨notNewline, notBlank, notComment, notDirective⟩ := starts
  have noLine : ¬ (c = '/' ∧ rest.head? = some '/') := fun ⟨slash, head⟩ =>
    (notComment slash '/' head).1 rfl
  have noBlock : ¬ (c = '/' ∧ rest.head? = some '*') := fun ⟨slash, head⟩ =>
    (notComment slash '*' head).2 rfl
  have noHash : ¬ (c = '#' ∧ lineStart = true) := fun ⟨hash, start⟩ => by
    rw [notDirective hash] at start
    cases start
  rw [nextPiece, if_neg notNewline, if_neg (by simp [notBlank]), if_neg noLine, if_neg noBlock,
    if_neg noHash]

/-- The cutter takes a token only where one starts. -/
theorem startsToken_of_nextPiece {lineStart : Bool} {c : Char} {rest rest' chars : List Char}
    {kind : TokenKind} (read : nextPiece lineStart c rest = (.token kind chars, rest')) :
    StartsToken lineStart c rest ∧ nextToken c rest = (kind, chars, rest') := by
  unfold nextPiece at read
  split at read
  · cases read
  split at read
  · cases read
  split at read
  · cases read
  split at read
  · cases read
  split at read
  · cases read
  rename_i notNewline notBlank noLine noBlock noHash
  have parts : (nextToken c rest).1 = kind ∧ (nextToken c rest).2.1 = chars ∧
      (nextToken c rest).2.2 = rest' := by simpa [and_assoc] using read
  obtain ⟨rfl, rfl, rfl⟩ := parts
  refine ⟨⟨notNewline, by simpa using notBlank, ?_, ?_⟩, rfl⟩
  · intro slash d head
    constructor
    · rintro rfl
      exact noLine ⟨slash, head⟩
    · rintro rfl
      exact noBlock ⟨slash, head⟩
  · intro hash
    simpa [hash] using noHash

/-- **A token is read where it starts, as one of the six classes.** -/
theorem Piece.readAt_token_iff {lineStart : Bool} {kind : TokenKind} {c : Char}
    {cs rest : List Char} :
    (Piece.token kind (c :: cs)).ReadAt lineStart rest ↔
      StartsToken lineStart c (cs ++ rest) ∧ ReadsToken rest kind (c :: cs) := by
  constructor
  · rintro ⟨d, ds, split, read⟩
    obtain ⟨rfl, rfl⟩ := List.cons.inj split
    obtain ⟨starts, token⟩ := startsToken_of_nextPiece read
    exact ⟨starts, nextToken_eq_iff.1 token⟩
  · rintro ⟨starts, reads⟩
    refine ⟨c, cs, rfl, ?_⟩
    rw [nextPiece_of_startsToken starts, nextToken_eq_iff.2 reads]

/-- A character that begins no longer token is a token of its own. -/
theorem ReadsToken.eq_nil {rest cs : List Char} {kind : TokenKind} {c : Char}
    (reads : ReadsToken rest kind (c :: cs)) (notWord : isIdentStart c = false)
    (notDigit : c.isDigit = false) (other : c ≠ '"' ∧ c ≠ '@' ∧ c ≠ '.') : cs = [] := by
  cases reads with
  | identifier start word ends => simp [start] at notWord
  | number _ digit word ends => simp [digit] at notDigit
  | quoted scanned => exact absurd rfl other.1
  | atQuoted scanned => exact absurd rfl other.2.1
  | atKeyword start word ends => exact absurd rfl other.2.1
  | ellipsis => exact absurd rfl other.2.2
  | punct _ _ notQuote noName noDots => rfl

/-- **A token is read again where the text behind it looks alike.** -/
theorem Piece.ReadAt.of_looksAlike {lineStart lineStart' : Bool} {kind : TokenKind}
    {chars a b : List Char} (read : (Piece.token kind chars).ReadAt lineStart a)
    (alike : LooksAlike a b) (closed : kind = .stringLiteral → isClosedQuote chars = true)
    (hash : chars.head? = some '#' → lineStart' = false) :
    (Piece.token kind chars).ReadAt lineStart' b := by
  obtain ⟨c, cs, split, _⟩ := id read
  obtain rfl : chars = c :: cs := split
  obtain ⟨starts, reads⟩ := readAt_token_iff.1 read
  refine readAt_token_iff.2 ⟨⟨starts.not_newline, starts.not_blank, ?_, ?_⟩,
    reads.of_looksAlike alike closed⟩
  · rintro rfl
    obtain rfl := reads.eq_nil (by decide) (by decide) (by decide)
    intro d head
    rcases alike.head d head with same | breaks
    · exact starts.not_comment rfl d same
    · exact ⟨breaks.2.2.1, breaks.2.2.2.1⟩
  · rintro rfl
    exact hash rfl

/-- Only a hash sign asks whether a preprocessor line may begin. -/
theorem Piece.ReadAt.of_lineStart {lineStart lineStart' : Bool} {kind : TokenKind}
    {chars a : List Char} (read : (Piece.token kind chars).ReadAt lineStart a)
    (hash : chars.head? = some '#' → lineStart' = false) :
    (Piece.token kind chars).ReadAt lineStart' a := by
  obtain ⟨c, cs, split, _⟩ := id read
  obtain rfl : chars = c :: cs := split
  obtain ⟨starts, reads⟩ := readAt_token_iff.1 read
  refine readAt_token_iff.2 ⟨⟨starts.not_newline, starts.not_blank, starts.not_comment, ?_⟩, reads⟩
  rintro rfl
  exact hash rfl

/-- **A token is read again where less follows it.** -/
theorem Piece.ReadAt.of_shorter {lineStart : Bool} {kind : TokenKind} {chars a b : List Char}
    (read : (Piece.token kind chars).ReadAt lineStart a) (less : b <+: a) :
    (Piece.token kind chars).ReadAt lineStart b := by
  obtain ⟨c, cs, split, _⟩ := id read
  obtain rfl : chars = c :: cs := split
  obtain ⟨starts, reads⟩ := readAt_token_iff.1 read
  have behind : cs ++ b <+: cs ++ a := (List.prefix_append_right_inj cs).2 less
  refine readAt_token_iff.2 ⟨⟨starts.not_newline, starts.not_blank, ?_, starts.not_directive⟩,
    reads.of_shorter less⟩
  intro slash d head
  exact starts.not_comment slash d (mem_head?_of_shorter behind head)

/-! ## Pieces one after another -/

/-- The characters of pieces, one after another. -/
def spelling (qs : List Piece) : List Char := qs.flatMap Piece.chars

@[simp] theorem spelling_nil : spelling [] = [] := rfl

@[simp] theorem spelling_cons (q : Piece) (qs : List Piece) :
    spelling (q :: qs) = q.chars ++ spelling qs := rfl

@[simp] theorem spelling_append (ps qs : List Piece) :
    spelling (ps ++ qs) = spelling ps ++ spelling qs := List.flatMap_append

/-- The pieces of a source spell it. -/
@[simp] theorem spelling_pieces (source : List Char) : spelling (pieces source) = source :=
  flatten_pieces source

/-- Whether a preprocessor line may begin behind pieces. -/
def lineStartBehind (lineStart : Bool) (qs : List Piece) : Bool :=
  qs.foldl (fun start q => q.lineStartAfter start) lineStart

/-- Pieces that the cutter takes, one after another, in front of `rest`. -/
def Cuts (lineStart : Bool) : List Piece → List Char → Prop
  | [], _ => True
  | q :: qs, rest =>
      q.ReadAt lineStart (spelling qs ++ rest) ∧ Cuts (q.lineStartAfter lineStart) qs rest

theorem cuts_append {lineStart : Bool} {ps qs : List Piece} {rest : List Char} :
    Cuts lineStart (ps ++ qs) rest ↔
      Cuts lineStart ps (spelling qs ++ rest) ∧ Cuts (lineStartBehind lineStart ps) qs rest := by
  induction ps generalizing lineStart with
  | nil => exact ⟨fun cuts => ⟨trivial, cuts⟩, fun cuts => cuts.2⟩
  | cons p ps ih =>
      simp only [List.cons_append, Cuts, ih, spelling_append, List.append_assoc]
      exact (and_assoc).symm

/-- **Pieces that are cut are the beginning of the text they spell.** -/
theorem Cuts.piecesFrom_eq {lineStart : Bool} {qs : List Piece} {rest : List Char}
    (cuts : Cuts lineStart qs rest) :
    piecesFrom lineStart (spelling qs ++ rest) =
      qs ++ piecesFrom (lineStartBehind lineStart qs) rest := by
  induction qs generalizing lineStart with
  | nil => rfl
  | cons q qs ih =>
      obtain ⟨⟨c, cs, split, read⟩, later⟩ := cuts
      have text : spelling (q :: qs) ++ rest = c :: (cs ++ (spelling qs ++ rest)) := by
        simp [split]
      rw [text, piecesFrom]
      simp only [read, ih later]
      rfl

/-- Pieces that are cut from the start of a text to its end are the pieces of that text. -/
theorem Cuts.pieces_eq {qs : List Piece} (cuts : Cuts true qs []) : pieces (spelling qs) = qs := by
  have whole := cuts.piecesFrom_eq
  rwa [List.append_nil, piecesFrom, List.append_nil] at whole

/-- **The pieces of a text are cut**, and so are those behind any of them. -/
theorem cuts_of_piecesFrom {lineStart : Bool} {cs : List Char} {ps qs : List Piece}
    (split : piecesFrom lineStart cs = ps ++ qs) :
    Cuts lineStart ps (spelling qs) ∧
      piecesFrom (lineStartBehind lineStart ps) (spelling qs) = qs := by
  have text : spelling (ps ++ qs) = cs := by rw [← split]; exact flatten_piecesFrom ..
  induction ps generalizing lineStart cs with
  | nil =>
      refine ⟨trivial, ?_⟩
      have same : spelling qs = cs := text
      rw [same]
      exact split
  | cons p ps ih =>
      cases cs with
      | nil => rw [piecesFrom] at split; cases split
      | cons c cs =>
          rw [piecesFrom] at split
          obtain ⟨rfl, later⟩ := List.cons.inj split
          have step := append_nextPiece lineStart c cs
          have rest : spelling (ps ++ qs) = (nextPiece lineStart c cs).2 := by
            rw [List.cons_append, spelling_cons, ← step] at text
            exact List.append_cancel_left text
          obtain ⟨cuts, behind⟩ := ih later rest
          refine ⟨⟨?_, cuts⟩, behind⟩
          have ne := nextPiece_chars_ne_nil lineStart c cs
          obtain ⟨d, ds, chars⟩ := List.exists_cons_of_ne_nil ne
          rw [chars, List.cons_append] at step
          obtain ⟨rfl, tail⟩ := List.cons.inj step
          refine ⟨d, ds, chars, ?_⟩
          rw [← spelling_append, rest, tail]

/-- Every piece of a text is read in front of the pieces behind it. -/
theorem readAt_of_piecesFrom {lineStart : Bool} {cs : List Char} {before after : List Piece}
    {p : Piece} (split : piecesFrom lineStart cs = before ++ p :: after) :
    p.ReadAt (lineStartBehind lineStart before) (spelling after) := by
  have behind : piecesFrom (lineStartBehind lineStart before) (spelling (p :: after)) =
      [p] ++ after := (cuts_of_piecesFrom split).2
  exact (cuts_of_piecesFrom behind).1.1

/-- Pieces that begin with a token are cut alike wherever a preprocessor line may begin,
unless they begin with a hash sign. -/
theorem Cuts.of_lineStart {lineStart lineStart' : Bool} {kind : TokenKind} {chars rest : List Char}
    {qs : List Piece} (cuts : Cuts lineStart (.token kind chars :: qs) rest)
    (hash : chars.head? = some '#' → lineStart' = false) :
    Cuts lineStart' (.token kind chars :: qs) rest := ⟨cuts.1.of_lineStart hash, cuts.2⟩

/-! ## Gaps -/

/-- The characters of a gap of a kind, as they are read in front of `rest`. -/
inductive ReadsGap (lineStart : Bool) (rest : List Char) : GapKind → List Char → Prop where
  | newline : ReadsGap lineStart rest .newline ['\n']
  | blank {c : Char} (notNewline : c ≠ '\n') (isBlank : Text.isBlank c = true) :
      ReadsGap lineStart rest .blank [c]
  | lineComment {cs : List Char} (oneLine : ∀ d ∈ cs, d ≠ '\n')
      (ends : ∀ d ∈ rest.head?, d = '\n') :
      ReadsGap lineStart rest .lineComment ('/' :: '/' :: cs)
  | blockComment {cs : List Char} (scanned : scanBlockComment (cs ++ rest) = (cs, rest)) :
      ReadsGap lineStart rest .blockComment ('/' :: '*' :: cs)
  | directive {cs : List Char} (start : lineStart = true)
      (scanned : scanDirective false (cs ++ rest) = (cs, rest)) :
      ReadsGap lineStart rest .directive ('#' :: cs)

/-- What the cutter takes as a gap is one in front of what it leaves. -/
theorem readsGap_of_nextPiece {lineStart : Bool} {c : Char} {rest rest' chars : List Char}
    {kind : GapKind} (read : nextPiece lineStart c rest = (.gap kind chars, rest')) :
    ReadsGap lineStart rest' kind chars := by
  unfold nextPiece at read
  split at read
  · cases read
    exact .newline
  split at read
  · rename_i notNewline isBlank
    cases read
    exact .blank notNewline isBlank
  split at read
  · rename_i isLine
    obtain ⟨rfl, head⟩ := isLine
    obtain ⟨tail, rfl⟩ := List.head?_eq_some_iff.1 head
    cases read
    rw [List.takeWhile_cons_of_pos (by decide), List.dropWhile_cons_of_pos (by decide)]
    apply ReadsGap.lineComment
    · intro d member
      simpa using mem_takeWhile d member
    · intro d head
      simpa using head?_dropWhile d head
  split at read
  · rename_i isBlock
    obtain ⟨rfl, head⟩ := isBlock
    obtain ⟨tail, rfl⟩ := List.head?_eq_some_iff.1 head
    cases read
    exact .blockComment (by rw [List.tail_cons, append_scanBlockComment])
  split at read
  · rename_i isHash
    cases read
    exact .directive isHash.2 (by rw [append_scanDirective])
  · cases read

/-- **A gap is read as one of the five kinds.** -/
theorem Piece.readAt_gap_iff {lineStart : Bool} {kind : GapKind} {chars rest : List Char} :
    (Piece.gap kind chars).ReadAt lineStart rest ↔ ReadsGap lineStart rest kind chars := by
  constructor
  · rintro ⟨c, cs, -, read⟩
    exact readsGap_of_nextPiece read
  · intro reads
    have slash : '/' ≠ '\n' ∧ Text.isBlank '/' = false := by decide
    have hash : '#' ≠ '\n' ∧ Text.isBlank '#' = false ∧ '#' ≠ '/' := by decide
    cases reads with
    | newline => exact ⟨'\n', [], rfl, rfl⟩
    | @blank c notNewline isBlank =>
        exact ⟨c, [], rfl, by simp [nextPiece, notNewline, isBlank]⟩
    | @lineComment cs oneLine ends =>
        have run : ('/' :: cs ++ rest).takeWhile (· ≠ '\n') = '/' :: cs ∧
            ('/' :: cs ++ rest).dropWhile (· ≠ '\n') = rest :=
          takeWhile_append_rest (by simpa using oneLine) (by simpa using ends)
        refine ⟨'/', '/' :: cs, rfl, ?_⟩
        simp only [nextPiece, slash, if_false]
        rw [run.1, run.2]
        simp
    | @blockComment cs scanned =>
        exact ⟨'/', '*' :: cs, rfl, by simp [nextPiece, slash, scanned]⟩
    | @directive cs start scanned =>
        exact ⟨'#', cs, rfl, by simp [nextPiece, hash, start, scanned]⟩

/-- Whether a piece is a gap. -/
def Piece.isGap : Piece → Bool
  | gap .. => true
  | token .. => false

/-- A block comment goes on until its closing mark. -/
theorem scanBlockComment_cons_cons {c d : Char} (goesOn : ¬ (c = '*' ∧ d = '/'))
    (rest : List Char) :
    scanBlockComment (c :: d :: rest) = scanCons c (scanBlockComment (d :: rest)) := by
  rw [scanBlockComment]
  rintro tail rfl same
  exact goesOn ⟨rfl, (List.cons.inj same).1⟩

theorem scanBlockComment_fst_ne_nil {cs : List Char} (ne : cs ≠ []) :
    (scanBlockComment cs).1 ≠ [] := by
  intro nothing
  rw [scanBlockComment.eq_def] at nothing
  split at nothing
  · exact ne rfl
  · cases nothing
  · cases nothing

/-- A block comment that something follows has been closed. -/
theorem scanBlockComment_append {cs a : List Char} (scanned : scanBlockComment (cs ++ a) = (cs, a))
    (followed : a ≠ []) (b : List Char) : scanBlockComment (cs ++ b) = (cs, b) := by
  induction cs with
  | nil => exact absurd (congrArg Prod.fst scanned) (scanBlockComment_fst_ne_nil followed)
  | cons c cs ih =>
      cases cs with
      | nil =>
          -- One character is no closing mark, so the scan would have gone on into `a`.
          obtain ⟨d, ds, rfl⟩ := List.exists_cons_of_ne_nil followed
          rw [List.singleton_append] at scanned
          by_cases closes : c = '*' ∧ d = '/'
          · obtain ⟨rfl, rfl⟩ := closes
            cases scanned
          · rw [scanBlockComment_cons_cons closes] at scanned
            obtain ⟨taken, -⟩ := Prod.mk.inj scanned
            exact absurd (List.cons.inj taken).2 (scanBlockComment_fst_ne_nil followed)
      | cons d cs =>
          by_cases closes : c = '*' ∧ d = '/'
          · obtain ⟨rfl, rfl⟩ := closes
            simp only [List.cons_append, scanBlockComment] at scanned ⊢
            obtain ⟨taken, left⟩ := Prod.mk.inj scanned
            obtain rfl : cs = [] := by simpa using taken.symm
            rfl
          · simp only [List.cons_append, scanBlockComment_cons_cons closes] at scanned ⊢
            obtain ⟨taken, left⟩ := Prod.mk.inj scanned
            have inner : scanBlockComment (d :: cs ++ a) = (d :: cs, a) :=
              Prod.ext (List.cons.inj taken).2 left
            rw [← List.cons_append, ih inner]
            rfl

/-- A preprocessor line that something follows ends at a newline. -/
theorem scanDirective_append {continued : Bool} {cs a : List Char}
    (scanned : scanDirective continued (cs ++ a) = (cs, a)) (followed : a ≠ []) :
    a.head? = some '\n' ∧
      ∀ b, b.head? = some '\n' → scanDirective continued (cs ++ b) = (cs, b) := by
  induction cs generalizing continued with
  | nil =>
      obtain ⟨c, rest, rfl⟩ := List.exists_cons_of_ne_nil followed
      rw [List.nil_append, scanDirective] at scanned
      by_cases newline : c = '\n'
      · cases continued with
        | true => simp [newline, scanCons] at scanned
        | false =>
            refine ⟨by rw [newline]; rfl, ?_⟩
            intro b head
            obtain ⟨tail, rfl⟩ := List.head?_eq_some_iff.1 head
            simp [scanDirective]
      · simp [newline, scanCons] at scanned
  | cons c cs ih =>
      rw [List.cons_append, scanDirective] at scanned
      by_cases newline : c = '\n'
      · cases continued with
        | false => simp [newline] at scanned
        | true =>
            simp only [newline, if_true] at scanned
            obtain ⟨taken, left⟩ := Prod.mk.inj scanned
            obtain ⟨head, again⟩ := ih (Prod.ext (List.cons.inj taken).2 left)
            refine ⟨head, ?_⟩
            intro b bHead
            rw [List.cons_append, scanDirective]
            simp only [newline, if_true, again b bHead]
            rfl
      · simp only [newline, if_false] at scanned
        obtain ⟨taken, left⟩ := Prod.mk.inj scanned
        obtain ⟨head, again⟩ := ih (Prod.ext (List.cons.inj taken).2 left)
        refine ⟨head, ?_⟩
        intro b bHead
        rw [List.cons_append, scanDirective]
        simp only [newline, if_false, again b bHead]
        rfl

/-- **A gap is read again in front of another text**, if what followed it was not
empty and a newline stays a newline. -/
theorem Piece.ReadAt.gap_of_ne_nil {lineStart : Bool} {kind : GapKind} {chars a b : List Char}
    (read : (Piece.gap kind chars).ReadAt lineStart a) (followed : a ≠ [])
    (newline : a.head? = some '\n' → b.head? = some '\n') :
    (Piece.gap kind chars).ReadAt lineStart b := by
  refine readAt_gap_iff.2 ?_
  cases readAt_gap_iff.1 read with
  | newline => exact .newline
  | blank notNewline isBlank => exact .blank notNewline isBlank
  | lineComment oneLine ends =>
      refine .lineComment oneLine ?_
      intro d head
      obtain ⟨c, rest, rfl⟩ := List.exists_cons_of_ne_nil followed
      have isNewline := newline (by rw [ends c rfl]; rfl)
      rw [Option.mem_def.1 head] at isNewline
      exact Option.some.inj isNewline
  | blockComment scanned => exact .blockComment (scanBlockComment_append scanned followed b)
  | directive start scanned =>
      obtain ⟨head, again⟩ := scanDirective_append scanned followed
      exact .directive start (again b (newline head))

/-- Gaps in front of a token are cut in front of any other text as well. -/
theorem Cuts.gaps {lineStart : Bool} {gs : List Piece} {a : List Char}
    (cuts : Cuts lineStart gs a) (gaps : ∀ g ∈ gs, g.isGap = true) (followed : a ≠ [])
    (notNewline : a.head? ≠ some '\n') (b : List Char) : Cuts lineStart gs b := by
  induction gs generalizing lineStart with
  | nil => trivial
  | cons g gs ih =>
      obtain ⟨read, later⟩ := cuts
      refine ⟨?_, ih later fun h member => gaps h (List.mem_cons_of_mem _ member)⟩
      cases g with
      | token kind cs => cases gaps (.token kind cs) (List.mem_cons_self ..)
      | gap kind cs =>
          refine read.gap_of_ne_nil (List.append_ne_nil_of_right_ne_nil _ followed) ?_
          cases spelling gs with
          | nil => exact fun head => absurd head notNewline
          | cons c text => exact id

/-- Gaps alone leave the right to begin with a preprocessor line. -/
theorem lineStartBehind_of_gaps {gs : List Piece} (gaps : ∀ g ∈ gs, g.isGap = true) :
    lineStartBehind true gs = true := by
  induction gs with
  | nil => rfl
  | cons g gs ih =>
      have later := ih fun h member => gaps h (List.mem_cons_of_mem _ member)
      cases g with
      | token kind cs => cases gaps (.token kind cs) (List.mem_cons_self ..)
      | gap kind cs => cases kind <;> exact later

/-! ## Pieces that end with a token -/

/-- Pieces the last of which, if there is one, is a token. -/
def EndsWithToken (qs : List Piece) : Prop := ∀ q ∈ qs.getLast?, q.isGap = false

/-- Behind a token no preprocessor line may begin. -/
theorem EndsWithToken.lineStartBehind_eq {lineStart : Bool} {qs : List Piece}
    (last : EndsWithToken qs) (ne : qs = [] → lineStart = false) :
    lineStartBehind lineStart qs = false := by
  rcases List.eq_nil_or_concat qs with rfl | ⟨ps, q, rfl⟩
  · exact ne rfl
  · rw [List.concat_eq_append] at *
    cases q with
    | token kind cs => exact List.foldl_append
    | gap kind cs => cases last (.gap kind cs) (by simp)

theorem endsWithToken_singleton (kind : TokenKind) (cs : List Char) :
    EndsWithToken [.token kind cs] := by
  intro q member
  cases Option.mem_def.1 member
  rfl

theorem EndsWithToken.append {ps qs : List Piece} (last : EndsWithToken ps)
    (last' : EndsWithToken qs) : EndsWithToken (ps ++ qs) := by
  intro q member
  rw [List.getLast?_append] at member
  rcases Option.or_eq_some_iff.1 (Option.mem_def.1 member) with found | ⟨-, found⟩
  · exact last' q found
  · exact last q found

theorem EndsWithToken.of_append {ps qs : List Piece} (last : EndsWithToken (ps ++ qs)) :
    EndsWithToken qs := by
  intro q member
  refine last q ?_
  rw [List.getLast?_append, Option.mem_def.1 member]
  rfl

/-- **Pieces that end with a token are cut where less follows them.** -/
theorem Cuts.of_shorter {lineStart : Bool} {qs : List Piece} {a b : List Char}
    (cuts : Cuts lineStart qs a) (last : EndsWithToken qs) (less : b <+: a) :
    Cuts lineStart qs b := by
  induction qs generalizing lineStart with
  | nil => trivial
  | cons q qs ih =>
      obtain ⟨read, later⟩ := cuts
      have joined : EndsWithToken ([q] ++ qs) := last
      have lastLater := joined.of_append
      refine ⟨?_, ih later lastLater⟩
      cases q with
      | token kind cs => exact read.of_shorter ((List.prefix_append_right_inj _).2 less)
      | gap kind cs =>
          -- The last piece is a token, so another piece follows, and it is not empty.
          cases qs with
          | nil => cases last (.gap kind cs) rfl
          | cons p ps =>
              obtain ⟨d, ds, chars, -⟩ := later.1
              have text : spelling (p :: ps) = d :: (ds ++ spelling ps) := by simp [chars]
              rw [text] at read ⊢
              exact read.gap_of_ne_nil (List.cons_ne_nil _ _) id

end ProtocolFakes
