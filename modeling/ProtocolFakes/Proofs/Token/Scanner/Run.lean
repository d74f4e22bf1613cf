import Mathlib.Logic.Relation
import ProtocolFakes.Proofs.Token.Scanner.Entry

/-!
# Runs of the scanner

A run of the scanner visits two kinds of heads: in front of the pieces that are still to come, or
inside a piece (`AtHead`).  In both cases the tokens found so far and those of the pieces to come
are the tokens of the source.  A turn keeps this (`AtHead.next`), so it holds wherever the scanner
gets to.  Its position is a boundary of the source (`AtHead.boundary`), so its turn has an outcome
(`AtHead.isSome_step`); a round of the loop between pieces goes forward (`AtHead.pos_lt`), because
no piece is empty; and the run ends (`AtHead.finishes`), by induction on the pieces to come and,
inside a piece, on what is left of it.

Main theorem: `advances`.
-/

namespace ProtocolFakes.Scanner

set_option autoImplicit false

open Text (byteLength)

variable {source : String} {base : Nat} {s t : Scanner} {before later : List Char} {q : Piece}

/-! ## Heads -/

theorem Next.unique {u : Scanner} (next : Next source base s t) (next' : Next source base s u) :
    t = u :=
  Outcome.goOn.inj (Option.some.inj (next.symm.trans next'))

namespace Inside

theorem exists_placed (inside : Inside source s before later q) :
    ∃ taken left, q.chars = taken ++ left ∧ Placed source s.pos before taken (left ++ later) := by
  cases inside with
  | word placed | quoted placed | directive placed => exact ⟨_, _, rfl, placed⟩

theorem loop_ne (inside : Inside source s before later q) : s.loop ≠ .between := by
  cases inside with
  | word placed loop | quoted placed loop | directive placed loop =>
      rw [loop]
      exact Loop.noConfusion

theorem pos_le (inside : Inside source s before later q) :
    s.pos ≤ byteLength before + byteLength q.chars := by
  obtain ⟨taken, left, chars, placed⟩ := inside.exists_placed
  rw [chars, Text.byteLength_append, placed.pos_eq]
  omega

/-- The piece stands where it began. -/
theorem placed (inside : Inside source s before later q) :
    Placed source (byteLength before) before [] (q.chars ++ later) := by
  obtain ⟨taken, left, chars, placed⟩ := inside.exists_placed
  exact ⟨by rw [placed.whole, chars, List.append_assoc, List.nil_append], rfl⟩

end Inside

/-- The scanner in front of the pieces `qs`.  What it has found, with the tokens of these pieces,
are the tokens of the source. -/
structure Between (source : String) (base : Nat) (s : Scanner) (before : List Char)
    (qs : List Piece) : Prop where
  placed : Placed source s.pos before [] (spelling qs)
  loop_eq : s.loop = .between
  cuts : Cuts s.lineStart qs []
  tokens_eq : s.tokens ++ tokensFrom (base + byteLength before) qs = tokenize source base

/-- The scanner at a head that it can be at: in front of pieces, or inside one. -/
inductive AtHead (source : String) (base : Nat) (s : Scanner) : Prop where
  | between {before : List Char} {qs : List Piece} (here : Between source base s before qs)
  | inside {before : List Char} {q : Piece} {qs : List Piece}
      (inside : Inside source s before (spelling qs) q) (cuts : Cuts s.lineStart qs [])
      (tokens : s.tokens ++ tokensFrom (base + byteLength before) (q :: qs) = tokenize source base)

theorem between_initial (source : String) (base : Nat) :
    Between source base initial [] (pieces source.toList) where
  placed := ⟨by rw [spelling_pieces]; rfl, rfl⟩
  loop_eq := rfl
  cuts := (cuts_of_piecesFrom (List.append_nil _).symm).1
  tokens_eq := rfl

/-- Behind a piece the scanner is between pieces again. -/
theorem between_behind {qs : List Piece}
    (placed : Placed source (byteLength before) before [] (q.chars ++ spelling qs))
    (cuts : Cuts s.lineStart qs [])
    (tokens : s.tokens ++ tokensFrom (base + byteLength before) (q :: qs) = tokenize source base) :
    Between source base (s.behind base before q) (before ++ q.chars) qs where
  placed := ⟨by rw [placed.whole]; simp, (Text.byteLength_append ..).symm⟩
  loop_eq := rfl
  cuts := cuts
  tokens_eq := by
    have apart : tokensFrom (base + byteLength before) (q :: qs) =
        tokensFrom (base + byteLength before) [q] ++
          tokensFrom (base + byteLength (before ++ q.chars)) qs := by
      rw [← List.singleton_append, tokensFrom_append, Text.byteLength_append, Nat.add_assoc]
      simp
    rw [apart, ← List.append_assoc] at tokens
    exact tokens

namespace Between

variable {qs : List Piece}

theorem pos_eq (here : Between source base s before qs) : s.pos = byteLength before :=
  here.placed.pos_eq

/-- At the end of the source the scanner hands over its tokens. -/
theorem step_eq (here : Between source base s before []) :
    step source base s = some (.finish (tokenize source base)) := by
  have tokens : s.tokens = tokenize source base := by simpa [tokensFrom] using here.tokens_eq
  rw [step, here.loop_eq, here.placed.rest?_eq, ← tokens]
  rfl

/-- In front of pieces the scanner reads the first of them. -/
theorem entry (here : Between source base s before (q :: qs)) :
    Entry source base s before (spelling qs) q := by
  have read := here.cuts.1
  rw [List.append_nil] at read
  exact Scanner.entry here.placed here.loop_eq read

theorem chars_ne_nil (here : Between source base s before (q :: qs)) : q.chars ≠ [] := by
  obtain ⟨c, cs, chars, -⟩ := here.cuts.1
  rw [chars]
  exact List.cons_ne_nil _ _

/-- Behind the first piece the others are left. -/
theorem behind (here : Between source base s before (q :: qs)) :
    Between source base
      ({ s with lineStart := q.lineStartAfter s.lineStart }.behind base before q)
      (before ++ q.chars) qs := by
  have placed := here.placed
  rw [here.pos_eq] at placed
  exact between_behind placed here.cuts.2 here.tokens_eq

end Between

/-- **A turn leads from a head that the scanner can be at to another.** -/
theorem AtHead.next (head : AtHead source base s) (next : Next source base s t) :
    AtHead source base t := by
  cases head with
  | @between before qs here =>
      cases qs with
      | nil =>
          rw [Next, here.step_eq] at next
          cases next
      | cons q qs =>
          cases here.entry with
          | enters first lineStart tokens inside =>
              obtain rfl := first.unique next
              refine .inside inside ?_ ?_
              · rw [lineStart]
                exact here.cuts.2
              · rw [tokens]
                exact here.tokens_eq
          | passes first =>
              obtain rfl := first.unique next
              exact .between here.behind
  | @inside before q qs inside cuts tokens =>
      cases turn inside with
      | along first lt lineStart same further =>
          obtain rfl := first.unique next
          exact .inside further (by rw [lineStart]; exact cuts) (by rw [same]; exact tokens)
      | leaves first =>
          obtain rfl := first.unique next
          exact .between (between_behind inside.placed cuts tokens)

/-- **A head lies in the source and cuts no character.** -/
theorem AtHead.boundary (head : AtHead source base s) : Text.IsBoundary source s.pos := by
  cases head with
  | between here => exact here.placed.boundary
  | inside inside =>
      obtain ⟨_, _, -, placed⟩ := inside.exists_placed
      exact placed.boundary

/-- **Every turn has an outcome.** -/
theorem AtHead.isSome_step (head : AtHead source base s) : (step source base s).isSome = true := by
  rw [Option.isSome_iff_exists]
  cases head with
  | @between before qs here =>
      cases qs with
      | nil => exact ⟨_, here.step_eq⟩
      | cons q qs =>
          cases here.entry with
          | enters next | passes next => exact ⟨_, next⟩
  | inside inside =>
      cases turn inside with
      | along next | leaves next => exact ⟨_, next⟩

/-! ## Rounds -/

/-- A turn inside a piece. -/
def NextInside (source : String) (base : Nat) (s t : Scanner) : Prop :=
  s.loop ≠ .between ∧ Next source base s t

/-- One round of the loop between pieces: from its head, through the loops inside a piece, to its
head again. -/
def Round (source : String) (base : Nat) (s t : Scanner) : Prop :=
  s.loop = .between ∧ t.loop = .between ∧
    ∃ u, Next source base s u ∧ Relation.ReflTransGen (NextInside source base) u t

/-- From inside a piece the scanner comes nowhere else than behind it. -/
theorem Inside.of_nextInside (inside : Inside source s before later q)
    (turns : Relation.ReflTransGen (NextInside source base) s t) :
    Inside source t before later q ∨
      t.loop = .between ∧ t.pos = byteLength before + byteLength q.chars := by
  induction turns with
  | refl => exact .inl inside
  | tail turns next ih =>
      rcases ih with within | ⟨between, -⟩
      · have outcome : Turn source base _ before later q := turn within
        cases outcome with
        | along first lt lineStart same further =>
            obtain rfl := first.unique next.2
            exact .inl further
        | leaves first =>
            obtain rfl := first.unique next.2
            exact .inr ⟨rfl, rfl⟩
      · exact absurd between next.1

/-- **Every round goes forward.** -/
theorem AtHead.pos_lt (head : AtHead source base s) (round : Round source base s t) :
    s.pos < t.pos := by
  obtain ⟨here, there, u, next, turns⟩ := round
  cases head with
  | @inside before q qs inside => exact absurd here inside.loop_ne
  | @between before qs at_s =>
      cases qs with
      | nil =>
          rw [Next, at_s.step_eq] at next
          cases next
      | cons q qs =>
          have start := at_s.pos_eq
          have behind : t.pos = byteLength before + byteLength q.chars := by
            cases at_s.entry with
            | enters first lineStart tokens inside =>
                obtain rfl := first.unique next
                rcases inside.of_nextInside turns with within | ⟨-, pos_eq⟩
                · exact absurd there within.loop_ne
                · exact pos_eq
            | passes first =>
                obtain rfl := first.unique next
                -- The piece was passed in one turn, so no other turn belongs to the round.
                rcases turns.cases_head with rfl | ⟨v, ⟨outside, -⟩, -⟩
                · rfl
                · exact absurd rfl outside
          have positive : 0 < byteLength q.chars :=
            Nat.pos_of_ne_zero fun zero => at_s.chars_ne_nil (Text.byteLength_eq_zero.1 zero)
          omega

/-! ## The end -/

/-- Finitely many turns. -/
abbrev Reaches (source : String) (base : Nat) : Scanner → Scanner → Prop :=
  Relation.ReflTransGen (Next source base)

/-- Out of a piece the scanner comes behind it.  Every turn leaves less of the piece to read. -/
theorem Inside.reaches (inside : Inside source s before later q) :
    Reaches source base s (s.behind base before q) := by
  induction left : byteLength before + byteLength q.chars - s.pos using Nat.strongRecOn
    generalizing s with
  | ind n ih =>
      have outcome : Turn source base s before later q := turn inside
      cases outcome with
      | leaves next => exact .single next
      | @along t next lt lineStart same further =>
          have same : t.behind base before q = s.behind base before q := by
            rw [behind, behind, lineStart, same]
          have bound := further.pos_le
          have rest := ih _ (by omega) further rfl
          rw [same] at rest
          exact .head next rest

/-- In front of pieces the scanner comes to the end.  The induction is on the pieces. -/
theorem Between.finishes {qs : List Piece} (here : Between source base s before qs) :
    ∃ last, Reaches source base s last ∧
      step source base last = some (.finish (tokenize source base)) := by
  induction qs generalizing s before with
  | nil => exact ⟨s, .refl, here.step_eq⟩
  | cons q qs ih =>
      obtain ⟨last, later, finish⟩ := ih here.behind
      refine ⟨last, .trans ?_ later, finish⟩
      cases here.entry with
      | passes next => exact .single next
      | @enters t next lineStart tokens inside =>
          have same : t.behind base before q =
              { s with lineStart := q.lineStartAfter s.lineStart }.behind base before q := by
            rw [Scanner.behind, Scanner.behind, lineStart, tokens]
          rw [← same]
          exact .head next inside.reaches

/-- **From every head the scanner comes to the end, with the tokens of the source.** -/
theorem AtHead.finishes (head : AtHead source base s) :
    ∃ last, Reaches source base s last ∧
      step source base last = some (.finish (tokenize source base)) := by
  cases head with
  | between here => exact here.finishes
  | inside inside cuts tokens =>
      obtain ⟨last, later, finish⟩ := (between_behind inside.placed cuts tokens).finishes
      exact ⟨last, inside.reaches.trans later, finish⟩

/-- **The scanner always advances and never stops inside a character.** Wherever it gets to, it
is in the source and in front of a character or at the end; its next turn has an outcome; a round
of the loop between pieces ends further behind than it began; and it comes to the end of the source
with the tokens that cutting the source gives. -/
theorem advances (source : String) (base : Nat) {s : Scanner}
    (reached : Reaches source base initial s) :
    s.pos ≤ source.utf8ByteSize ∧ Text.IsBoundary source s.pos ∧
      (step source base s).isSome = true ∧
      (∀ t, Round source base s t → s.pos < t.pos) ∧
      ∃ last, Reaches source base s last ∧
        step source base last = some (.finish (tokenize source base)) := by
  have head : AtHead source base s := by
    induction reached with
    | refl => exact .between (between_initial source base)
    | tail _ next ih => exact ih.next next
  exact ⟨head.boundary.le, head.boundary, head.isSome_step, fun t round => head.pos_lt round,
    head.finishes⟩

/-- A comment that looks closed too early, a directive, and a quoted text that breaks off behind
a backslash. -/
def brokenOff : String := "/*/ */é\r\n#x\n@\"ü\\"

theorem advances_brokenOff :
    (∀ t, Round brokenOff 7 ⟨6, true, [], .between⟩ t → 6 < t.pos) ∧
      ∃ last, Reaches brokenOff 7 ⟨6, true, [], .between⟩ last ∧
        step brokenOff 7 last = some (.finish
          [⟨.punct, "é", .clamped 13 2⟩, ⟨.stringLiteral, "@\"ü\\", .clamped 20 5⟩]) := by
  have next : Next brokenOff 7 initial ⟨6, true, [], .between⟩ := by
    rw [Next]
    decide +kernel
  obtain ⟨-, -, -, rounds, last, reached, finish⟩ := advances brokenOff 7 (.single next)
  have tokens : tokenize brokenOff 7 =
      [⟨.punct, "é", .clamped 13 2⟩, ⟨.stringLiteral, "@\"ü\\", .clamped 20 5⟩] := by
    decide +kernel
  exact ⟨rounds, last, reached, tokens ▸ finish⟩

end ProtocolFakes.Scanner
