import ProtocolFakes.Proofs.Selector.Legible
import ProtocolFakes.Proofs.Selector.Refusal

/-!
# Alerts of more than one line

The alert for a declaration that is not read is meant to be one line.  It quotes tokens of the
source, and only one kind of token may have a newline in it: in a string literal a backslash
takes the next character with it, whatever that is, so a literal goes on behind the end of a
line that ends in a backslash (`escaped_of_mem_tokenize`).

**Nothing else breaks an alert.** It has a newline exactly if it is about an unexpected string
literal that has an escaped one (`alert_breaks_iff`): what an alert says of its own, the numbers
of ranges and the keywords it quotes are of one line.  But such a literal is quoted as it is
(`alert_may_break`).
-/

namespace ProtocolFakes

set_option autoImplicit false

/-! ## Newlines in tokens -/

/-- A newline in a quoted text is escaped. -/
theorem escaped_of_mem_scanQuoted {cs : List Char} (newline : '\n' ∈ (scanQuoted cs).1) :
    ['\\', '\n'] <:+: (scanQuoted cs).1 := by
  fun_induction scanQuoted cs with
  | case1 => cases newline
  | case2 => simp at newline
  | case3 c cs ih =>
      rcases List.mem_cons.1 newline with backslash | inside
      · cases backslash
      rcases List.mem_cons.1 inside with rfl | later
      · exact ⟨[], (scanQuoted cs).1, rfl⟩
      · exact (ih later).trans (List.suffix_append ['\\', c] _).isInfix
  | case4 cs => simp at newline
  | case5 cs => cases newline
  | case6 c cs _ _ _ notNewline ih =>
      rcases List.mem_cons.1 newline with rfl | later
      · exact absurd rfl notNewline
      · exact (ih later).trans (List.suffix_cons c _).isInfix

/-- **A token with a newline in it is a string literal**, and the newline is escaped. -/
theorem escaped_of_mem_tokenize {source : String} {base : Nat} {t : Token}
    (member : t ∈ tokenize source base) (newline : '\n' ∈ t.text.toList) :
    t.kind = .stringLiteral ∧ ['\\', '\n'] <:+: t.text.toList := by
  obtain ⟨lineStart, c, cs, rest, chars, starts, reads⟩ :=
    exists_readsToken_of_mem_tokenize member
  rw [chars] at newline ⊢
  have inside : '\n' ∈ cs := (List.mem_cons.1 newline).resolve_left starts.not_newline.symm
  have escaped {body : List Char} (scanned : scanQuoted (body ++ rest) = (body, rest))
      (within : '\n' ∈ body) : ['\\', '\n'] <:+: body := by
    have taken : (scanQuoted (body ++ rest)).1 = body := congrArg Prod.fst scanned
    rw [← taken] at within ⊢
    exact escaped_of_mem_scanQuoted within
  generalize t.kind = kind at reads
  cases reads with
  | identifier start word ends => exact absurd (word _ inside) (by decide)
  | number notWord digit word ends => exact absurd (word _ inside) (by decide)
  | quoted scanned => exact ⟨rfl, (escaped scanned inside).trans (List.suffix_cons ..).isInfix⟩
  | atQuoted scanned =>
      have within := (List.mem_cons.1 inside).resolve_left (by decide)
      exact ⟨rfl, (escaped scanned within).trans (List.suffix_append ['@', '"'] _).isInfix⟩
  | atKeyword start word ends =>
      rcases List.mem_cons.1 inside with rfl | within
      · exact absurd start (by decide)
      · exact absurd (word _ within) (by decide)
  | ellipsis => exact absurd inside (by decide)
  | punct notWord notDigit notQuote noName noDots => cases inside

/-! ## Texts of one line -/

/-- A text without a newline. -/
def OneLine (text : String) : Prop := '\n' ∉ text.toList

instance (text : String) : Decidable (OneLine text) := inferInstanceAs (Decidable (¬ _))

theorem oneLine_append_iff {a b : String} : OneLine (a ++ b) ↔ OneLine a ∧ OneLine b := by
  simp [OneLine]

theorem oneLine_nat (n : Nat) : OneLine (toString n) := by
  rw [OneLine, Nat.toString_eq_repr, Nat.toList_repr]
  exact fun newline =>
    absurd (Nat.isDigit_of_mem_toDigits (by decide) (by decide) newline) (by decide)

theorem oneLine_range (r : SourceRange) : OneLine (toString r) :=
  oneLine_append_iff.2 ⟨oneLine_append_iff.2 ⟨oneLine_nat _, by decide⟩, oneLine_nat _⟩

/-- What a reading failure quotes of the source. -/
def ParseError.quoted : ParseError → String
  | missingParameterType keyword _ | missingParameterName keyword _
  | bareComponentInKeywordSelector keyword | componentOutsideRange keyword _ => keyword
  | unexpectedToken text _ => text
  | emptyInput | missingReturnType | missingSelector _ | unbalancedParens _ | noComponents
  | parameterCountMismatch .. | rangeOverflow .. => ""

/-- **A message is one line exactly if what it quotes is.** -/
theorem ParseError.oneLine_message_iff (defect : ParseError) :
    OneLine defect.message ↔ OneLine defect.quoted := by
  unfold message
  cases defect <;>
    simp +decide only [quoted, oneLine_append_iff, oneLine_nat, oneLine_range, true_and, and_true]

theorem oneLine_userMessage_iff (defect : ParseError) :
    OneLine (Failure.parse defect).userMessage ↔ OneLine defect.quoted := by
  have front : OneLine "Could not parse the selected protocol: " := by decide
  unfold Failure.userMessage
  rw [← defect.oneLine_message_iff, oneLine_append_iff, and_iff_right front]

/-! ## Alerts -/

/-- A keyword that is quoted from a source is one line. -/
theorem Quotes.oneLine {source : String} {base : Nat} {keyword : String}
    (quotes : Quotes (tokenize source base) keyword) : OneLine keyword := by
  cases quotes with
  | nothing => decide
  | identifier member isWord =>
      intro newline
      obtain ⟨literal, -⟩ := escaped_of_mem_tokenize member newline
      simp [Token.isIdentifier, literal] at isWord

/-- **An alert has a newline exactly if it is about a string literal that has an escaped one.** -/
theorem alert_breaks_iff {source : String} {base : Nat} {defect : ParseError}
    (refused : Selector.ofTokens (tokenize source base) = .error defect) :
    '\n' ∈ (Failure.parse defect).userMessage.toList ↔
      ∃ t ∈ tokenize source base, t.kind = .stringLiteral ∧
        ['\\', '\n'] <:+: t.text.toList ∧ defect = .unexpectedToken t.text t.range := by
  have quoted : '\n' ∈ (Failure.parse defect).userMessage.toList ↔
      '\n' ∈ defect.quoted.toList :=
    not_iff_not.1 (oneLine_userMessage_iff defect)
  rw [quoted]
  constructor
  · intro newline
    rcases refused_of_ofTokens refused with blamed | ⟨keyword, -, rfl⟩
    · cases blamed with
      | unexpectedToken member =>
          obtain ⟨literal, escaped⟩ := escaped_of_mem_tokenize member newline
          exact ⟨_, member, literal, escaped, rfl⟩
      | missingParameterType quotes _ | missingParameterName quotes _ =>
          exact absurd newline quotes.oneLine
      | emptyInput | missingReturnType | missingSelector _ | unbalancedParens _ => cases newline
    · cases newline
  · rintro ⟨t, -, -, escaped, rfl⟩
    exact escaped.subset (by decide)

/-- A method behind which a string literal goes on in the next line. -/
def brokenSource : String := "- (void)foo \"a\\\nb\";"

/-- What it is refused for. -/
def brokenDefect : ParseError := .unexpectedToken "\"a\\\nb\"" (.clamped 12 6)

/-- The literal of that method. -/
def brokenLiteral : Token := ⟨.stringLiteral, "\"a\\\nb\"", .clamped 12 6⟩

theorem read_brokenSource :
    Selector.ofTokens (tokenize brokenSource 0) = .error brokenDefect ∧
      brokenLiteral ∈ tokenize brokenSource 0 := by
  decide +kernel

theorem alert_breaks_iff_literal :
    Selector.ofTokens (tokenize brokenSource 0) = .error brokenDefect ∧
      '\n' ∈ (Failure.parse brokenDefect).userMessage.toList := by
  obtain ⟨refused, literal⟩ := read_brokenSource
  exact ⟨refused, (alert_breaks_iff refused).2 ⟨brokenLiteral, literal, rfl, by decide, rfl⟩⟩

/-- **An alert may have two lines.** -/
theorem alert_may_break :
    ¬ ∀ (source : String) (defect : ParseError),
      Selector.ofTokens (tokenize source 0) = .error defect →
        '\n' ∉ (Failure.parse defect).userMessage.toList := by
  intro oneLine
  exact oneLine brokenSource brokenDefect read_brokenSource.1 (by decide)

end ProtocolFakes
