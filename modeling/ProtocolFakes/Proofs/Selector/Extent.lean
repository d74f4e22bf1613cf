import ProtocolFakes.Proofs.Selector.Legible
import ProtocolFakes.Proofs.Selector.Refusal
import ProtocolFakes.Proofs.Token.Excerpt

/-!
# Where a selector stands in its source

Every range of a selector that was read goes from the start of one token to the end of a later
one.  A component goes from its first token to its name, a parameter from its parenthesis to
the same name (`ArgumentTree.extent`), and the whole declaration from its first token to its
last word (`DeclarationTree.extent`).  Where the tokens stand in order the ranges therefore
do, too, and each covers a text that begins and ends with known tokens.

A range that a refusal names is that of a token, or the empty one behind the last token.

Main theorem: `reported_ranges_in_source`.
-/

namespace ProtocolFakes

set_option autoImplicit false

open Text (byteLength)

/-- A token that ends in front of another one. -/
def Token.Precedes (t u : Token) : Prop :=
  t.range.location < u.range.location ∧ t.range.stop ≤ u.range.location

/-! ## Arguments -/

/-- The tokens between which the ranges of an argument go. -/
theorem ArgumentTree.landmarks_sublist (a : ArgumentTree) :
    List.Sublist [a.first, a.typeOpen, a.name] a.tokens := by
  cases keyword : a.keyword <;> simp [first, tokens, keyword]

section Argument

variable {a : ArgumentTree} (ordered : a.tokens.Pairwise Token.Precedes)
include ordered

theorem ArgumentTree.landmarks_ordered :
    a.first.Precedes a.typeOpen ∧ a.first.Precedes a.name ∧ a.typeOpen.Precedes a.name := by
  simpa [and_assoc] using ordered.sublist a.landmarks_sublist

/-- **A component goes from its first token to its name, and its parameter from the
parenthesis to the name.** -/
theorem ArgumentTree.extent :
    a.component.range.location = a.first.range.location ∧
      a.component.range.stop = a.name.range.stop ∧
      a.parameter.range.location = a.typeOpen.range.location ∧
      a.parameter.range.stop = a.name.range.stop := by
  obtain ⟨-, first, opening⟩ := a.landmarks_ordered ordered
  have nameLe := a.name.range.location_le_stop
  have stopLe := a.name.range.stop_le
  refine ⟨SourceRange.location_ofBounds a.first.range.location_le, ?_,
    SourceRange.location_ofBounds a.typeOpen.range.location_le, ?_⟩
  · rw [component, SourceRange.stop_ofBounds a.first.range.location_le stopLe]
    exact Nat.max_eq_right (Nat.le_trans (Nat.le_of_lt first.1) nameLe)
  · rw [parameter, SourceRange.stop_ofBounds a.typeOpen.range.location_le stopLe]
    exact Nat.max_eq_right (Nat.le_trans (Nat.le_of_lt opening.1) nameLe)

end Argument

/-! ## Signatures -/

/-- The word that a signature ends with: the name of its last argument, or the keyword that
stands alone. -/
def SignatureTree.lastWord? : SignatureTree → Option Token
  | unary keyword => some keyword
  | keywords arguments => arguments.getLast?.map (·.name)

theorem SignatureTree.Valid.getLast?_tokens {s : SignatureTree} (valid : s.Valid) :
    s.tokens.getLast? = s.lastWord? ∧ s.lastWord?.isSome = true := by
  cases s with
  | unary keyword => exact ⟨rfl, rfl⟩
  | keywords arguments =>
      rcases List.eq_nil_or_concat arguments with rfl | ⟨as, a, rfl⟩
      · cases valid
      · simp [tokens, lastWord?, ArgumentTree.tokens, List.getLast?_cons]

section Signature

variable {s : SignatureTree} (ordered : s.tokens.Pairwise Token.Precedes)
include ordered

/-- The components of a signature stand in order. -/
theorem SignatureTree.pairwise_components :
    s.components.Pairwise fun c d =>
      c.range.location < d.range.location ∧ c.range.stop ≤ d.range.location := by
  cases s with
  | unary keyword => exact List.pairwise_singleton ..
  | keywords arguments =>
      obtain ⟨each, apart⟩ := List.pairwise_flatMap.1 ordered
      refine List.pairwise_map.2 (apart.imp_of_mem ?_)
      intro a b here there precedes
      obtain ⟨location, stop, -⟩ := ArgumentTree.extent (each a here)
      obtain ⟨location', -⟩ := ArgumentTree.extent (each b there)
      rw [location, stop, location']
      exact ⟨(precedes _ a.first_mem_tokens _ b.first_mem_tokens).1,
        (precedes _ a.name_mem_tokens _ b.first_mem_tokens).2⟩

/-- The last component ends with the last word. -/
theorem SignatureTree.exists_last_component {last : Token} (found : s.lastWord? = some last) :
    ∃ c, s.components.getLast? = some c ∧ c.range.stop = last.range.stop := by
  cases s with
  | unary keyword =>
      cases found
      exact ⟨_, rfl, rfl⟩
  | keywords arguments =>
      obtain ⟨a, final, rfl⟩ := Option.map_eq_some_iff.1 found
      refine ⟨a.component, by rw [components, List.getLast?_map, final, Option.map_some], ?_⟩
      have each := (List.pairwise_flatMap.1 ordered).1
      exact (ArgumentTree.extent (each a (List.mem_of_getLast? final))).2.1

end Signature

/-! ## Declarations -/

/-- **A declaration goes from its first token to its last word.** -/
theorem DeclarationTree.Valid.extent {d : DeclarationTree} (valid : d.Valid)
    (ordered : d.tokens.Pairwise Token.Precedes) :
    (∃ first, d.tokens.head? = some first ∧ d.range.location = first.range.location) ∧
      ∃ last, d.signature.lastWord? = some last ∧ last ∈ d.tokens ∧
        d.range.stop = last.range.stop := by
  have inOrder : (d.tokens.map (·.range)).Pairwise fun r s => r.stop ≤ s.location :=
    List.pairwise_map.2 (ordered.imp fun precedes => precedes.2)
  obtain ⟨start, stop⟩ := SourceRange.envelopeOf?_of_pairwise inOrder d.envelopeOf?_tokens.1
  obtain ⟨final, ends⟩ := valid.signature.getLast?_tokens
  obtain ⟨last, found⟩ := Option.isSome_iff_exists.1 ends
  rw [found] at final
  have ends : d.tokens.getLast? = some last := by
    rw [tokens, List.getLast?_append, List.getLast?_cons, final]
    rfl
  obtain ⟨first, begins⟩ : ∃ first, d.tokens.head? = some first := by
    cases marker : d.marker <;> simp [tokens, marker]
  refine ⟨⟨first, begins, start _ ?_⟩, last, found, List.mem_of_getLast? ends, stop _ ?_⟩
  · rw [List.head?_map, begins]
    rfl
  · rw [List.getLast?_map, ends]
    rfl

/-! ## Selectors in their source -/

/-- What a component begins with: its keyword, or the colon if it has none. -/
def SelectorComponent.opening (c : SelectorComponent) : String :=
  if c.keyword = "" then ":" else c.keyword

namespace Selector

/-- Where an entry stands in a source behind `base` bytes: the component from its keyword to
the name of its parameter, and the parameter from a parenthesis to the same place. -/
structure EntryStands (base : Nat) (source : String) (e : Entry) : Prop where
  paired : e.2.isSome = e.1.takesArgument
  component : ∃ text, e.1.range.CutsOut base source text ∧
    e.1.opening.toList <+: text.toList ∧ ∀ p ∈ e.2, p.name.toList <:+ text.toList
  parameter : ∀ p ∈ e.2, e.1.range.location ≤ p.range.location ∧
    p.range.stop = e.1.range.stop ∧
    ∃ text, p.range.CutsOut base source text ∧ ['('] <+: text.toList

/-- Where a selector stands in a source behind `base` bytes. -/
structure Stands (base : Nat) (source : String) (s : Selector) : Prop where
  in_order : s.components.Pairwise fun c d =>
    c.range.location < d.range.location ∧ c.range.stop ≤ d.range.location
  inside : ∀ c ∈ s.components,
    s.range.location ≤ c.range.location ∧ c.range.stop ≤ s.range.stop
  ends : ∃ c, s.components.getLast? = some c ∧ c.range.stop = s.range.stop
  components_eq : s.entries.map (·.1) = s.components
  parameters_eq : s.entries.filterMap (·.2) = s.parameters
  entry : ∀ e ∈ s.entries, EntryStands base source e

end Selector

section Source

variable {source : String} {base : Nat} (fits : base + byteLength source.toList ≤ maxOffset)
include fits

/-- The component of an argument begins with the first token of the argument. -/
theorem ArgumentTree.Valid.opening_component {a : ArgumentTree} (valid : a.Valid)
    (inside : ∀ t ∈ a.tokens, t ∈ tokenize source base) : a.component.opening = a.first.text := by
  have first := text_ne_empty_of_mem_tokenize fits (inside _ a.first_mem_tokens)
  unfold SelectorComponent.opening ArgumentTree.component ArgumentTree.word ArgumentTree.first at *
  cases keyword : a.keyword with
  | none =>
      have colon := Token.text_eq_of_isPunct valid.colon
      simpa using colon.symm
  | some k =>
      rw [keyword] at first
      exact if_neg first

/-- The entries that a signature declares stand in the source of its tokens. -/
theorem SignatureTree.Valid.entryStands {s : SignatureTree} (valid : s.Valid)
    (inside : ∀ t ∈ s.tokens, t ∈ tokenize source base)
    (ordered : s.tokens.Pairwise Token.Precedes) {e : Selector.Entry}
    (member : e ∈ Selector.declaredEntries s) : Selector.EntryStands base source e := by
  cases s with
  | unary keyword =>
      obtain rfl := List.mem_singleton.1 member
      have here := inside keyword (List.mem_singleton_self keyword)
      have opening : (SelectorComponent.mk keyword.text false keyword.range).opening =
          keyword.text := if_neg (text_ne_empty_of_mem_tokenize fits here)
      refine ⟨rfl, ⟨keyword.text, cutsOut_of_mem_tokenize fits here, ?_, nofun⟩, nofun⟩
      exact ⟨[], by rw [opening, List.append_nil]⟩
  | keywords arguments =>
      obtain ⟨a, found, rfl⟩ := List.mem_map.1 member
      have within : ∀ t ∈ a.tokens, t ∈ tokenize source base := fun t among =>
        inside t (List.mem_flatMap.2 ⟨a, found, among⟩)
      have inOrder := (List.pairwise_flatMap.1 ordered).1 a found
      obtain ⟨typed, named, parenthesis⟩ := a.landmarks_ordered inOrder
      obtain ⟨location, stop, location', stop'⟩ := a.extent inOrder
      have nameHere := within _ a.name_mem_tokens
      have openHere := within a.typeOpen (by simp [ArgumentTree.tokens])
      refine ⟨rfl, ?_, ?_⟩
      · obtain ⟨text, cut, begins, ends⟩ := exists_cutsOut_between fits
          (within _ a.first_mem_tokens) nameHere (.inr named.2)
        refine ⟨text, cut, ?_, ?_⟩
        · rwa [(valid.argument found).opening_component fits within]
        · rintro p ⟨⟩
          exact ends
      · rintro p ⟨⟩
        obtain ⟨text, cut, begins, -⟩ :=
          exists_cutsOut_between fits openHere nameHere (.inr parenthesis.2)
        rw [Token.text_eq_of_isPunct (valid.argument found).typeOpen] at begins
        exact ⟨by rw [location, location']; exact Nat.le_of_lt typed.1, stop'.trans stop.symm,
          text, cut, begins⟩

/-- **A selector stands where its declaration stands.** -/
theorem DeclarationTree.Valid.stands {d : DeclarationTree} (valid : d.Valid)
    (inside : ∀ t ∈ d.tokens, t ∈ tokenize source base)
    (ordered : d.tokens.Pairwise Token.Precedes) : d.fields.Stands base source := by
  have within : ∀ t ∈ d.signature.tokens, t ∈ tokenize source base := fun t member =>
    inside t (d.signature_infix.subset member)
  have inOrder := ordered.sublist d.signature_infix.sublist
  have formed : d.fields.WellFormed := (selector_eq_ok_iff.1 (valid.selector_eq fun t member =>
    (bounds_of_mem_tokenize fits (inside t member)).2.2)).2
  obtain ⟨-, last, found, -, stop⟩ := valid.extent ordered
  obtain ⟨c, final, ends⟩ := SignatureTree.exists_last_component inOrder found
  refine ⟨SignatureTree.pairwise_components inOrder,
    fun c member => SourceRange.encloses_iff.1 (formed.encloses c member),
    ⟨c, final, ends.trans stop.symm⟩, Selector.map_fst_entries _,
    formed.filterMap_snd_entries, ?_⟩
  intro e member
  rw [Selector.entries, show d.fields.components = d.signature.components from rfl,
    show d.fields.parameters = d.signature.parameters from rfl, Selector.pairUp_signature] at member
  exact valid.signature.entryStands fits within inOrder member

end Source

/-- What a refusal points at is a token or the place behind the last one. -/
theorem Refused.pointsAt {ts : List Token} {defect : ParseError} (refused : Refused ts defect)
    {r : SourceRange} (member : r ∈ defect.ranges) : PointsAt ts r := by
  cases refused with
  | emptyInput => cases member
  | missingReturnType => cases member
  | missingSelector points => rwa [List.mem_singleton.1 member]
  | missingParameterType quotes points => rwa [List.mem_singleton.1 member]
  | missingParameterName quotes points => rwa [List.mem_singleton.1 member]
  | unbalancedParens here | unexpectedToken here =>
      rw [List.mem_singleton.1 member]
      exact .token here

/-- **Every range that is reported is right for the source.** A selector that is read from a
source that ends at an offset goes from the first token to the last word of its declaration,
and its components and parameters stand in it, in order and without overlap, each from its
first token to its name.  A range that a refusal names cuts out the text that is reported with
it, or that of a token, or nothing behind the last token when all of them are read. -/
theorem reported_ranges_in_source {source : String} {base : Nat}
    (fits : base + byteLength source.toList ≤ maxOffset) :
    (∀ kind s, Selector.ofTokens (tokenize source base) = .ok (kind, s) →
      s.Stands base source ∧
        ∃ (d : Derivation) (first last : Token) (text : String),
          d.Derives (tokenize source base) ∧
          (tokenize source base).head? = some first ∧
          d.declaration.signature.lastWord? = some last ∧
          s.range.location = first.range.location ∧ s.range.stop = last.range.stop ∧
          s.range.CutsOut base source text ∧
          first.text.toList <+: text.toList ∧ last.text.toList <:+ text.toList) ∧
      ∀ defect, Selector.ofTokens (tokenize source base) = .error defect →
        ∀ r ∈ defect.ranges,
          (∀ text, defect = .unexpectedToken text r → r.CutsOut base source text) ∧
            ((∃ t ∈ tokenize source base, r = t.range ∧ r.CutsOut base source t.text) ∨
              ∃ t, (tokenize source base).getLast? = some t ∧ r = .emptyAt t.range.stop ∧
                r.CutsOut base source "") := by
  constructor
  · intro kind s read
    obtain ⟨d, derives, -, built⟩ := exists_derivation_of_ofTokens read
    obtain ⟨rfl, formed⟩ := DeclarationTree.selector_eq_ok_iff.1 built
    have front : d.declaration.tokens <+: tokenize source base :=
      ⟨d.trailer.tokens, derives.tokens_eq⟩
    have ordered : d.declaration.tokens.Pairwise Token.Precedes :=
      (pairwise_tokenize fits).sublist front.sublist
    have inside : ∀ t ∈ d.declaration.tokens, t ∈ tokenize source base := fun t member =>
      front.subset member
    refine ⟨derives.valid.declaration.stands fits inside ordered, ?_⟩
    obtain ⟨⟨first, begins, location⟩, last, found, member, stop⟩ :=
      derives.valid.declaration.extent ordered
    obtain ⟨ts, split⟩ := List.head?_eq_some_iff.1 begins
    have head : (tokenize source base).head? = some first := by
      rw [← derives.tokens_eq, Derivation.tokens, split]
      rfl
    have order : first = last ∨ first.range.stop ≤ last.range.location := by
      rw [split] at member ordered
      rcases List.mem_cons.1 member with rfl | later
      · exact .inl rfl
      · exact .inr ((List.pairwise_cons.1 ordered).1 last later).2
    obtain ⟨text, cut, opens, closes⟩ := exists_cutsOut_between fits
      (inside first (List.mem_of_mem_head? begins)) (inside last member) order
    rw [← location, ← stop, SourceRange.ofBounds_of_fits formed.range_fits] at cut
    exact ⟨d, first, last, text, derives, head, found, location, stop, cut, opens, closes⟩
  · intro defect refused r member
    have blamed : Refused (tokenize source base) defect := by
      rcases refused_of_ofTokens refused with blamed | ⟨keyword, -, rfl⟩
      · exact blamed
      · cases member
    constructor
    · rintro text rfl
      cases blamed with
      | unexpectedToken here => exact cutsOut_of_mem_tokenize fits here
    · cases blamed.pointsAt member with
      | token here => exact .inl ⟨_, here, rfl, cutsOut_of_mem_tokenize fits here⟩
      | behind last =>
          exact .inr ⟨_, last, rfl, cutsOut_behind fits (List.mem_of_getLast? last)⟩

/-- A method with two arguments, read behind seven bytes, and the same one cut off. -/
theorem reported_ranges_in_source_cut_off :
    7 + byteLength "- (void)a:(int)b c:(int)d;".toList ≤ maxOffset ∧
      Selector.Stands 7 "- (void)a:(int)b c:(int)d;"
        ⟨[⟨"a", true, .clamped 15 8⟩, ⟨"c", true, .clamped 24 8⟩],
          [⟨"int", "b", .clamped 17 6⟩, ⟨"int", "d", .clamped 26 6⟩], "void", .clamped 7 25⟩ ∧
      Selector.ofTokens (tokenize "- (void)a:(int)b c:(int)" 7) =
        .error (.missingParameterName "c" (.clamped 31 0)) ∧
      (SourceRange.clamped 31 0).CutsOut 7 "- (void)a:(int)b c:(int)" "" := by
  have whole : 7 + byteLength "- (void)a:(int)b c:(int)d;".toList ≤ maxOffset := by decide
  have cut : 7 + byteLength "- (void)a:(int)b c:(int)".toList ≤ maxOffset := by decide
  have read : Selector.ofTokens (tokenize "- (void)a:(int)b c:(int)d;" 7) = .ok (.instanceMethod,
      ⟨[⟨"a", true, .clamped 15 8⟩, ⟨"c", true, .clamped 24 8⟩],
        [⟨"int", "b", .clamped 17 6⟩, ⟨"int", "d", .clamped 26 6⟩], "void", .clamped 7 25⟩) := by
    decide +kernel
  have refused : Selector.ofTokens (tokenize "- (void)a:(int)b c:(int)" 7) =
      .error (.missingParameterName "c" (.clamped 31 0)) := by
    decide +kernel
  refine ⟨whole, ((reported_ranges_in_source whole).1 _ _ read).1, refused, ?_⟩
  rcases ((reported_ranges_in_source cut).2 _ refused _ (List.mem_singleton_self _)).2 with
    ⟨t, member, here, -⟩ | ⟨t, -, -, behind⟩
  · have long : ∀ t ∈ tokenize "- (void)a:(int)b c:(int)" 7, t.range.length ≠ 0 := by
      decide +kernel
    exact absurd (congrArg SourceRange.length here).symm (long t member)
  · exact behind

end ProtocolFakes
