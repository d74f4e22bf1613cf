import Mathlib.Data.List.Pairwise
import ProtocolFakes.Proofs.Protocol.Members

/-!
# The method at an offset

Methods of a text are read in two ways.  One is a list of all that read, which leaves out the
others; the other takes the span that holds an offset and says why it does not read, if it does
not.  Nothing is assumed of how spans are found but that none is empty and that they come in
order and apart (`Outline.InOrder`).

An offset then lies in one span at most (`InOrder.unique`), so the first span that holds it is
the only one.  A method has the range of its span, and its selector stands in it
(`Span.method_bounds`): both ways give the same methods, and the selectors are in the order of
the spans.

Main theorem: `readMethodAt_matches_readMethods`.
-/

namespace ProtocolFakes

set_option autoImplicit false

open Text (byteLength)

/-! ## Spans in order -/

theorem Span.contains_iff {s : Span} {offset : Nat} :
    s.contains offset = true ↔ s.start ≤ offset ∧ offset < s.stop := by
  simp [Span.contains]

theorem Span.toOption_method_eq_some_iff {s : Span} {text : String} {base : Nat}
    {m : DeclaredMethod} :
    (s.method text base).toOption = some m ↔ s.method text base = .ok m := by
  cases s.method text base <;> simp [Except.toOption]

/-- Where a method that reads stands: its range is its span, and its selector is a part of it
that is not empty. -/
theorem Span.method_bounds {s : Span} {text : String} {m : DeclaredMethod}
    (fits : byteLength text.toList ≤ maxOffset) (read : s.method text 0 = .ok m) :
    m.range = s.range 0 ∧ m.range.location = s.start ∧ m.range.stop = s.stop ∧
      s.start ≤ m.selector.range.location ∧
      m.selector.range.location < m.selector.range.stop ∧ m.selector.range.stop ≤ s.stop := by
  obtain ⟨reads, range⟩ := Span.method_eq_ok_iff.1 read
  obtain ⟨mid, cut⟩ := Span.exists_cut_of_ofTokens reads
  have inside : 0 + byteLength text.toList ≤ maxOffset := by omega
  obtain ⟨location, stop, covered, stopLe⟩ := Span.range_bounds cut inside
  have positive : ∀ t ∈ s.tokens text 0, t.range.location < t.range.stop := by
    intro t member
    rw [Span.tokens_eq cut inside] at member
    exact location_lt_stop_of_mem_tokenize (by rw [String.toList_ofList]; omega) member
  obtain ⟨lower, upper⟩ := Selector.bounds_of_ofTokens reads fun t member =>
    Span.bounds_of_mem_tokens cut inside member
  have between := Selector.location_lt_stop_of_ofTokens reads positive
  rw [Nat.zero_add] at location stop lower upper
  rw [← range] at location stop
  exact ⟨range, location, stop, lower, between, upper⟩

namespace Outline

/-- The methods of an outline come in order, no two overlap and none is empty. -/
structure InOrder (o : Outline) : Prop where
  nonempty : ∀ s ∈ o.methods, s.start < s.stop
  apart : o.methods.Pairwise fun s t => s.stop ≤ t.start

section InOrder

variable {o : Outline} (inOrder : o.InOrder)
include inOrder

/-- No offset lies in two spans. -/
theorem InOrder.unique {offset : Nat} {s t : Span} (here : s ∈ o.methods)
    (there : t ∈ o.methods) (inFirst : s.contains offset = true)
    (inSecond : t.contains offset = true) : s = t := by
  by_contra different
  have eitherWay : o.methods.Pairwise fun s t => s.stop ≤ t.start ∨ t.stop ≤ s.start :=
    inOrder.apart.imp .inl
  have symmetric : Std.Symm fun s t : Span => s.stop ≤ t.start ∨ t.stop ≤ s.start :=
    ⟨fun _ _ => Or.symm⟩
  have apart := eitherWay.forall here there different
  have := Span.contains_iff.1 inFirst
  have := Span.contains_iff.1 inSecond
  omega

/-- The span found at an offset is the one that holds it. -/
theorem InOrder.methodAt?_eq_some_iff {offset : Nat} {s : Span} :
    o.methodAt? offset = some s ↔ s ∈ o.methods ∧ s.contains offset = true := by
  have held : ∀ {t}, o.methodAt? offset = some t → t ∈ o.methods ∧ t.contains offset = true := by
    intro t found
    rw [methodAt?] at found
    exact ⟨List.mem_of_find?_eq_some found, by simpa using List.find?_some found⟩
  constructor
  · exact held
  · rintro ⟨member, holds⟩
    cases found : o.methodAt? offset with
    | none =>
        rw [methodAt?] at found
        exact absurd holds (List.find?_eq_none.1 found s member)
    | some t =>
        obtain ⟨member', holds'⟩ := held found
        rw [inOrder.unique member' member holds' holds]

end InOrder

/-! ## The two readers -/

section Readers

variable {o : Outline} {text : String} {offset : Nat}

theorem readMethodAt_eq_ok_iff {m : DeclaredMethod} :
    o.readMethodAt text offset = .ok m ↔
      ∃ s, o.methodAt? offset = some s ∧ s.method text 0 = .ok m := by
  unfold readMethodAt
  cases o.methodAt? offset with
  | none => simp
  | some s => simp [mapError_eq_ok_iff]

theorem readMethodAt_eq_noMethodFound_iff :
    o.readMethodAt text offset = .error .noMethodFound ↔ o.methodAt? offset = none := by
  unfold readMethodAt
  cases o.methodAt? offset with
  | none => simp
  | some s => simp [mapError_eq_error_iff]

theorem readMethodAt_eq_parse_iff {e : ParseError} :
    o.readMethodAt text offset = .error (.parse e) ↔
      ∃ s, o.methodAt? offset = some s ∧ s.method text 0 = .error e := by
  unfold readMethodAt
  cases o.methodAt? offset with
  | none => simp
  | some s => simp [mapError_eq_error_iff]

theorem mem_readMethods_iff {m : DeclaredMethod} :
    m ∈ o.readMethods text ↔ ∃ s ∈ o.methods, s.method text 0 = .ok m := by
  simp only [readMethods, List.mem_filterMap, Span.toOption_method_eq_some_iff]

end Readers

/-! ## What the list leaves out -/

/-- The spans that are the range of no listed method. -/
def skipped (o : Outline) (text : String) : List Span :=
  o.methods.filter fun s => (o.readMethods text).all fun m => m.range ≠ s.range 0

section Agreement

variable {o : Outline} {text : String} (inOrder : o.InOrder)
variable (fits : byteLength text.toList ≤ maxOffset)
include inOrder fits

/-- A span with the range of a method that reads is the span of this method. -/
theorem InOrder.eq_of_range_eq {s t : Span} {m : DeclaredMethod} (here : s ∈ o.methods)
    (there : t ∈ o.methods) (read : t.method text 0 = .ok m) (same : m.range = s.range 0) :
    s = t := by
  obtain ⟨-, location, stop, lower, between, upper⟩ := Span.method_bounds fits read
  have stopLe := m.range.stop_le
  -- The start of the other span is brought below the largest offset, but what it is brought to
  -- lies before the end of a method.
  have clamped : m.range.location = clampOffset (clampOffset s.start + 0) := by rw [same]; rfl
  have start : s.start = t.start := by
    simp only [clampOffset] at clamped
    omega
  have positive := inOrder.nonempty s here
  have positive' := inOrder.nonempty t there
  have inFirst : s.contains t.start = true :=
    Span.contains_iff.2 ⟨Nat.le_of_eq start, by omega⟩
  have inSecond : t.contains t.start = true := Span.contains_iff.2 ⟨Nat.le_refl _, positive'⟩
  exact inOrder.unique here there inFirst inSecond

/-- **The list leaves out exactly the spans that do not read.** -/
theorem mem_skipped_iff {s : Span} :
    s ∈ o.skipped text ↔
      s ∈ o.methods ∧ ∃ e, Selector.ofTokens (s.tokens text 0) = .error e := by
  simp only [skipped, List.mem_filter, List.all_eq_true, decide_eq_true_eq,
    ← Span.method_eq_error_iff]
  refine and_congr_right fun here => ?_
  constructor
  · intro unlisted
    cases read : s.method text 0 with
    | error e => exact ⟨e, rfl⟩
    | ok m =>
        have listed := mem_readMethods_iff.2 ⟨s, here, read⟩
        exact absurd (Span.method_eq_ok_iff.1 read).2 (unlisted m listed)
  · rintro ⟨e, failed⟩ m listed same
    obtain ⟨t, there, read⟩ := mem_readMethods_iff.1 listed
    obtain rfl := inOrder.eq_of_range_eq fits here there read same
    rw [failed] at read
    cases read

/-- **The method at an offset is the listed one whose range holds it.** -/
theorem readMethodAt_eq_ok_iff_mem {offset : Nat} {m : DeclaredMethod} :
    o.readMethodAt text offset = .ok m ↔
      m ∈ o.readMethods text ∧ m.range.location ≤ offset ∧ offset < m.range.stop := by
  simp only [readMethodAt_eq_ok_iff, mem_readMethods_iff, inOrder.methodAt?_eq_some_iff,
    Span.contains_iff]
  constructor
  · rintro ⟨s, ⟨member, holds⟩, read⟩
    obtain ⟨-, location, stop, -⟩ := Span.method_bounds fits read
    rw [location, stop]
    exact ⟨⟨s, member, read⟩, holds⟩
  · rintro ⟨⟨s, member, read⟩, holds⟩
    obtain ⟨-, location, stop, -⟩ := Span.method_bounds fits read
    rw [location, stop] at holds
    exact ⟨s, ⟨member, holds⟩, read⟩

/-- Selectors are listed in the order in which they begin. -/
theorem pairwise_readMethods :
    (o.readMethods text).Pairwise fun m n =>
      m.selector.range.location < n.selector.range.location := by
  simp only [readMethods, List.pairwise_filterMap, Span.toOption_method_eq_some_iff]
  refine inOrder.apart.imp ?_
  intro s t apart m first n second
  obtain ⟨-, -, -, -, between, upper⟩ := Span.method_bounds fits first
  obtain ⟨-, -, -, lower, -, -⟩ := Span.method_bounds fits second
  omega

end Agreement

/-- **The list of methods and the method at an offset agree.** Take an outline whose spans come
in order, apart and none empty, and a text that ends at an offset.

* The method at an offset is the listed method whose range holds the offset.
* No method is found exactly when no span holds the offset.
* It does not read exactly when the only span that holds the offset does not, and with the same
  defect.  Such spans are exactly those that the list leaves out.
* The range of a method encloses the range of its selector, and the selectors are listed in the
  order in which they begin. -/
theorem readMethodAt_matches_readMethods {o : Outline} {text : String} (inOrder : o.InOrder)
    (fits : byteLength text.toList ≤ maxOffset) :
    (∀ offset m, o.readMethodAt text offset = .ok m ↔
      m ∈ o.readMethods text ∧ m.range.location ≤ offset ∧ offset < m.range.stop) ∧
    (∀ offset, o.readMethodAt text offset = .error .noMethodFound ↔
      ∀ s ∈ o.methods, ¬ (s.start ≤ offset ∧ offset < s.stop)) ∧
    (∀ offset e, o.readMethodAt text offset = .error (.parse e) ↔
      ∃ s, (∀ t, t ∈ o.methods ∧ t.start ≤ offset ∧ offset < t.stop ↔ t = s) ∧
        Selector.ofTokens (s.tokens text 0) = .error e) ∧
    (∀ s, s ∈ o.skipped text ↔
      s ∈ o.methods ∧ ∃ e, Selector.ofTokens (s.tokens text 0) = .error e) ∧
    (∀ m ∈ o.readMethods text, m.range.encloses m.selector.range = true) ∧
    (o.readMethods text).Pairwise fun m n =>
      m.selector.range.location < n.selector.range.location := by
  refine ⟨fun offset m => readMethodAt_eq_ok_iff_mem inOrder fits, ?_, ?_,
    fun s => mem_skipped_iff inOrder fits, ?_, pairwise_readMethods inOrder fits⟩
  · intro offset
    simp only [readMethodAt_eq_noMethodFound_iff, methodAt?, List.find?_eq_none,
      Span.contains_iff]
  · intro offset e
    simp only [readMethodAt_eq_parse_iff, inOrder.methodAt?_eq_some_iff,
      Span.method_eq_error_iff, ← Span.contains_iff]
    constructor
    · rintro ⟨s, ⟨member, holds⟩, failed⟩
      refine ⟨s, fun t => ⟨fun ⟨member', holds'⟩ => ?_, fun same => same ▸ ⟨member, holds⟩⟩, failed⟩
      exact inOrder.unique member' member holds' holds
    · rintro ⟨s, only, failed⟩
      exact ⟨s, (only s).2 rfl, failed⟩
  · intro m listed
    obtain ⟨s, -, read⟩ := mem_readMethods_iff.1 listed
    obtain ⟨-, location, stop, lower, -, upper⟩ := Span.method_bounds fits read
    exact SourceRange.encloses_iff.2 ⟨location ▸ lower, stop ▸ upper⟩

/-- Three methods side by side, of which the second has no return type. -/
def adjoiningSource : String := "@protocol P\n- (void)a;- b;+ (id)c;\n@end\n"

theorem readMethodAt_matches_readMethods_adjoining :
    (∃ m ∈ (Outline.ofSource adjoiningSource).readMethods adjoiningSource,
      m.selector.name = "a" ∧
      (Outline.ofSource adjoiningSource).readMethodAt adjoiningSource 21 = .ok m) ∧
    (Outline.ofSource adjoiningSource).readMethodAt adjoiningSource 22 =
      .error (.parse .missingReturnType) ∧
    (Outline.ofSource adjoiningSource).readMethodAt adjoiningSource 34 = .error .noMethodFound ∧
    (Outline.ofSource adjoiningSource).skipped adjoiningSource = [⟨22, 26⟩] := by
  have spans : (Outline.ofSource adjoiningSource).methods = [⟨12, 22⟩, ⟨22, 26⟩, ⟨26, 34⟩] := by
    decide +kernel
  have inOrder : (Outline.ofSource adjoiningSource).InOrder :=
    ⟨by rw [spans]; decide, by rw [spans]; decide⟩
  have fits : byteLength adjoiningSource.toList ≤ maxOffset := by decide
  obtain ⟨found, unfound, unread, -, -, -⟩ := readMethodAt_matches_readMethods inOrder fits
  have listed : ∃ m ∈ (Outline.ofSource adjoiningSource).readMethods adjoiningSource,
      m.selector.name = "a" ∧ m.range.location ≤ 21 ∧ 21 < m.range.stop := by
    decide +kernel
  have only : ∀ t, t ∈ (Outline.ofSource adjoiningSource).methods ∧ t.start ≤ 22 ∧ 22 < t.stop ↔
      t = ⟨22, 26⟩ := by
    intro t
    rw [spans]
    refine ⟨?_, by rintro rfl; decide⟩
    rintro ⟨member, holds⟩
    have each : ∀ t ∈ ([⟨12, 22⟩, ⟨22, 26⟩, ⟨26, 34⟩] : List Span),
        t.start ≤ 22 ∧ 22 < t.stop → t = ⟨22, 26⟩ := by
      decide
    exact each t member holds
  obtain ⟨m, member, name, holds⟩ := listed
  refine ⟨⟨m, member, name, (found 21 m).2 ⟨member, holds⟩⟩, (unread 22 _).2 ⟨_, only, ?_⟩,
    (unfound 34).2 (by rw [spans]; decide), by decide +kernel⟩
  decide +kernel

end Outline

end ProtocolFakes
