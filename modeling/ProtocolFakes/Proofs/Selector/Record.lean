import ProtocolFakes.Proofs.Json.Compact
import ProtocolFakes.Proofs.Json.Record
import ProtocolFakes.Proofs.Selector.Invariant
import ProtocolFakes.Selector.Record

/-!
# Selectors read back from records

Records are read by their shape alone: a range, a component or a parameter is read from a value
exactly if the value holds its fields (`SourceRange.HeldBy` and its like).  A value that holds
the fields of a selector goes on to the checks, which let well-formed fields in and otherwise
report the first defect in their order (`Selector.FirstDefect`); no other value is read at all.

A selector is written as a value that holds its fields, and both layouts of this value read back,
so a well-formed selector reads back from its text.

Main theorem: `Selector.decoding_exact`.
-/

namespace ProtocolFakes

set_option autoImplicit false

open Json (Holds Plain)

/-! ## Scalars -/

namespace Json

variable {v : Json}

theorem text?_eq_some_iff {s : String} : v.text? = some s ↔ v = .text s := by
  cases v <;> simp [text?, text]

theorem bool?_eq_some_iff {b : Bool} : v.bool? = some b ↔ v = .bool b := by
  cases v <;> simp [bool?]

theorem offset?_eq_some_iff {n : Nat} : v.offset? = some n ↔ v = .nat n ∧ n ≤ maxOffset := by
  unfold offset?
  split
  · rename_i m
    rw [Option.ite_none_right_eq_some]
    constructor
    · rintro ⟨inside, same⟩
      obtain rfl := Option.some.inj same
      exact ⟨rfl, inside⟩
    · rintro ⟨same, inside⟩
      cases same
      exact ⟨inside, rfl⟩
  · rename_i other
    simp only [reduceCtorEq, false_iff, not_and]
    rintro rfl
    exact absurd rfl (other n)

end Json

/-! ## Ranges -/

namespace SourceRange

/-- A value that holds a range. -/
def HeldBy (r : SourceRange) : Json → Prop :=
  Holds [("location", .nat r.location), ("length", .nat r.length)]

theorem heldBy_toJson (r : SourceRange) : r.HeldBy r.toJson := Json.holds_record _

theorem plain_toJson (r : SourceRange) : Plain r.toJson := by
  refine .record ?_
  simp only [List.forall_mem_cons]
  exact ⟨.nat _, .nat _, nofun⟩

theorem ofNats?_eq_some_iff {location length : Nat} {r : SourceRange} :
    ofNats? location length = some r ↔ r.location = location ∧ r.length = length := by
  unfold ofNats?
  split
  · rw [Option.some.injEq, SourceRange.ext_iff]
    exact and_congr eq_comm eq_comm
  · rename_i outside
    simp only [reduceCtorEq, false_iff]
    rintro ⟨rfl, rfl⟩
    exact outside ⟨r.location_le, r.length_le⟩

/-- **A range is read from the values that hold it.** -/
theorem ofJson?_eq_some_iff {v : Json} {r : SourceRange} : ofJson? v = some r ↔ r.HeldBy v := by
  have answers := @Json.fields?_eq_some_iff
    [("location", .nat r.location), ("length", .nat r.length)]
    (by decide : ["location", "length"].Nodup) v
  rw [HeldBy, ← answers, ofJson?, Option.bind_eq_bind, Option.bind_eq_some_iff]
  constructor
  · rintro ⟨fields, answered, read⟩
    split at read
    · simp only [Json.required?, bind, Option.bind_eq_some_iff, Json.offset?_eq_some_iff,
        ofNats?_eq_some_iff] at read
      obtain ⟨_, ⟨_, rfl, rfl, -⟩, _, ⟨_, rfl, rfl, -⟩, rfl, rfl⟩ := read
      exact answered
    · cases read
  · intro answered
    refine ⟨_, answered, ?_⟩
    simp only [Json.required?, bind, List.map_cons, List.map_nil, Option.bind_eq_some_iff,
      Json.offset?_eq_some_iff, ofNats?_eq_some_iff]
    exact ⟨_, ⟨_, rfl, rfl, r.location_le⟩, _, ⟨_, rfl, rfl, r.length_le⟩, rfl, rfl⟩

end SourceRange

/-! ## Components and parameters -/

namespace SelectorComponent

/-- A value that holds a component. -/
def HeldBy (c : SelectorComponent) (v : Json) : Prop :=
  ∃ range, c.range.HeldBy range ∧
    Holds [("keyword", .text c.keyword), ("takes_argument", .bool c.takesArgument),
      ("range", range)] v

theorem heldBy_toJson (c : SelectorComponent) : c.HeldBy c.toJson :=
  ⟨_, c.range.heldBy_toJson, Json.holds_record _⟩

theorem plain_toJson (c : SelectorComponent) : Plain c.toJson := by
  refine .record ?_
  simp only [List.forall_mem_cons]
  exact ⟨.text _, .bool _, c.range.plain_toJson, nofun⟩

/-- **A component is read from the values that hold it.** -/
theorem ofJson?_eq_some_iff {v : Json} {c : SelectorComponent} :
    ofJson? v = some c ↔ c.HeldBy v := by
  have answers (range : Json) := @Json.fields?_eq_some_iff
    [("keyword", .text c.keyword), ("takes_argument", .bool c.takesArgument), ("range", range)]
    (by decide : ["keyword", "takes_argument", "range"].Nodup) v
  simp only [HeldBy, ← answers, ofJson?, Option.bind_eq_bind, Option.bind_eq_some_iff]
  constructor
  · rintro ⟨fields, answered, read⟩
    split at read
    · simp only [Json.required?, Option.bind_eq_some_iff, Json.text?_eq_some_iff,
        Json.bool?_eq_some_iff, SourceRange.ofJson?_eq_some_iff, Option.pure_def,
        Option.some.injEq] at read
      obtain ⟨_, ⟨_, rfl, rfl⟩, _, ⟨_, rfl, rfl⟩, _, ⟨range, rfl, held⟩, rfl⟩ := read
      exact ⟨range, held, answered⟩
    · cases read
  · rintro ⟨range, held, answered⟩
    refine ⟨_, answered, ?_⟩
    simp only [Json.required?, List.map_cons, List.map_nil, Option.bind_eq_some_iff,
      Json.text?_eq_some_iff, Json.bool?_eq_some_iff, SourceRange.ofJson?_eq_some_iff,
      Option.pure_def, Option.some.injEq]
    exact ⟨_, ⟨_, rfl, rfl⟩, _, ⟨_, rfl, rfl⟩, _, ⟨range, rfl, held⟩, rfl⟩

end SelectorComponent

namespace Parameter

/-- A value that holds a parameter. -/
def HeldBy (p : Parameter) (v : Json) : Prop :=
  ∃ range, p.range.HeldBy range ∧
    Holds [("type_name", .text p.typeName), ("name", .text p.name), ("range", range)] v

theorem heldBy_toJson (p : Parameter) : p.HeldBy p.toJson :=
  ⟨_, p.range.heldBy_toJson, Json.holds_record _⟩

theorem plain_toJson (p : Parameter) : Plain p.toJson := by
  refine .record ?_
  simp only [List.forall_mem_cons]
  exact ⟨.text _, .text _, p.range.plain_toJson, nofun⟩

/-- **A parameter is read from the values that hold it.** -/
theorem ofJson?_eq_some_iff {v : Json} {p : Parameter} : ofJson? v = some p ↔ p.HeldBy v := by
  have answers (range : Json) := @Json.fields?_eq_some_iff
    [("type_name", .text p.typeName), ("name", .text p.name), ("range", range)]
    (by decide : ["type_name", "name", "range"].Nodup) v
  simp only [HeldBy, ← answers, ofJson?, Option.bind_eq_bind, Option.bind_eq_some_iff]
  constructor
  · rintro ⟨fields, answered, read⟩
    split at read
    · simp only [Json.required?, Option.bind_eq_some_iff, Json.text?_eq_some_iff,
        SourceRange.ofJson?_eq_some_iff, Option.pure_def, Option.some.injEq] at read
      obtain ⟨_, ⟨_, rfl, rfl⟩, _, ⟨_, rfl, rfl⟩, _, ⟨range, rfl, held⟩, rfl⟩ := read
      exact ⟨range, held, answered⟩
    · cases read
  · rintro ⟨range, held, answered⟩
    refine ⟨_, answered, ?_⟩
    simp only [Json.required?, List.map_cons, List.map_nil, Option.bind_eq_some_iff,
      Json.text?_eq_some_iff, SourceRange.ofJson?_eq_some_iff, Option.pure_def, Option.some.injEq]
    exact ⟨_, ⟨_, rfl, rfl⟩, _, ⟨_, rfl, rfl⟩, _, ⟨range, rfl, held⟩, rfl⟩

end Parameter

namespace Selector

/-! ## The first defect -/

/-- The defect that is reported of fields: the checks are made in this order, and each of them
finds its first fault from the left only where those before it find none. -/
inductive FirstDefect (s : Selector) : ParseError → Prop where
  | noComponents (empty : s.components = []) : FirstDefect s .noComponents
  | bareComponent {before after : List SelectorComponent} {c : SelectorComponent}
      (several : 1 < s.components.length) (split : s.components = before ++ c :: after)
      (bare : c.takesArgument = false) (earlier : ∀ b ∈ before, b.takesArgument = true) :
      FirstDefect s (.bareComponentInKeywordSelector c.keyword)
  | parameterCount (nonempty : s.components ≠ [])
      (allTake : 1 < s.components.length → ∀ c ∈ s.components, c.takesArgument = true)
      (mismatch : s.components.countP (·.takesArgument) ≠ s.parameters.length) :
      FirstDefect s
        (.parameterCountMismatch (s.components.countP (·.takesArgument)) s.parameters.length)
  /-- The range of the selector comes first, then those of its components and parameters. -/
  | overflow {before after : List SourceRange} {r : SourceRange}
      (nonempty : s.components ≠ [])
      (allTake : 1 < s.components.length → ∀ c ∈ s.components, c.takesArgument = true)
      (oneEach : s.components.countP (·.takesArgument) = s.parameters.length)
      (split : s.range :: s.components.map (·.range) ++ s.parameters.map (·.range) =
        before ++ r :: after)
      (overflows : ¬ r.Fits) (earlier : ∀ b ∈ before, b.Fits) :
      FirstDefect s (.rangeOverflow r.location r.length)
  | outside {before after : List SelectorComponent} {c : SelectorComponent}
      (nonempty : s.components ≠ [])
      (allTake : 1 < s.components.length → ∀ c ∈ s.components, c.takesArgument = true)
      (oneEach : s.components.countP (·.takesArgument) = s.parameters.length)
      (fit : ∀ r ∈ s.range :: s.components.map (·.range) ++ s.parameters.map (·.range), r.Fits)
      (split : s.components = before ++ c :: after)
      (outside : s.range.encloses c.range = false)
      (earlier : ∀ b ∈ before, s.range.encloses b.range = true) :
      FirstDefect s (.componentOutsideRange c.keyword c.range)

/-- The first of a list that fails a check is what the check reports. -/
theorem map_find?_eq_some_iff {α β : Type} {fails : α → Bool} {report : α → β} {xs : List α}
    {e : β} :
    (xs.find? fails).map report = some e ↔ ∃ before x after, xs = before ++ x :: after ∧
      fails x = true ∧ (∀ b ∈ before, fails b = false) ∧ report x = e := by
  simp only [Option.map_eq_some_iff, List.find?_eq_some_iff_append, Bool.not_eq_true']
  constructor
  · rintro ⟨x, ⟨fault, before, after, split, earlier⟩, rfl⟩
    exact ⟨before, x, after, split, fault, earlier, rfl⟩
  · rintro ⟨before, x, after, split, fault, earlier, rfl⟩
    exact ⟨x, ⟨fault, before, after, split, earlier⟩, rfl⟩

section Checks

variable {components : List SelectorComponent} {parameters : List Parameter} {e : ParseError}

theorem emptyDefect?_eq_some_iff :
    emptyDefect? components = some e ↔ components = [] ∧ .noComponents = e := by
  rw [emptyDefect?, Option.ite_none_right_eq_some, List.isEmpty_iff, Option.some.injEq]

theorem bareDefect?_eq_some_iff :
    bareDefect? components = some e ↔ 1 < components.length ∧ ∃ before c after,
      components = before ++ c :: after ∧ c.takesArgument = false ∧
      (∀ b ∈ before, b.takesArgument = true) ∧
      .bareComponentInKeywordSelector c.keyword = e := by
  rw [bareDefect?, Option.ite_none_right_eq_some, map_find?_eq_some_iff]
  simp only [Bool.not_eq_true', Bool.not_eq_false']

theorem countDefect?_eq_some_iff :
    countDefect? components parameters = some e ↔
      components.countP (·.takesArgument) ≠ parameters.length ∧
      .parameterCountMismatch (components.countP (·.takesArgument)) parameters.length = e := by
  simp only [countDefect?, Option.ite_none_left_eq_some, Option.some.injEq, ne_eq]

theorem overflowDefect?_eq_some_iff {ranges : List SourceRange} :
    overflowDefect? ranges = some e ↔ ∃ before r after, ranges = before ++ r :: after ∧
      ¬ r.Fits ∧ (∀ b ∈ before, b.Fits) ∧ .rangeOverflow r.location r.length = e := by
  have fits (r : SourceRange) : r.stop?.isNone = false ↔ r.Fits := by
    rw [← Bool.not_eq_true, SourceRange.isNone_stop?_iff, Decidable.not_not]
  simp only [overflowDefect?, map_find?_eq_some_iff, SourceRange.isNone_stop?_iff, fits]

theorem outsideDefect?_eq_some_iff {range : SourceRange} :
    outsideDefect? components range = some e ↔ ∃ before c after,
      components = before ++ c :: after ∧ range.encloses c.range = false ∧
      (∀ b ∈ before, range.encloses b.range = true) ∧
      .componentOutsideRange c.keyword c.range = e := by
  simp only [outsideDefect?, map_find?_eq_some_iff, Bool.not_eq_true', Bool.not_eq_false']

end Checks

/-- **The checks report the first defect**, and one only if there is any. -/
theorem firstDefect?_eq_some_iff {s : Selector} {e : ParseError} :
    firstDefect? s.components s.parameters s.range = some e ↔ s.FirstDefect e := by
  simp only [firstDefect?, Option.or_eq_some_iff, Option.or_eq_none_iff, emptyDefect?_eq_none_iff,
    bareDefect?_eq_none_iff, countDefect?_eq_none_iff, overflowDefect?_eq_none_iff,
    emptyDefect?_eq_some_iff, bareDefect?_eq_some_iff, countDefect?_eq_some_iff,
    overflowDefect?_eq_some_iff, outsideDefect?_eq_some_iff]
  constructor
  · rintro ((((⟨empty, rfl⟩ | ⟨nonempty, several, _, _, _, split, bare, earlier, rfl⟩) |
        ⟨⟨nonempty, allTake⟩, mismatch, rfl⟩) |
        ⟨⟨⟨nonempty, allTake⟩, oneEach⟩, _, _, _, split, overflows, earlier, rfl⟩) |
        ⟨⟨⟨⟨nonempty, allTake⟩, oneEach⟩, fit⟩, _, _, _, split, outside, earlier, rfl⟩)
    · exact .noComponents empty
    · exact .bareComponent several split bare earlier
    · exact .parameterCount nonempty allTake mismatch
    · exact .overflow nonempty allTake oneEach split overflows earlier
    · exact .outside nonempty allTake oneEach fit split outside earlier
  · intro defect
    cases defect with
    | noComponents empty => exact .inl (.inl (.inl (.inl ⟨empty, rfl⟩)))
    | bareComponent several split bare earlier =>
        have nonempty : s.components ≠ [] := by simp [split]
        exact .inl (.inl (.inl (.inr ⟨nonempty, several, _, _, _, split, bare, earlier, rfl⟩)))
    | parameterCount nonempty allTake mismatch =>
        exact .inl (.inl (.inr ⟨⟨nonempty, allTake⟩, mismatch, rfl⟩))
    | overflow nonempty allTake oneEach split overflows earlier =>
        exact .inl (.inr ⟨⟨⟨nonempty, allTake⟩, oneEach⟩, _, _, _, split, overflows, earlier, rfl⟩)
    | outside nonempty allTake oneEach fit split outside earlier =>
        exact .inr ⟨⟨⟨⟨nonempty, allTake⟩, oneEach⟩, fit⟩, _, _, _, split, outside, earlier, rfl⟩

theorem ofFields_eq_error_iff {s : Selector} {e : ParseError} :
    ofFields s.components s.parameters s.returnType s.range = .error e ↔ s.FirstDefect e := by
  rw [← firstDefect?_eq_some_iff, ofFields]
  split <;> simp_all

/-! ## Selectors -/

/-- A value that holds the fields of a selector, whether or not they fit together. -/
def HeldBy (s : Selector) (v : Json) : Prop :=
  ∃ components parameters range,
    List.Forall₂ (fun item c => SelectorComponent.HeldBy c item) components s.components ∧
    List.Forall₂ (fun item p => Parameter.HeldBy p item) parameters s.parameters ∧
    s.range.HeldBy range ∧
    Holds [("components", .array components), ("parameters", .array parameters),
      ("return_type", .text s.returnType), ("range", range)] v

/-- **Fields are read from the values that hold them**, and then checked. -/
theorem ofJson?_eq_some_iff {v : Json} {result : Except ParseError Selector} :
    ofJson? v = some result ↔ ∃ s : Selector, s.HeldBy v ∧
      ofFields s.components s.parameters s.returnType s.range = result := by
  have answers (components parameters range : Json) (returnType : String) :=
    @Json.fields?_eq_some_iff
      [("components", components), ("parameters", parameters), ("return_type", .text returnType),
        ("range", range)]
      (by decide : ["components", "parameters", "return_type", "range"].Nodup) v
  simp only [HeldBy, ← answers, ofJson?, Option.bind_eq_bind, Option.bind_eq_some_iff]
  constructor
  · rintro ⟨fields, answered, read⟩
    split at read
    · simp only [Json.required?, Option.bind_eq_some_iff, Json.listOf?_eq_some_iff,
        SelectorComponent.ofJson?_eq_some_iff, Parameter.ofJson?_eq_some_iff,
        Json.text?_eq_some_iff, SourceRange.ofJson?_eq_some_iff, Option.pure_def,
        Option.some.injEq] at read
      obtain ⟨cs, ⟨_, rfl, components, rfl, heldComponents⟩, ps,
        ⟨_, rfl, parameters, rfl, heldParameters⟩, returnType, ⟨_, rfl, rfl⟩, r,
        ⟨range, rfl, held⟩, rfl⟩ := read
      exact ⟨⟨cs, ps, returnType, r⟩,
        ⟨components, parameters, range, heldComponents, heldParameters, held, answered⟩, rfl⟩
    · cases read
  · rintro ⟨s, ⟨components, parameters, range, heldComponents, heldParameters, held, answered⟩,
      rfl⟩
    refine ⟨_, answered, ?_⟩
    simp only [Json.required?, List.map_cons, List.map_nil, Option.bind_eq_some_iff,
      Json.listOf?_eq_some_iff, SelectorComponent.ofJson?_eq_some_iff,
      Parameter.ofJson?_eq_some_iff, Json.text?_eq_some_iff, SourceRange.ofJson?_eq_some_iff,
      Option.pure_def, Option.some.injEq]
    exact ⟨_, ⟨_, rfl, components, rfl, heldComponents⟩, _,
      ⟨_, rfl, parameters, rfl, heldParameters⟩, _, ⟨_, rfl, rfl⟩, _, ⟨range, rfl, held⟩, rfl⟩

theorem heldBy_toJson (s : Selector) : s.HeldBy s.toJson := by
  refine ⟨_, _, _, ?_, ?_, s.range.heldBy_toJson, Json.holds_record _⟩
  · rw [List.forall₂_map_left_iff, List.forall₂_same]
    exact fun c _ => c.heldBy_toJson
  · rw [List.forall₂_map_left_iff, List.forall₂_same]
    exact fun p _ => p.heldBy_toJson

theorem plain_toJson (s : Selector) : Plain s.toJson := by
  refine .record ?_
  simp only [List.forall_mem_cons]
  refine ⟨.array ?_, .array ?_, .text _, s.range.plain_toJson, nofun⟩
  · rw [List.forall_mem_map]
    exact fun c _ => c.plain_toJson
  · rw [List.forall_mem_map]
    exact fun p _ => p.plain_toJson

/-- **A well-formed selector reads back from its record.** -/
theorem WellFormed.ofJson?_toJson {s : Selector} (formed : s.WellFormed) :
    ofJson? s.toJson = some (.ok s) :=
  ofJson?_eq_some_iff.2 ⟨s, s.heldBy_toJson, ofFields_eq_ok_iff.2 ⟨rfl, formed⟩⟩

/-- **The serialized form of a selector is exact.**

* A well-formed selector reads back from its text, in either layout.
* A value is read at all exactly if it holds the fields of a selector, in an object or an array.
* Such fields are accepted exactly if they are well formed, and then they are the selector that
  is read; otherwise the first defect is reported, in the order of the checks. -/
theorem decoding_exact :
    (∀ s : Selector, s.WellFormed →
      (Json.read? s.toJson.compact).bind ofJson? = some (.ok s) ∧
      (Json.read? s.toJson.pretty).bind ofJson? = some (.ok s)) ∧
    (∀ v, (∃ result, ofJson? v = some result) ↔ ∃ s : Selector, s.HeldBy v) ∧
    ∀ (s : Selector) v, s.HeldBy v →
      ofJson? v = some (ofFields s.components s.parameters s.returnType s.range) ∧
      (∀ t, ofJson? v = some (.ok t) ↔ t = s ∧ s.WellFormed) ∧
      ∀ e, ofJson? v = some (.error e) ↔ s.FirstDefect e := by
  refine ⟨fun s formed => ?_, fun v => ?_, fun s v held => ?_⟩
  · rw [Json.read?_compact s.plain_toJson, Json.read?_pretty s.plain_toJson]
    exact ⟨formed.ofJson?_toJson, formed.ofJson?_toJson⟩
  · constructor
    · rintro ⟨result, read⟩
      obtain ⟨s, held, -⟩ := ofJson?_eq_some_iff.1 read
      exact ⟨s, held⟩
    · rintro ⟨s, held⟩
      exact ⟨_, ofJson?_eq_some_iff.2 ⟨s, held, rfl⟩⟩
  · have read := ofJson?_eq_some_iff.2 ⟨s, held, rfl⟩
    refine ⟨read, fun t => ?_, fun e => ?_⟩
    · rw [read, Option.some.injEq, ofFields_eq_ok_iff]
      constructor
      · rintro ⟨rfl, formed⟩
        exact ⟨rfl, formed⟩
      · rintro ⟨rfl, formed⟩
        exact ⟨rfl, formed⟩
    · rw [read, Option.some.injEq, ofFields_eq_error_iff]

/-- A selector at the end of the largest document, with a keyword that has to be escaped. -/
def farSelector : Selector where
  components := [⟨"é\"\n\x01", true, .clamped 18446744073709551600 15⟩]
  parameters := [⟨"id", "\\x", .clamped 18446744073709551610 5⟩]
  returnType := ""
  range := .clamped 18446744073709551600 15

/-- Fields with more than one defect: a bare keyword beside another, no parameter for the other,
and a range that runs past the largest offset. -/
def faultySelector : Selector where
  components := [⟨"a", true, .clamped 0 1⟩, ⟨"b", false, .clamped 2 1⟩]
  parameters := []
  returnType := "id"
  range := .clamped 18446744073709551615 1

/-- An object of these fields, the range in front, and of another member. -/
def faultyRecord : Json :=
  .object
    [(some "range", faultySelector.range.toJson),
      (some "components", .array (faultySelector.components.map (·.toJson))),
      (some "parameters", .array []), (some "return_type", .text "id"), (some "note", .null)]

theorem heldBy_faultyRecord : faultySelector.HeldBy faultyRecord := by
  refine ⟨faultySelector.components.map (·.toJson), [], faultySelector.range.toJson, ?_, .nil,
    faultySelector.range.heldBy_toJson, @Holds.object _ _ [(some "note", .null)] ?_ ?_⟩
  · rw [List.forall₂_map_left_iff, List.forall₂_same]
    exact fun c _ => c.heldBy_toJson
  · exact @List.perm_middle _ (some "range", faultySelector.range.toJson)
      [(some "components", .array (faultySelector.components.map (·.toJson))),
        (some "parameters", .array []), (some "return_type", .text "id")] [(some "note", .null)]
      |>.symm
  · exact List.forall_mem_singleton.2 ⟨"note", rfl, by decide⟩

theorem decoding_exact_far :
    farSelector.WellFormed ∧
      (Json.read? farSelector.toJson.compact).bind ofJson? = some (.ok farSelector) ∧
      faultySelector.HeldBy faultyRecord ∧
      ofJson? faultyRecord = some (.error (.bareComponentInKeywordSelector "b")) := by
  have accepted : ofFields farSelector.components farSelector.parameters farSelector.returnType
      farSelector.range = .ok farSelector := rfl
  have formed : farSelector.WellFormed := (ofFields_eq_ok_iff.1 accepted).2
  obtain ⟨texts, -, records⟩ := decoding_exact
  obtain ⟨read, -, -⟩ := records _ _ heldBy_faultyRecord
  exact ⟨formed, (texts _ formed).1, heldBy_faultyRecord, read⟩

end Selector

end ProtocolFakes
