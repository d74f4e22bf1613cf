import ProtocolFakes.Proofs.SourceRange.Envelope
import ProtocolFakes.Selector

/-!
# Well-formed selectors

A selector is well formed when its fields pass every check of `Selector.ofFields`,
stated here one by one (`firstDefect?_eq_none_iff`, `ofFields_eq_ok_iff`).

**Entries.** The entries of a well-formed selector pair each component that takes
an argument with exactly one parameter, and no other component with any
(`WellFormed.sound`).  Such entries say all there is to say: a selector is rebuilt
from its entries (`withEntries_entries`), and entries come back from the selector
built from them (`entries_withEntries`).  A selector built from sound entries is
well formed (`wellFormed_withEntries`).
-/

namespace ProtocolFakes.Selector

set_option autoImplicit false

/-! ## The checks -/

/-- A selector whose fields fit together. -/
structure WellFormed (s : Selector) : Prop where
  components_ne_nil : s.components ≠ []
  all_take : 1 < s.components.length → ∀ c ∈ s.components, c.takesArgument = true
  one_parameter_each : s.components.countP (·.takesArgument) = s.parameters.length
  range_fits : s.range.Fits
  component_fits : ∀ c ∈ s.components, c.range.Fits
  parameter_fits : ∀ p ∈ s.parameters, p.range.Fits
  encloses : ∀ c ∈ s.components, s.range.encloses c.range = true

theorem emptyDefect?_eq_none_iff {cs : List SelectorComponent} :
    emptyDefect? cs = none ↔ cs ≠ [] := by
  simp [emptyDefect?]

theorem bareDefect?_eq_none_iff {cs : List SelectorComponent} :
    bareDefect? cs = none ↔ (1 < cs.length → ∀ c ∈ cs, c.takesArgument = true) := by
  unfold bareDefect?
  split
  · rename_i several
    simp [several]
  · rename_i single
    simp [single]

theorem countDefect?_eq_none_iff {cs : List SelectorComponent} {ps : List Parameter} :
    countDefect? cs ps = none ↔ cs.countP (·.takesArgument) = ps.length := by
  simp [countDefect?]

theorem overflowDefect?_eq_none_iff {rs : List SourceRange} :
    overflowDefect? rs = none ↔ ∀ r ∈ rs, r.Fits := by
  unfold overflowDefect?
  rw [Option.map_eq_none_iff, List.find?_eq_none]
  exact forall₂_congr fun r _ => by rw [SourceRange.isNone_stop?_iff, Decidable.not_not]

theorem outsideDefect?_eq_none_iff {cs : List SelectorComponent} {range : SourceRange} :
    outsideDefect? cs range = none ↔ ∀ c ∈ cs, range.encloses c.range = true := by
  simp [outsideDefect?]

/-- **No check fails exactly on well-formed fields.** -/
theorem firstDefect?_eq_none_iff (s : Selector) :
    firstDefect? s.components s.parameters s.range = none ↔ s.WellFormed := by
  unfold firstDefect?
  simp only [Option.or_eq_none_iff, emptyDefect?_eq_none_iff, bareDefect?_eq_none_iff,
    countDefect?_eq_none_iff, overflowDefect?_eq_none_iff, outsideDefect?_eq_none_iff]
  constructor
  · rintro ⟨⟨⟨⟨nonempty, bare⟩, count⟩, fits⟩, inside⟩
    refine ⟨nonempty, bare, count, fits _ (by simp), ?_, ?_, inside⟩
    · intro c member
      apply fits
      simp only [List.cons_append, List.mem_cons, List.mem_append]
      exact .inr (.inl (List.mem_map_of_mem member))
    · intro p member
      apply fits
      simp only [List.cons_append, List.mem_cons, List.mem_append]
      exact .inr (.inr (List.mem_map_of_mem member))
  · intro formed
    refine ⟨⟨⟨⟨formed.components_ne_nil, formed.all_take⟩, formed.one_parameter_each⟩, ?_⟩,
      formed.encloses⟩
    intro r member
    simp only [List.cons_append, List.mem_cons, List.mem_append, List.mem_map] at member
    rcases member with rfl | ⟨c, member, rfl⟩ | ⟨p, member, rfl⟩
    · exact formed.range_fits
    · exact formed.component_fits c member
    · exact formed.parameter_fits p member

/-- **The door for outside fields lets well-formed selectors in**, and no others. -/
theorem ofFields_eq_ok_iff {cs : List SelectorComponent} {ps : List Parameter}
    {returnType : String} {range : SourceRange} {s : Selector} :
    ofFields cs ps returnType range = .ok s ↔ s = ⟨cs, ps, returnType, range⟩ ∧ s.WellFormed := by
  have checks := firstDefect?_eq_none_iff ⟨cs, ps, returnType, range⟩
  unfold ofFields
  constructor
  · intro accepted
    split at accepted
    · cases accepted
    · rename_i noDefect
      cases accepted
      exact ⟨rfl, checks.1 noDefect⟩
  · rintro ⟨rfl, formed⟩
    rw [checks.2 formed]

/-! ## Entries -/

/-- An entry whose component has a parameter exactly when it takes an argument,
with ranges that fit, the component's inside `range`. -/
structure Sound (range : SourceRange) (e : Entry) : Prop where
  paired : e.2.isSome = e.1.takesArgument
  component_fits : e.1.range.Fits
  parameter_fits : ∀ p ∈ e.2, p.range.Fits
  inside : range.encloses e.1.range = true

theorem map_fst_pairUp (cs : List SelectorComponent) (ps : List Parameter) :
    (pairUp cs ps).map (·.1) = cs := by
  induction cs generalizing ps with
  | nil => rfl
  | cons c cs ih =>
      rw [pairUp_cons]
      split <;> simp [ih]

@[simp] theorem map_fst_entries (s : Selector) : s.entries.map (·.1) = s.components :=
  map_fst_pairUp ..

@[simp] theorem length_entries (s : Selector) : s.entries.length = s.components.length := by
  rw [← map_fst_entries, List.length_map]

/-- Where there are enough parameters, they are paired in order and none is left. -/
theorem filterMap_snd_pairUp {cs : List SelectorComponent} {ps : List Parameter}
    (enough : cs.countP (·.takesArgument) = ps.length) : (pairUp cs ps).filterMap (·.2) = ps := by
  induction cs generalizing ps with
  | nil =>
      obtain rfl : ps = [] := List.eq_nil_of_length_eq_zero enough.symm
      rfl
  | cons c cs ih =>
      rw [pairUp_cons]
      by_cases takes : c.takesArgument = true
      · rw [List.countP_cons_of_pos takes] at enough
        obtain ⟨p, ps, rfl⟩ := List.exists_cons_of_length_eq_add_one enough.symm
        simp [takes, ih (Nat.succ.inj enough)]
      · rw [List.countP_cons_of_neg takes] at enough
        simp [takes, ih enough]

theorem WellFormed.filterMap_snd_entries {s : Selector} (formed : s.WellFormed) :
    s.entries.filterMap (·.2) = s.parameters := filterMap_snd_pairUp formed.one_parameter_each

/-- Where there are enough parameters, every component that takes one has one. -/
theorem paired_of_mem_pairUp {cs : List SelectorComponent} {ps : List Parameter}
    (enough : cs.countP (·.takesArgument) = ps.length) {e : Entry} (member : e ∈ pairUp cs ps) :
    e.2.isSome = e.1.takesArgument := by
  induction cs generalizing ps with
  | nil => cases member
  | cons c cs ih =>
      rw [pairUp_cons] at member
      by_cases takes : c.takesArgument = true
      · rw [List.countP_cons_of_pos takes] at enough
        obtain ⟨p, ps, rfl⟩ := List.exists_cons_of_length_eq_add_one enough.symm
        rw [if_pos takes] at member
        rcases List.mem_cons.1 member with rfl | later
        · exact takes.symm
        · exact ih (Nat.succ.inj enough) later
      · rw [List.countP_cons_of_neg takes] at enough
        rw [if_neg takes] at member
        rcases List.mem_cons.1 member with rfl | later
        · simpa using takes
        · exact ih enough later

/-- **The entries of a well-formed selector are sound.** -/
theorem WellFormed.sound {s : Selector} (formed : s.WellFormed) {e : Entry}
    (member : e ∈ s.entries) : Sound s.range e := by
  have component : e.1 ∈ s.components := by
    rw [← map_fst_entries]
    exact List.mem_map_of_mem member
  refine ⟨paired_of_mem_pairUp formed.one_parameter_each member,
    formed.component_fits _ component, ?_, formed.encloses _ component⟩
  intro p found
  apply formed.parameter_fits
  rw [← formed.filterMap_snd_entries]
  exact List.mem_filterMap.2 ⟨e, member, found⟩

theorem WellFormed.entries_takes {s : Selector} (formed : s.WellFormed)
    (several : 1 < s.components.length) {e : Entry} (member : e ∈ s.entries) :
    e.1.takesArgument = true := by
  apply formed.all_take several
  rw [← map_fst_entries]
  exact List.mem_map_of_mem member

/-- Either all entries take an argument, or there is one alone and it takes none. -/
theorem WellFormed.bare_or_all_take {s : Selector} (formed : s.WellFormed) {e : Entry}
    {es : List Entry} (split : s.entries = e :: es) :
    (e.1.takesArgument = false ∧ es = []) ∨ ∀ x ∈ e :: es, x.1.takesArgument = true := by
  cases es with
  | nil =>
      cases takes : e.1.takesArgument with
      | false => exact .inl ⟨rfl, rfl⟩
      | true => exact .inr (by simpa using takes)
  | cons e' es =>
      have several : 1 < s.components.length := by
        rw [← length_entries, split, List.length_cons, List.length_cons]
        omega
      right
      intro x member
      exact formed.entries_takes several (split ▸ member)

/-- A selector is rebuilt from its entries. -/
theorem WellFormed.withEntries_entries {s : Selector} (formed : s.WellFormed) :
    s.withEntries s.entries = s := by
  unfold withEntries
  rw [map_fst_entries, formed.filterMap_snd_entries]

/-- Paired entries come back from the selector built from them. -/
theorem entries_withEntries (s : Selector) {es : List Entry}
    (paired : ∀ e ∈ es, e.2.isSome = e.1.takesArgument) : (s.withEntries es).entries = es := by
  change pairUp (es.map (·.1)) (es.filterMap (·.2)) = es
  induction es with
  | nil => rfl
  | cons e es ih =>
      have later := ih fun e member => paired e (List.mem_cons_of_mem _ member)
      have first := paired e (List.mem_cons_self ..)
      obtain ⟨c, _ | p⟩ := e
      · have bare : c.takesArgument = false := first.symm
        simp [pairUp_cons, bare, later]
      · have takes : c.takesArgument = true := first.symm
        simp [pairUp_cons, takes, later]

/-- **A selector built from sound entries is well formed.** -/
theorem wellFormed_withEntries {s : Selector} {es : List Entry} (fits : s.range.Fits)
    (nonempty : es ≠ []) (all : 1 < es.length → ∀ e ∈ es, e.1.takesArgument = true)
    (sound : ∀ e ∈ es, Sound s.range e) : (s.withEntries es).WellFormed where
  components_ne_nil := by simpa [withEntries] using nonempty
  all_take several c member := by
    obtain ⟨e, found, rfl⟩ := List.mem_map.1 member
    exact all (by simpa [withEntries] using several) e found
  one_parameter_each := by
    change (es.map (·.1)).countP (·.takesArgument) = (es.filterMap (·.2)).length
    rw [List.countP_map, List.length_filterMap_eq_countP]
    exact List.countP_congr fun e member => by simp [(sound e member).paired]
  range_fits := fits
  component_fits c member := by
    obtain ⟨e, found, rfl⟩ := List.mem_map.1 member
    exact (sound e found).component_fits
  parameter_fits p member := by
    obtain ⟨e, member, found⟩ := List.mem_filterMap.1 member
    exact (sound e member).parameter_fits p found
  encloses c member := by
    obtain ⟨e, found, rfl⟩ := List.mem_map.1 member
    exact (sound e found).inside

end ProtocolFakes.Selector
