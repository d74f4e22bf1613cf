import ProtocolFakes.Proofs.FreshName
import ProtocolFakes.Proofs.Selector.Invariant
import ProtocolFakes.Selector.Edit

/-!
# What an edit does to the entries

`EditStep s edit es` says that `es` are the entries an edit leaves of a selector,
with the checks that let it through.  An edit succeeds exactly with the selector
built from such entries (`apply_eq_ok_iff`), so the return type and the range of
a selector are never touched.

Every entry behind an edit is an old one, a renamed one or a placeholder
(`EditStep.origin`).  A property of entries that survives renaming and holds
of placeholders therefore survives every edit.

**Invariants.** Edits keep selectors well formed (`WellFormed.apply`), and so does
every run of them (`WellFormed.applyAll`).
-/

namespace ProtocolFakes.Selector

set_option autoImplicit false

/-! ## One step -/

/-- A component with the placeholder parameter that an insertion gives it. -/
def placeholderEntry (c : SelectorComponent) (name : String) : Entry :=
  ({ c with takesArgument := true }, some ⟨placeholderType, name, placeholderRange c⟩)

/-- The component that is inserted at an index. -/
def insertedComponent (s : Selector) (index : Nat) : SelectorComponent :=
  ⟨"", true, .emptyAt (s.insertionPoint index)⟩

/-- The entries that an edit leaves of a selector. -/
inductive EditStep (s : Selector) : SelectorEdit → List Entry → Prop where
  | delete {index : Nat} (inRange : index < s.components.length)
      (several : s.components.length ≠ 1) :
      EditStep s (.delete index) (s.entries.eraseIdx index)
  | insert {index : Nat} (inRange : index ≤ s.components.length) :
      EditStep s (.insert index) (fillPlaceholders (s.parameters.map (·.name)) 0
        (s.entries.insertIdx index (s.insertedComponent index, none)))
  | swap {index otherIndex : Nat} (inRange : index < s.components.length)
      (otherInRange : otherIndex < s.components.length) :
      EditStep s (.swap index otherIndex) (exchange s.entries index otherIndex)
  | rename {index : Nat} {keyword : String} {c : SelectorComponent}
      (found : s.components[index]? = some c) (allowed : allowsKeyword c keyword = true) :
      EditStep s (.rename index keyword)
        (s.entries.modify index fun (c, p) => ({ c with keyword }, p))

theorem checkIndex_eq_ok_iff {s : Selector} {index : Nat} :
    s.checkIndex index = .ok () ↔ index < s.components.length := by
  unfold checkIndex
  split <;> simp_all

theorem deleteAt_eq_ok_iff {s e : Selector} {index : Nat} :
    s.deleteAt index = .ok e ↔ index < s.components.length ∧ s.components.length ≠ 1 ∧
      e = s.withEntries (s.entries.eraseIdx index) := by
  unfold deleteAt
  rw [← checkIndex_eq_ok_iff]
  cases s.checkIndex index with
  | error defect => simp [bind, Except.bind]
  | ok _ =>
      by_cases single : s.components.length = 1
      · simp [single, bind, Except.bind]
      · simp [single, bind, Except.bind, pure, Except.pure, eq_comm]

theorem insertAt_eq_ok_iff {s e : Selector} {index : Nat} :
    s.insertAt index = .ok e ↔ index ≤ s.components.length ∧
      e = s.withEntries (fillPlaceholders (s.parameters.map (·.name)) 0
        (s.entries.insertIdx index (s.insertedComponent index, none))) := by
  unfold insertAt
  by_cases outside : s.components.length < index
  · simp [outside, Nat.not_le.2 outside]
  · simp [outside, Nat.not_lt.1 outside, insertedComponent, eq_comm]

theorem swapAt_eq_ok_iff {s e : Selector} {index otherIndex : Nat} :
    s.swapAt index otherIndex = .ok e ↔
      index < s.components.length ∧ otherIndex < s.components.length ∧
        e = s.withEntries (exchange s.entries index otherIndex) := by
  unfold swapAt
  rw [← checkIndex_eq_ok_iff, ← checkIndex_eq_ok_iff]
  cases s.checkIndex index with
  | error defect => simp [bind, Except.bind]
  | ok _ =>
      cases s.checkIndex otherIndex with
      | error defect => simp [bind, Except.bind]
      | ok _ => simp [bind, Except.bind, pure, Except.pure, eq_comm]

theorem renameAt_eq_ok_iff {s e : Selector} {index : Nat} {keyword : String} :
    s.renameAt index keyword = .ok e ↔
      ∃ c, s.components[index]? = some c ∧ allowsKeyword c keyword = true ∧
        e = s.withEntries (s.entries.modify index fun (c, p) => ({ c with keyword }, p)) := by
  unfold renameAt
  cases s.components[index]? with
  | none => simp
  | some c =>
      dsimp only
      constructor
      · intro applied
        by_cases allowed : allowsKeyword c keyword = true
        · rw [if_pos allowed] at applied
          exact ⟨c, rfl, allowed, (Except.ok.inj applied).symm⟩
        · rw [if_neg allowed] at applied
          cases applied
      · rintro ⟨d, same, allowed, rfl⟩
        cases same
        rw [if_pos allowed]

/-- **An edit succeeds exactly with the entries of a step.** -/
theorem apply_eq_ok_iff {s e : Selector} {edit : SelectorEdit} :
    s.apply edit = .ok e ↔ ∃ es, EditStep s edit es ∧ e = s.withEntries es := by
  constructor
  · intro applied
    cases edit with
    | delete index =>
        obtain ⟨inRange, several, rfl⟩ := deleteAt_eq_ok_iff.1 applied
        exact ⟨_, .delete inRange several, rfl⟩
    | insert index =>
        obtain ⟨inRange, rfl⟩ := insertAt_eq_ok_iff.1 applied
        exact ⟨_, .insert inRange, rfl⟩
    | swap index otherIndex =>
        obtain ⟨inRange, otherInRange, rfl⟩ := swapAt_eq_ok_iff.1 applied
        exact ⟨_, .swap inRange otherInRange, rfl⟩
    | rename index keyword =>
        obtain ⟨c, found, allowed, rfl⟩ := renameAt_eq_ok_iff.1 applied
        exact ⟨_, .rename found allowed, rfl⟩
  · rintro ⟨es, step, rfl⟩
    cases step with
    | delete inRange several => exact deleteAt_eq_ok_iff.2 ⟨inRange, several, rfl⟩
    | insert inRange => exact insertAt_eq_ok_iff.2 ⟨inRange, rfl⟩
    | swap inRange otherInRange => exact swapAt_eq_ok_iff.2 ⟨inRange, otherInRange, rfl⟩
    | rename found allowed => exact renameAt_eq_ok_iff.2 ⟨_, found, allowed, rfl⟩

/-! ## Placeholders -/

@[simp] theorem length_fillPlaceholders (used : List String) (position : Nat) (es : List Entry) :
    (fillPlaceholders used position es).length = es.length := by
  fun_induction fillPlaceholders used position es with
  | case1 => rfl
  | case2 _ _ _ _ _ ih => simp [ih]
  | case3 _ _ _ _ _ ih => simp [ih]

/-- Filling keeps the entries that have a parameter and replaces the others. -/
theorem mem_fillPlaceholders {used : List String} {position : Nat} {es : List Entry} {e : Entry}
    (member : e ∈ fillPlaceholders used position es) :
    (e ∈ es ∧ e.2.isSome = true) ∨
      ∃ c n, (c, none) ∈ es ∧ e = placeholderEntry c (numberedName "arg" n) := by
  fun_induction fillPlaceholders used position es with
  | case1 => cases member
  | case2 used position c p es ih =>
      rcases List.mem_cons.1 member with rfl | later
      · exact .inl ⟨List.mem_cons_self .., rfl⟩
      · rcases ih later with ⟨kept, taken⟩ | ⟨d, n, bare, rfl⟩
        · exact .inl ⟨List.mem_cons_of_mem _ kept, taken⟩
        · exact .inr ⟨d, n, List.mem_cons_of_mem _ bare, rfl⟩
  | case3 used position c es name ih =>
      rcases List.mem_cons.1 member with rfl | later
      · obtain ⟨n, numbered, -⟩ := firstFree_least used "arg" position
        exact .inr ⟨c, n, List.mem_cons_self .., by rw [← numbered]; rfl⟩
      · rcases ih later with ⟨kept, taken⟩ | ⟨d, n, bare, rfl⟩
        · exact .inl ⟨List.mem_cons_of_mem _ kept, taken⟩
        · exact .inr ⟨d, n, List.mem_cons_of_mem _ bare, rfl⟩

/-! ## Where entries come from -/

/-- Where an entry behind an edit comes from. -/
inductive Origin (s : Selector) : Entry → Prop where
  | kept {e : Entry} (member : e ∈ s.entries) : Origin s e
  | renamed {c : SelectorComponent} {p : Option Parameter} {keyword : String}
      (member : (c, p) ∈ s.entries) (allowed : allowsKeyword c keyword = true) :
      Origin s ({ c with keyword }, p)
  | filled {c : SelectorComponent} {n : Nat} (member : (c, none) ∈ s.entries) :
      Origin s (placeholderEntry c (numberedName "arg" n))
  | inserted {index n : Nat} (inRange : index ≤ s.components.length) :
      Origin s (placeholderEntry (s.insertedComponent index) (numberedName "arg" n))

theorem mem_of_mem_exchange {α : Type} {l : List α} {i j : Nat} {a : α}
    (member : a ∈ exchange l i j) : a ∈ l := by
  unfold exchange at member
  split at member
  · rename_i x y foundX foundY
    rcases List.mem_or_eq_of_mem_set member with member | rfl
    · rcases List.mem_or_eq_of_mem_set member with member | rfl
      · exact member
      · exact List.mem_of_getElem? foundY
    · exact List.mem_of_getElem? foundX
  · exact member

@[simp] theorem length_exchange {α : Type} (l : List α) (i j : Nat) :
    (exchange l i j).length = l.length := by
  unfold exchange
  split <;> simp

/-- **Every entry behind an edit is an old one, a renamed one or a placeholder.** -/
theorem EditStep.origin {s : Selector} {edit : SelectorEdit} {es : List Entry} {e : Entry}
    (step : EditStep s edit es) (member : e ∈ es) : Origin s e := by
  cases step with
  | delete inRange several => exact .kept (List.mem_of_mem_eraseIdx member)
  | insert inRange =>
      rcases mem_fillPlaceholders member with ⟨member, taken⟩ | ⟨c, n, member, rfl⟩
      · rcases (List.mem_insertIdx (by simpa using inRange)).1 member with rfl | member
        · cases taken
        · exact .kept member
      · rename_i bare
        rcases (List.mem_insertIdx (by simpa using inRange)).1 bare with same | member
        · cases same
          exact .inserted inRange
        · exact .filled member
  | swap inRange otherInRange => exact .kept (mem_of_mem_exchange member)
  | @rename index keyword c found allowed =>
      obtain ⟨i, at_i⟩ := List.mem_iff_getElem?.1 member
      rw [List.getElem?_modify] at at_i
      obtain ⟨⟨d, p⟩, old, changed⟩ := Option.map_eq_some_iff.1 at_i
      have oldMember := List.mem_of_getElem? old
      by_cases here : index = i
      · subst here
        have same : d = c := by
          have component : s.components[index]? = some d := by
            rw [← map_fst_entries, List.getElem?_map, old]
            rfl
          rw [found] at component
          exact (Option.some.inj component).symm
        simp only [if_true] at changed
        subst changed same
        exact .renamed oldMember allowed
      · simp only [here, if_false] at changed
        subst changed
        exact .kept oldMember

/-! ## Edits keep selectors well formed -/

/-- An inserted component stands where the selector stands. -/
theorem WellFormed.insertionPoint_bounds {s : Selector} (formed : s.WellFormed) (index : Nat) :
    s.range.location ≤ s.insertionPoint index ∧ s.insertionPoint index ≤ s.range.stop := by
  have bounds : ∀ c ∈ s.components,
      s.range.location ≤ c.range.location ∧ c.range.stop ≤ s.range.stop := fun c member =>
    SourceRange.encloses_iff.1 (formed.encloses c member)
  unfold insertionPoint
  split
  · rename_i next found
    obtain ⟨lower, upper⟩ := bounds next (List.mem_of_getElem? found)
    exact ⟨lower, Nat.le_trans next.range.location_le_stop upper⟩
  · obtain ⟨c, first⟩ := List.exists_mem_of_ne_nil _ formed.components_ne_nil
    have greatestStop : (0 :: s.components.map (·.range.stop)).max? =
        some ((s.components.map (·.range.stop)).foldl max 0) := List.max?_cons'
    obtain ⟨attained, greatest⟩ := List.max?_eq_some_iff.1 greatestStop
    have stopLe := greatest _ (List.mem_cons_of_mem _ (List.mem_map_of_mem first))
    constructor
    · calc s.range.location ≤ c.range.location := (bounds c first).1
        _ ≤ c.range.stop := c.range.location_le_stop
        _ ≤ _ := stopLe
    · rcases List.mem_cons.1 attained with zero | stop
      · rw [zero]
        exact Nat.zero_le _
      · obtain ⟨d, found, same⟩ := List.mem_map.1 stop
        rw [← same]
        exact (bounds d found).2

theorem sound_placeholderEntry {range : SourceRange} {c : SelectorComponent} (fits : c.range.Fits)
    (inside : range.encloses c.range = true) (name : String) :
    Sound range (placeholderEntry c name) where
  paired := rfl
  component_fits := fits
  parameter_fits p member := by
    cases member
    change (placeholderRange c).Fits
    unfold placeholderRange
    split
    · exact fits
    · exact SourceRange.fits_clamped (c.range.stop_le)
  inside := inside

theorem WellFormed.sound_of_origin {s : Selector} (formed : s.WellFormed) {e : Entry}
    (origin : Origin s e) : Sound s.range e := by
  cases origin with
  | kept member => exact formed.sound member
  | renamed member allowed =>
      obtain ⟨paired, componentFits, parameterFits, inside⟩ := formed.sound member
      exact ⟨paired, componentFits, parameterFits, inside⟩
  | filled member =>
      have old := formed.sound member
      exact sound_placeholderEntry old.component_fits old.inside _
  | @inserted index n inRange =>
      obtain ⟨lower, upper⟩ := formed.insertionPoint_bounds index
      have below : s.insertionPoint index ≤ maxOffset := Nat.le_trans upper s.range.stop_le
      refine sound_placeholderEntry (SourceRange.fits_clamped below)
        (SourceRange.encloses_iff.2 ⟨?_, ?_⟩) _
      · exact Nat.le_trans lower (Nat.le_of_eq (SourceRange.location_clamped below).symm)
      · exact Nat.le_trans (Nat.le_of_eq (SourceRange.stop_clamped below)) upper

theorem EditStep.ne_nil {s : Selector} {edit : SelectorEdit} {es : List Entry}
    (formed : s.WellFormed) (step : EditStep s edit es) : es ≠ [] := by
  have positive := List.length_pos_iff.2 formed.components_ne_nil
  refine List.length_pos_iff.1 ?_
  cases step with
  | delete inRange several =>
      rw [List.length_eraseIdx_of_lt (by simpa using inRange), length_entries]
      omega
  | insert inRange =>
      rw [length_fillPlaceholders, List.length_insertIdx_of_le_length (by simpa using inRange)]
      omega
  | swap inRange otherInRange => rwa [length_exchange, length_entries]
  | rename found allowed => rwa [List.length_modify, length_entries]

/-- Where an edit leaves several entries, each takes an argument. -/
theorem EditStep.takes {s : Selector} {edit : SelectorEdit} {es : List Entry}
    (formed : s.WellFormed) (step : EditStep s edit es) (several : 1 < es.length) :
    ∀ e ∈ es, e.1.takesArgument = true := by
  intro e member
  -- Only an insertion can make several entries out of one, and it fills all of them.
  by_cases single : 1 < s.components.length
  · cases step.origin member with
    | kept old => exact formed.entries_takes single old
    | @renamed c p _ old allowed => exact formed.entries_takes (e := (c, p)) single old
    | filled old => rfl
    | inserted inRange => rfl
  · cases step with
    | delete inRange _ =>
        rw [List.length_eraseIdx_of_lt (by simpa using inRange), length_entries] at several
        omega
    | insert inRange =>
        rcases mem_fillPlaceholders member with ⟨old, taken⟩ | ⟨c, n, old, rfl⟩
        · rcases (List.mem_insertIdx (by simpa using inRange)).1 old with rfl | old
          · rfl
          · rw [← (formed.sound old).paired, taken]
        · rfl
    | swap inRange otherInRange =>
        rw [length_exchange, length_entries] at several
        omega
    | rename found allowed =>
        rw [List.length_modify, length_entries] at several
        omega

/-- **An edit keeps a selector well formed.** -/
theorem WellFormed.apply {s e : Selector} {edit : SelectorEdit} (formed : s.WellFormed)
    (applied : s.apply edit = .ok e) : e.WellFormed := by
  obtain ⟨es, step, rfl⟩ := apply_eq_ok_iff.1 applied
  exact wellFormed_withEntries formed.range_fits (step.ne_nil formed) (step.takes formed)
    fun e member => formed.sound_of_origin (step.origin member)

/-! ## Runs of edits -/

/-- The selector after edits, one after another, as long as each succeeds. -/
def applyAll (s : Selector) (edits : List SelectorEdit) : Except EditError Selector :=
  edits.foldlM apply s

/-- What every edit preserves, every run of edits preserves. -/
theorem applyAll_induction {P : Selector → Prop} {s e : Selector} {edits : List SelectorEdit}
    (start : P s)
    (preserved : ∀ {s e : Selector} {edit : SelectorEdit}, P s → s.apply edit = .ok e → P e)
    (applied : s.applyAll edits = .ok e) : P e := by
  induction edits generalizing s with
  | nil =>
      cases applied
      exact start
  | cons edit edits ih =>
      unfold applyAll at applied
      rw [List.foldlM_cons] at applied
      cases step : s.apply edit with
      | error defect => rw [step] at applied; cases applied
      | ok s' =>
          rw [step] at applied
          exact ih (preserved start step) applied

/-- **A run of edits keeps a selector well formed.** -/
theorem WellFormed.applyAll {s e : Selector} {edits : List SelectorEdit} (formed : s.WellFormed)
    (applied : s.applyAll edits = .ok e) : e.WellFormed :=
  applyAll_induction formed WellFormed.apply applied

/-- A run of edits touches neither the return type nor the range. -/
theorem applyAll_keeps {s e : Selector} {edits : List SelectorEdit}
    (applied : s.applyAll edits = .ok e) : e.returnType = s.returnType ∧ e.range = s.range := by
  refine applyAll_induction (P := fun t => t.returnType = s.returnType ∧ t.range = s.range)
    ⟨rfl, rfl⟩ ?_ applied
  intro t e edit same step
  obtain ⟨es, -, rfl⟩ := apply_eq_ok_iff.1 step
  exact same

end ProtocolFakes.Selector
