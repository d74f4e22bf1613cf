import Mathlib.Data.List.InsertIdx
import ProtocolFakes.Proofs.Selector.Reachable
import ProtocolFakes.Proofs.Selector.Shift
import ProtocolFakes.Proofs.Selector.WriteBack

/-!
# A declaration may stand anywhere

A method is read from a stretch of a document that may begin at any byte.  Where it
begins changes the locations of all ranges by the same number and nothing else
(`position_independent`): not what is read or blamed (`ofTokens_moves`), not what edits
leave of it (`applyAll_shift`), and not what a new declaration replaces (`applyTo?_shift`).

Edits compute ranges only where they put a placeholder: just behind a component, where
the next one begins, or behind all components.  All three move with the components.  An
edited selector reaches no further than the old one (`WellFormed.movable_applyAll`), so
its ranges move without being clamped.
-/

namespace ProtocolFakes.Selector

set_option autoImplicit false

open Text (byteLength)
open TextEdit (applyTo?_eq)

variable {base : Nat}

/-! ## Moving entries -/

/-- The entry moved forward by `base` bytes. -/
def shiftEntry (base : Nat) (e : Entry) : Entry :=
  (e.1.shift base, e.2.map (Parameter.shift base))

theorem pairUp_map_shift (base : Nat) (cs : List SelectorComponent) (ps : List Parameter) :
    pairUp (cs.map (SelectorComponent.shift base)) (ps.map (Parameter.shift base)) =
      (pairUp cs ps).map (shiftEntry base) := by
  induction cs generalizing ps with
  | nil => rfl
  | cons c cs ih =>
      rw [List.map_cons, pairUp, pairUp]
      by_cases takes : c.takesArgument = true
      · simp [SelectorComponent.shift, shiftEntry, takes, ← ih, List.map_tail]
      · simp [SelectorComponent.shift, shiftEntry, takes, ← ih]

theorem entries_shift (s : Selector) : (s.shift base).entries = s.entries.map (shiftEntry base) :=
  pairUp_map_shift base s.components s.parameters

theorem withEntries_shift (s : Selector) (es : List Entry) :
    (s.shift base).withEntries (es.map (shiftEntry base)) = (s.withEntries es).shift base := by
  refine Selector.ext ?_ ?_ rfl rfl
  · change (es.map (shiftEntry base)).map (·.1) = (es.map (·.1)).map (SelectorComponent.shift base)
    rw [List.map_map, List.map_map]
    rfl
  · change (es.map (shiftEntry base)).filterMap (·.2) =
      (es.filterMap (·.2)).map (Parameter.shift base)
    rw [List.filterMap_map, List.map_filterMap]
    rfl

theorem declareEntry_shift (e : Entry) : declareEntry (shiftEntry base e) = declareEntry e := by
  obtain ⟨c, _ | p⟩ := e <;> rfl

/-- A declaration does not say where it stands. -/
theorem declaration_shift (s : Selector) (kind : MethodKind) :
    (s.shift base).declaration kind = s.declaration kind := by
  have texts : (s.shift base).entries.map declareEntry = s.entries.map declareEntry := by
    rw [entries_shift, List.map_map]
    exact List.map_congr_left fun e _ => declareEntry_shift e
  rw [declaration, declaration, texts]
  rfl

/-! ## Placeholders -/

theorem placeholderRange_shift (c : SelectorComponent) :
    placeholderRange (c.shift base) = (placeholderRange c).shift base := by
  unfold placeholderRange
  change (if c.keyword.isEmpty then c.range.shift base else .emptyAt (c.range.shift base).stop) = _
  split
  · rfl
  · exact (SourceRange.shift_emptyAt_stop base c.range).symm

theorem fillPlaceholders_map_shift (used : List String) (position : Nat) (es : List Entry) :
    fillPlaceholders used position (es.map (shiftEntry base)) =
      (fillPlaceholders used position es).map (shiftEntry base) := by
  fun_induction fillPlaceholders used position es with
  | case1 => rfl
  | case2 used position c p es ih =>
      rw [List.map_cons, shiftEntry, Option.map_some, fillPlaceholders, ih]
      rfl
  | case3 used position c es name ih =>
      rw [List.map_cons, shiftEntry, Option.map_none, fillPlaceholders, ih, placeholderRange_shift]
      rfl

/-- An inserted component moves with the others. -/
theorem insertionPoint_shift {s : Selector} (nonempty : s.components ≠ []) (index : Nat) :
    (s.shift base).insertionPoint index = clampOffset (s.insertionPoint index + base) := by
  have clampMax (m n : Nat) : max (clampOffset (m + base)) (clampOffset (n + base)) =
      clampOffset (max m n + base) := by
    unfold clampOffset
    omega
  have components : (s.shift base).components =
      s.components.map (SelectorComponent.shift base) := rfl
  unfold insertionPoint
  rw [components, List.getElem?_map]
  cases found : s.components[index]? with
  | some next => rfl
  | none =>
      obtain ⟨c, cs, split⟩ := List.exists_cons_of_ne_nil nonempty
      have stop (d : SelectorComponent) :
          (d.shift base).range.stop = clampOffset (d.range.stop + base) :=
        SourceRange.stop_shift base d.range
      -- Every end moves in the same way, and moving commutes with `max`: so the greatest moves.
      simp only [Option.map_none, split, List.map_cons, List.foldl_cons, Nat.zero_max,
        List.foldl_map, stop]
      exact List.foldl_hom (fun n => clampOffset (n + base)) fun n d => clampMax n d.range.stop

theorem insertedComponent_shift {s : Selector} (nonempty : s.components ≠ []) (index : Nat) :
    (s.shift base).insertedComponent index = (s.insertedComponent index).shift base := by
  unfold insertedComponent
  rw [insertionPoint_shift nonempty, ← SourceRange.shift_emptyAt]
  rfl

/-! ## Edits -/

theorem exchange_map {α β : Type} (f : α → β) (l : List α) (i j : Nat) :
    exchange (l.map f) i j = (exchange l i j).map f := by
  unfold exchange
  rw [List.getElem?_map, List.getElem?_map]
  cases l[i]? with
  | none => rfl
  | some x =>
      cases l[j]? with
      | none => rfl
      | some y => simp

theorem modify_map {α β : Type} {f : α → β} {g : α → α} {g' : β → β}
    (commutes : ∀ a, g' (f a) = f (g a)) (l : List α) (i : Nat) :
    (l.map f).modify i g' = (l.modify i g).map f := by
  induction l generalizing i with
  | nil => rw [List.map_nil, List.modify_nil, List.modify_nil, List.map_nil]
  | cons a l ih =>
      cases i with
      | zero => simp [commutes]
      | succ i => simp [ih]

@[simp] theorem length_components_shift (s : Selector) :
    (s.shift base).components.length = s.components.length := List.length_map ..

theorem getElem?_components_shift (s : Selector) (index : Nat) :
    (s.shift base).components[index]? =
      s.components[index]?.map (SelectorComponent.shift base) := List.getElem?_map ..

theorem checkIndex_shift (s : Selector) (index : Nat) :
    (s.shift base).checkIndex index = s.checkIndex index := by
  rw [checkIndex, checkIndex, length_components_shift]

theorem deleteAt_shift (s : Selector) (index : Nat) :
    (s.shift base).deleteAt index = (s.deleteAt index).map (Selector.shift base) := by
  unfold deleteAt
  rw [checkIndex_shift, length_components_shift, entries_shift, List.eraseIdx_map,
    withEntries_shift]
  cases s.checkIndex index with
  | error defect => rfl
  | ok _ =>
      by_cases single : s.components.length = 1
      · simp [single, bind, Except.bind, Except.map]
      · simp [single, bind, Except.bind, Except.map, pure, Except.pure]

theorem insertAt_eq (s : Selector) (index : Nat) :
    s.insertAt index =
      if s.components.length < index then .error (.indexOutOfBounds index s.components.length)
      else .ok (s.withEntries (fillPlaceholders (s.parameters.map (·.name)) 0
        (s.entries.insertIdx index (s.insertedComponent index, none)))) := rfl

theorem insertAt_shift {s : Selector} (nonempty : s.components ≠ []) (index : Nat) :
    (s.shift base).insertAt index = (s.insertAt index).map (Selector.shift base) := by
  have names : (s.shift base).parameters.map (·.name) = s.parameters.map (·.name) := by
    unfold shift
    rw [List.map_map]
    rfl
  have placeholder : (((s.shift base).insertedComponent index, none) : Entry) =
      shiftEntry base (s.insertedComponent index, none) := by
    rw [insertedComponent_shift nonempty]
    rfl
  rw [insertAt_eq, insertAt_eq, length_components_shift, names, placeholder, entries_shift,
    ← List.map_insertIdx, fillPlaceholders_map_shift, withEntries_shift]
  split <;> rfl

theorem swapAt_shift (s : Selector) (index otherIndex : Nat) :
    (s.shift base).swapAt index otherIndex =
      (s.swapAt index otherIndex).map (Selector.shift base) := by
  unfold swapAt
  rw [checkIndex_shift, checkIndex_shift, entries_shift, exchange_map, withEntries_shift]
  cases s.checkIndex index with
  | error defect => rfl
  | ok _ => cases s.checkIndex otherIndex <;> rfl

/-- A rename changes the component of one entry. -/
theorem renameAt_eq (s : Selector) (index : Nat) (keyword : String) :
    s.renameAt index keyword =
      match s.components[index]? with
      | none => .error (.indexOutOfBounds index s.components.length)
      | some c =>
          if allowsKeyword c keyword then
            .ok (s.withEntries (s.entries.modify index fun e => ({ e.1 with keyword }, e.2)))
          else .error (.invalidKeyword keyword) := rfl

theorem renameAt_shift (s : Selector) (index : Nat) (keyword : String) :
    (s.shift base).renameAt index keyword =
      (s.renameAt index keyword).map (Selector.shift base) := by
  have renamed : (s.entries.map (shiftEntry base)).modify index
      (fun e => ({ e.1 with keyword }, e.2)) =
        (s.entries.modify index fun e => ({ e.1 with keyword }, e.2)).map (shiftEntry base) := by
    apply modify_map
    intro e
    rfl
  rw [renameAt_eq, renameAt_eq, length_components_shift, getElem?_components_shift, entries_shift,
    renamed, withEntries_shift]
  cases s.components[index]? with
  | none => rfl
  | some c =>
      rw [Option.map_some]
      by_cases allowed : allowsKeyword c keyword = true
      · have allowed' : allowsKeyword (c.shift base) keyword = true := allowed
        simp only [allowed, allowed', if_true, Except.map]
      · have allowed' : ¬ allowsKeyword (c.shift base) keyword = true := allowed
        simp only [allowed, allowed', Bool.false_eq_true, if_false, Except.map]

/-- **An edit does the same wherever the selector stands.** -/
theorem apply_shift {s : Selector} (nonempty : s.components ≠ []) (edit : SelectorEdit) :
    (s.shift base).apply edit = (s.apply edit).map (Selector.shift base) := by
  cases edit with
  | delete index => exact deleteAt_shift s index
  | insert index => exact insertAt_shift nonempty index
  | swap index otherIndex => exact swapAt_shift s index otherIndex
  | rename index keyword => exact renameAt_shift s index keyword

/-- **A run of edits does the same wherever the selector stands.** -/
theorem applyAll_shift {s : Selector} (formed : s.WellFormed) (edits : List SelectorEdit) :
    (s.shift base).applyAll edits = (s.applyAll edits).map (Selector.shift base) := by
  induction edits generalizing s with
  | nil => rfl
  | cons edit edits ih =>
      unfold applyAll at ih ⊢
      rw [List.foldlM_cons, List.foldlM_cons, apply_shift formed.components_ne_nil]
      cases step : s.apply edit with
      | error defect => rfl
      | ok e => exact ih (formed.apply step)

/-! ## The ranges of an edited selector -/

theorem mem_ranges_iff {s : Selector} {r : SourceRange} :
    r ∈ s.ranges ↔ r = s.range ∨ (∃ c ∈ s.components, c.range = r) ∨
      ∃ p ∈ s.parameters, p.range = r := by
  simp [ranges]

/-- The parameter of an entry behind an edit reaches no further than the old ranges. -/
theorem WellFormed.movable_origin {s : Selector} (formed : s.WellFormed)
    (movable : ∀ r ∈ s.ranges, r.Movable base) {e : Entry} (origin : Origin s e) :
    ∀ p ∈ e.2, p.range.Movable base := by
  have component {c : SelectorComponent} {q : Option Parameter} (member : (c, q) ∈ s.entries) :
      c.range.Movable base := by
    refine movable _ (mem_ranges_iff.2 (.inr (.inl ⟨c, ?_, rfl⟩)))
    rw [← map_fst_entries]
    exact List.mem_map_of_mem member
  have parameter {c : SelectorComponent} {q : Option Parameter} (member : (c, q) ∈ s.entries) :
      ∀ p ∈ q, p.range.Movable base := by
    intro p found
    refine movable _ (mem_ranges_iff.2 (.inr (.inr ⟨p, ?_, rfl⟩)))
    rw [← formed.filterMap_snd_entries]
    exact List.mem_filterMap.2 ⟨_, member, found⟩
  intro p found
  cases origin with
  | kept member => exact parameter member p found
  | renamed member allowed => exact parameter member p found
  | filled member =>
      cases found
      have old := component member
      change (placeholderRange _).Movable base
      unfold placeholderRange
      split
      · exact old
      · exact SourceRange.movable_emptyAt old.stop_add_le
  | @inserted index n inRange =>
      cases found
      have whole := movable s.range (mem_ranges_iff.2 (.inl rfl))
      have below := (formed.insertionPoint_bounds index).2
      exact SourceRange.movable_emptyAt
        (Nat.le_trans (Nat.add_le_add_right below base) whole.stop_add_le)

/-- Edits make no range that reaches further than the old ones. -/
theorem WellFormed.movable_apply {s e : Selector} {edit : SelectorEdit} (formed : s.WellFormed)
    (movable : ∀ r ∈ s.ranges, r.Movable base) (applied : s.apply edit = .ok e) :
    ∀ r ∈ e.ranges, r.Movable base := by
  have formed' := formed.apply applied
  obtain ⟨es, step, rfl⟩ := apply_eq_ok_iff.1 applied
  have whole : s.range.Movable base := movable s.range (mem_ranges_iff.2 (.inl rfl))
  intro r member
  rcases mem_ranges_iff.1 member with rfl | ⟨c, found, rfl⟩ | ⟨p, found, rfl⟩
  · exact whole
  · -- A component lies in the range of its selector.
    have inside := (SourceRange.encloses_iff.1 (formed'.encloses c found)).2
    exact SourceRange.movable_of_stop_add_le (formed'.component_fits c found)
      (Nat.le_trans (Nat.add_le_add_right inside base) whole.stop_add_le)
  · obtain ⟨x, member, some⟩ := List.mem_filterMap.1 found
    exact formed.movable_origin movable (step.origin member) p some

/-- A run of edits makes none either. -/
theorem WellFormed.movable_applyAll {s e : Selector} {edits : List SelectorEdit}
    (formed : s.WellFormed) (movable : ∀ r ∈ s.ranges, r.Movable base)
    (applied : s.applyAll edits = .ok e) : ∀ r ∈ e.ranges, r.Movable base := by
  refine (applyAll_induction (P := fun t => t.WellFormed ∧ ∀ r ∈ t.ranges, r.Movable base)
    ⟨formed, movable⟩ ?_ applied).2
  rintro t e edit ⟨formed, movable⟩ step
  exact ⟨formed.apply step, formed.movable_apply movable step⟩

/-! ## Writing back -/

section Document

variable {d source : String} {kind : MethodKind} {s : Selector}
variable (fits : byteLength d.toList + byteLength source.toList ≤ maxOffset)
variable (read : ofTokens (tokenize source 0) = .ok (kind, s))
include fits read

/-- The ranges of what is read stay offsets behind a text in front. -/
theorem movable_of_read : ∀ r ∈ s.ranges, r.Movable (byteLength d.toList) :=
  movable_of_ofTokens (fun _ member => movable_of_mem_tokenize fits member) read

/-- **Writing back does the same behind a text in front.** -/
theorem applyTo?_shift {e : Selector} {edits : List SelectorEdit} (run : s.applyAll edits = .ok e)
    (asKind : MethodKind) :
    ∃ patched, (e.replacement asKind).applyTo? source = some patched ∧
      ((e.shift (byteLength d.toList)).replacement asKind).applyTo? (d ++ source) =
        some (d ++ patched) := by
  have whole := movable_of_read fits read s.range (mem_ranges_iff.2 (.inl rfl))
  obtain ⟨gs, old, rs, text, -, location, stop, -⟩ := exists_surrounds (by omega) read
  rw [← (applyAll_keeps run).2] at whole location stop
  rw [Nat.zero_add] at location stop
  have sourceEq : source = String.ofList (spelling gs ++ old ++ spelling rs) := by
    rw [← text, String.ofList_toList]
  have documentEq : d ++ source =
      String.ofList ((d.toList ++ spelling gs) ++ old ++ spelling rs) := by
    simp only [List.append_assoc, String.ofList_append, String.ofList_toList, sourceEq]
  have location' : (e.range.shift (byteLength d.toList)).location =
      byteLength (d.toList ++ spelling gs) := by
    rw [SourceRange.location_shift whole, location, Text.byteLength_append, Nat.add_comm]
  have stop' : (e.range.shift (byteLength d.toList)).stop =
      byteLength (d.toList ++ spelling gs) + byteLength old := by
    rw [SourceRange.stop_shift_of_movable whole, stop, Text.byteLength_append]
    omega
  refine ⟨String.ofList (spelling gs) ++ e.declaration asKind ++ String.ofList (spelling rs),
    ?_, ?_⟩
  · rw [sourceEq]
    exact applyTo?_eq whole.fits location stop
  · rw [documentEq]
    have written : ((e.shift (byteLength d.toList)).replacement asKind).applyTo?
        (String.ofList ((d.toList ++ spelling gs) ++ old ++ spelling rs)) = _ :=
      applyTo?_eq whole.fits_shift location' stop'
    rw [written, replacement, declaration_shift]
    simp only [String.ofList_append, String.ofList_toList, String.append_assoc]

end Document

/-! ## Anywhere -/

/-- **Nothing depends on where a declaration stands.** Take a source, and a text `d` in
front of it such that the end of both is an offset.  Behind that text the source is
refused with the same defect or read as the same method, with the location of every range
moved by the length of `d` and its length kept.  Every run of edits then fails in the same
way or leaves selectors that differ by the same move, and writing either of these back
replaces the same text: the document is `d` with the patched source behind it. -/
theorem position_independent {d source : String}
    (fits : byteLength d.toList + byteLength source.toList ≤ maxOffset) :
    (∀ defect, ofTokens (tokenize source 0) = .error defect →
      ofTokens (tokenize source (byteLength d.toList)) =
        .error (defect.shift (byteLength d.toList)) ∧
      ∀ r ∈ defect.ranges, r.ShiftsExactly (byteLength d.toList)) ∧
    ∀ kind s, ofTokens (tokenize source 0) = .ok (kind, s) →
      ofTokens (tokenize source (byteLength d.toList)) =
        .ok (kind, s.shift (byteLength d.toList)) ∧
      (∀ r ∈ s.ranges, r.ShiftsExactly (byteLength d.toList)) ∧
      ∀ edits,
        (s.shift (byteLength d.toList)).applyAll edits =
          (s.applyAll edits).map (Selector.shift (byteLength d.toList)) ∧
        ∀ e, s.applyAll edits = .ok e →
          (∀ r ∈ e.ranges, r.ShiftsExactly (byteLength d.toList)) ∧
          ∀ asKind, ∃ patched, (e.replacement asKind).applyTo? source = some patched ∧
            ((e.shift (byteLength d.toList)).replacement asKind).applyTo? (d ++ source) =
              some (d ++ patched) := by
  have moves := ofTokens_moves fun t member => movable_of_mem_tokenize fits member
  rw [← tokenize_eq_map_shift] at moves
  refine ⟨?_, ?_⟩
  · intro defect refused
    rw [refused] at moves
    obtain ⟨refused', movable⟩ := moves.of_error
    exact ⟨refused', fun r member => (movable r member).shiftsExactly⟩
  · intro kind s read
    have formed : s.WellFormed := Built.wellFormed (.source read)
    have movable := movable_of_read fits read
    rw [read] at moves
    refine ⟨moves.of_ok, fun r member => (movable r member).shiftsExactly, ?_⟩
    intro edits
    refine ⟨applyAll_shift formed edits, ?_⟩
    intro e run
    have movable' := formed.movable_applyAll movable run
    exact ⟨fun r member => (movable' r member).shiftsExactly, applyTo?_shift fits read run⟩

/-- A method behind a class gets an argument more. -/
theorem position_independent_foo :
    ∃ e : Selector,
      ofTokens (tokenize fooSource 10) = .ok (.instanceMethod, fooSelector.shift 10) ∧
      (fooSelector.shift 10).range.location = 10 ∧
      (fooSelector.shift 10).applyAll [.insert 1, .rename 1 "bar"] = .ok (e.shift 10) ∧
      ((e.shift 10).replacement .instanceMethod).applyTo? ("@class A;\n" ++ fooSource) =
        some ("@class A;\n" ++ "- (void)foo:(id)x bar:(id)arg1;") := by
  have fits : byteLength "@class A;\n".toList + byteLength fooSource.toList ≤ maxOffset := by
    decide
  obtain ⟨read, ranges, edited⟩ :=
    (position_independent fits).2 .instanceMethod fooSelector read_fooSource.2
  have run : fooSelector.applyAll [.insert 1, .rename 1 "bar"] = .ok _ := rfl
  obtain ⟨run', written⟩ := edited [.insert 1, .rename 1 "bar"]
  obtain ⟨-, written⟩ := written _ run
  obtain ⟨patched, applied, applied'⟩ := written .instanceMethod
  rw [run] at run'
  have patchedEq : some patched = some "- (void)foo:(id)x bar:(id)arg1;" := by
    rw [← applied]
    decide
  obtain rfl := Option.some.inj patchedEq
  exact ⟨_, read, (ranges _ (List.mem_cons_self ..)).1, run', applied'⟩

end ProtocolFakes.Selector
