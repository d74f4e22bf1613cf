import ProtocolFakes.Proofs.Selector.Pairing

/-!
# Edits that take each other back

An edit is made on the entries of a selector, and the selector is rebuilt from them with its
return type and range.  So two edits that leave the entries as they were leave the selector as
it was, ranges included.

Exchanging is its own inverse (`exchange_exchange`) and does not ask for an order
(`exchange_comm`).  Where every component takes an argument, an insertion fills no old entry, so
taking the new one out takes it back (`fillPlaceholders_insertIdx`).  Renaming back gives the
old entry again (`modify_renameEntry_back`), and renames at two places do not meet.

Main theorem: `edits_undone`.
-/

namespace ProtocolFakes.Selector

set_option autoImplicit false

/-! ## Two edits in a row -/

theorem applyAll_pair_eq_ok_iff {s e : Selector} {first second : SelectorEdit} :
    s.applyAll [first, second] = .ok e ↔
      ∃ t, s.apply first = .ok t ∧ t.apply second = .ok e := by
  change (s.apply first >>= fun t => t.apply second >>= pure) = _ ↔ _
  simp only [bind_pure]
  cases s.apply first <;> simp [bind, Except.bind]

/-- What the first edit leaves of the entries does not outlive the second. -/
theorem withEntries_withEntries (s : Selector) (es es' : List Entry) :
    (s.withEntries es).withEntries es' = s.withEntries es' := rfl

theorem length_components_withEntries (s : Selector) (es : List Entry) :
    (s.withEntries es).components.length = es.length := List.length_map ..

/-! ## Exchanging -/

section Exchange

variable {α : Type} {l : List α} {i j : Nat}
variable (inRange : i < l.length) (otherInRange : j < l.length)
include inRange otherInRange

/-- Two exchanges at the same positions leave a list as it was. -/
theorem exchange_exchange : exchange (exchange l i j) i j = l := by
  refine List.ext_getElem? fun k => ?_
  have there : i < (exchange l i j).length := by rwa [length_exchange]
  have otherThere : j < (exchange l i j).length := by rwa [length_exchange]
  rw [getElem?_exchange there otherThere, getElem?_exchange inRange otherInRange,
    getElem?_exchange inRange otherInRange, getElem?_exchange inRange otherInRange]
  by_cases atI : k = i
  · subst atI
    by_cases same : j = k <;> simp [same]
  · by_cases atJ : k = j
    · subst atJ
      simp [atI]
    · simp [atI, atJ]

/-- The positions of an exchange have no order. -/
theorem exchange_comm : exchange l i j = exchange l j i := by
  refine List.ext_getElem? fun k => ?_
  rw [getElem?_exchange inRange otherInRange, getElem?_exchange otherInRange inRange]
  by_cases atI : k = i
  · subst atI
    by_cases same : k = j <;> simp [same]
  · by_cases atJ : k = j
    · subst atJ
      simp [atI]
    · simp [atI, atJ]

end Exchange

/-! ## Inserting -/

/-- Where no parameter is missing, none is filled in. -/
theorem eq_of_filled {es old : List Entry} (all : ∀ e ∈ es, e.2.isSome = true)
    (filled : List.Forall₂ Filled es old) : old = es := by
  induction filled with
  | nil => rfl
  | cons first _ ih =>
      rw [ih fun e member => all e (List.mem_cons_of_mem _ member)]
      cases first with
      | kept c p => rfl
      | bare c name => cases all _ (List.mem_cons_self ..)

/-- Among entries that have their parameters, only the new one is filled. -/
theorem fillPlaceholders_insertIdx (used : List String) {es : List Entry} {i : Nat}
    (inRange : i ≤ es.length) (all : ∀ e ∈ es, e.2.isSome = true) (c : SelectorComponent) :
    ∃ name, fillPlaceholders used 0 (es.insertIdx i (c, none)) =
      es.insertIdx i (placeholderEntry c name) := by
  obtain ⟨old, name, filled, same⟩ := exists_fillPlaceholders_insertIdx used 0 inRange c
  exact ⟨name, by rw [same, eq_of_filled all filled]⟩

/-! ## Renaming -/

/-- An entry with another keyword. -/
def renameEntry (keyword : String) (e : Entry) : Entry := ({ e.1 with keyword }, e.2)

/-- A change that leaves the entry at its index as it is leaves the list as it is. -/
theorem modify_eq_self {α : Type} {l : List α} {i : Nat} {f : α → α}
    (same : ∀ a, l[i]? = some a → f a = a) : l.modify i f = l := by
  refine List.ext_getElem? fun k => ?_
  rw [List.getElem?_modify]
  cases found : l[k]? with
  | none => rfl
  | some a =>
      by_cases here : i = k
      · subst here
        simp [same a found]
      · simp [here]

theorem getElem?_components_withEntries (s : Selector) (es : List Entry) (i : Nat) :
    (s.withEntries es).components[i]? = es[i]?.map (·.1) := List.getElem?_map ..

/-- The component of an entry stands at the same index. -/
theorem fst_of_getElem?_entries {s : Selector} {i : Nat} {e : Entry}
    (found : s.entries[i]? = some e) : s.components[i]? = some e.1 := by
  rw [← map_fst_entries, List.getElem?_map, found]
  rfl

/-- Renaming to the old keyword gives the old list. -/
theorem modify_renameEntry_back {s : Selector} {i : Nat} {c : SelectorComponent}
    (found : s.components[i]? = some c) (keyword : String) :
    (s.entries.modify i (renameEntry keyword)).modify i (renameEntry c.keyword) = s.entries := by
  rw [List.modify_modify_eq]
  refine modify_eq_self fun e here => ?_
  have same : e.1 = c := Option.some.inj ((fst_of_getElem?_entries here).symm.trans found)
  subst same
  rfl

/-- A rename changes no other component. -/
theorem getElem?_components_rename_ne (s : Selector) {i j : Nat} (apart : i ≠ j)
    (keyword : String) :
    (s.withEntries (s.entries.modify i (renameEntry keyword))).components[j]? =
      s.components[j]? := by
  rw [getElem?_components_withEntries, List.getElem?_modify_ne _ _ apart, ← List.getElem?_map,
    map_fst_entries]

/-! ## The laws -/

theorem apply_swap_comm {s : Selector} {i j : Nat} (inRange : i < s.components.length)
    (otherInRange : j < s.components.length) : s.apply (.swap i j) = s.apply (.swap j i) := by
  have there : s.apply (.swap i j) = .ok (s.withEntries (exchange s.entries i j)) :=
    swapAt_eq_ok_iff.2 ⟨inRange, otherInRange, rfl⟩
  have back : s.apply (.swap j i) = .ok (s.withEntries (exchange s.entries j i)) :=
    swapAt_eq_ok_iff.2 ⟨otherInRange, inRange, rfl⟩
  rw [← length_entries] at inRange otherInRange
  rw [there, back, exchange_comm inRange otherInRange]

section Laws

variable {s : Selector} (formed : s.WellFormed)
include formed

theorem WellFormed.applyAll_swap_swap {i j : Nat} (inRange : i < s.components.length)
    (otherInRange : j < s.components.length) : s.applyAll [.swap i j, .swap i j] = .ok s := by
  have step := EditStep.swap inRange otherInRange
  have left := formed.entries_of_step step
  rw [← length_entries] at inRange otherInRange
  refine applyAll_pair_eq_ok_iff.2 ⟨_, apply_eq_ok_iff.2 ⟨_, step, rfl⟩,
    swapAt_eq_ok_iff.2 ⟨?_, ?_, ?_⟩⟩
  · rwa [length_components_withEntries, length_exchange]
  · rwa [length_components_withEntries, length_exchange]
  · rw [left, exchange_exchange inRange otherInRange, withEntries_withEntries,
      formed.withEntries_entries]

theorem WellFormed.applyAll_insert_delete
    (all : ∀ c ∈ s.components, c.takesArgument = true) {i : Nat}
    (inRange : i ≤ s.components.length) : s.applyAll [.insert i, .delete i] = .ok s := by
  have step := EditStep.insert inRange
  have left := formed.entries_of_step step
  have parameters : ∀ e ∈ s.entries, e.2.isSome = true := by
    intro e member
    rw [(formed.sound member).paired]
    exact all _ (map_fst_entries s ▸ List.mem_map_of_mem member)
  have positive := List.length_pos_iff.2 formed.components_ne_nil
  rw [← length_entries] at inRange positive
  obtain ⟨name, filled⟩ := fillPlaceholders_insertIdx (s.parameters.map (·.name)) inRange
    parameters (s.insertedComponent i)
  rw [filled] at step left
  refine applyAll_pair_eq_ok_iff.2 ⟨_, apply_eq_ok_iff.2 ⟨_, step, rfl⟩,
    deleteAt_eq_ok_iff.2 ⟨?_, ?_, ?_⟩⟩
  · rw [length_components_withEntries, List.length_insertIdx_of_le_length inRange]
    omega
  · rw [length_components_withEntries, List.length_insertIdx_of_le_length inRange]
    omega
  · rw [left, List.eraseIdx_insertIdx_self, withEntries_withEntries, formed.withEntries_entries]

theorem WellFormed.eq_of_rename_back {i : Nat} {keyword : String} {c : SelectorComponent}
    {e : Selector} (found : s.components[i]? = some c)
    (renamed : s.applyAll [.rename i keyword, .rename i c.keyword] = .ok e) : e = s := by
  obtain ⟨t, first, second⟩ := applyAll_pair_eq_ok_iff.1 renamed
  obtain ⟨es, step, rfl⟩ := apply_eq_ok_iff.1 first
  have left := formed.entries_of_step step
  cases step
  obtain ⟨_, _, _, rfl⟩ := renameAt_eq_ok_iff.1 second
  rw [left, withEntries_withEntries]
  refine Eq.trans (congrArg s.withEntries ?_) formed.withEntries_entries
  exact modify_renameEntry_back found keyword

theorem WellFormed.rename_comm {i j : Nat} {keyword otherKeyword : String} {t u : Selector}
    (apart : i ≠ j) (first : s.apply (.rename i keyword) = .ok t)
    (second : s.apply (.rename j otherKeyword) = .ok u) :
    ∃ e, t.apply (.rename j otherKeyword) = .ok e ∧ u.apply (.rename i keyword) = .ok e := by
  obtain ⟨es, step, rfl⟩ := apply_eq_ok_iff.1 first
  obtain ⟨es', step', rfl⟩ := apply_eq_ok_iff.1 second
  have left := formed.entries_of_step step
  have left' := formed.entries_of_step step'
  cases step with | rename found allowed
  cases step' with | rename found' allowed'
  refine ⟨_, renameAt_eq_ok_iff.2 ⟨_, ?_, allowed', rfl⟩, renameAt_eq_ok_iff.2 ⟨_, ?_, allowed, ?_⟩⟩
  · exact (getElem?_components_rename_ne s apart keyword).trans found'
  · exact (getElem?_components_rename_ne s apart.symm otherKeyword).trans found
  · rw [left, left', withEntries_withEntries, withEntries_withEntries,
      List.modify_modify_ne _ _ _ apart]

end Laws

/-- **Edits are taken back by edits**, and the selector is the old one with all its ranges.
Take a well-formed selector.

* A swap at two indices is taken back by the same swap, and the indices have no order.
* Where every component takes an argument, an insertion is taken back by a deletion at its
  index.
* A rename is taken back by renaming to the old keyword, if that is allowed.
* Renames at different indices can be made in either order. -/
theorem edits_undone {s : Selector} (formed : s.WellFormed) :
    (∀ i j, i < s.components.length → j < s.components.length →
      s.applyAll [.swap i j, .swap i j] = .ok s ∧
        s.apply (.swap i j) = s.apply (.swap j i)) ∧
    ((∀ c ∈ s.components, c.takesArgument = true) → ∀ i ≤ s.components.length,
      s.applyAll [.insert i, .delete i] = .ok s) ∧
    (∀ i keyword c e, s.components[i]? = some c →
      s.applyAll [.rename i keyword, .rename i c.keyword] = .ok e → e = s) ∧
    ∀ i j keyword otherKeyword t u, i ≠ j → s.apply (.rename i keyword) = .ok t →
      s.apply (.rename j otherKeyword) = .ok u →
        ∃ e, t.apply (.rename j otherKeyword) = .ok e ∧ u.apply (.rename i keyword) = .ok e := by
  refine ⟨?_, ?_, ?_, ?_⟩
  · intro i j inRange otherInRange
    exact ⟨formed.applyAll_swap_swap inRange otherInRange, apply_swap_comm inRange otherInRange⟩
  · intro all i inRange
    exact formed.applyAll_insert_delete all inRange
  · intro i keyword c e found renamed
    exact formed.eq_of_rename_back found renamed
  · intro i j keyword otherKeyword t u apart first second
    exact formed.rename_comm apart first second

/-- A selector of two components: swapped and swapped back, with a third one put between them
and taken out, with a keyword changed and changed back, and with both changed. -/
theorem edits_undone_age :
    ∃ s e : Selector,
      ofFields [⟨"name", true, .clamped 8 9⟩, ⟨"age", true, .clamped 18 9⟩]
        [⟨"id", "name", .clamped 12 5⟩, ⟨"int", "age", .clamped 21 6⟩] "void" (.clamped 0 27) =
          .ok s ∧
      s.applyAll [.swap 0 1, .swap 0 1] = .ok s ∧ s.applyAll [.insert 1, .delete 1] = .ok s ∧
      s.applyAll [.rename 1 "", .rename 1 "age"] = .ok s ∧
      s.applyAll [.rename 0 "title", .rename 1 ""] = .ok e ∧
      s.applyAll [.rename 1 "", .rename 0 "title"] = .ok e := by
  have made : ofFields [⟨"name", true, .clamped 8 9⟩, ⟨"age", true, .clamped 18 9⟩]
      [⟨"id", "name", .clamped 12 5⟩, ⟨"int", "age", .clamped 21 6⟩] "void" (.clamped 0 27) =
        .ok _ := rfl
  obtain ⟨swaps, insertions, back, renames⟩ := edits_undone (ofFields_eq_ok_iff.1 made).2
  obtain ⟨e, first, second⟩ := renames 0 1 "title" "" _ _ (by decide) rfl rfl
  have same := back 1 "" _ _ rfl rfl
  refine ⟨_, e, made, (swaps 0 1 (by decide) (by decide)).1,
    insertions (by decide) 1 (by decide), ?_, ?_, ?_⟩
  · exact congrArg Except.ok same
  · exact applyAll_pair_eq_ok_iff.2 ⟨_, rfl, first⟩
  · exact applyAll_pair_eq_ok_iff.2 ⟨_, rfl, second⟩

end ProtocolFakes.Selector
