import ProtocolFakes.Proofs.Selector.Pairing

/-!
# The names of placeholders

An insertion goes through the entries in order and gives every component without a parameter a
placeholder.  The name of one is searched from its position up, past the names of the selector
and past those that the same insertion has given before (`Given`): `getElem?_fillPlaceholders`
says so for one position, and which entries are filled is seen from the result
(`not_mem_parameters_iff`), since no placeholder is a parameter that was there before.

No name is given twice.  So parameter names that are pairwise distinct stay so in every edit
(`EditStep.nodup_names`) and in every run of edits (`nodup_names_applyAll`).

Main theorem: `placeholders_fresh`.
-/

namespace ProtocolFakes.Selector

set_option autoImplicit false

/-! ## One placeholder after another -/

/-- A name that filling gives to an entry in front of an index. -/
def Given (es filled : List Entry) (p : Nat) (name : String) : Prop :=
  ∃ p' < p, ∃ c d q, es[p']? = some (c, none) ∧ filled[p']? = some (d, some q) ∧ q.name = name

theorem given_succ_cons {e e' : Entry} {es filled : List Entry} {p : Nat} {name : String} :
    Given (e :: es) (e' :: filled) (p + 1) name ↔
      (e.2 = none ∧ ∃ q, e'.2 = some q ∧ q.name = name) ∨ Given es filled p name := by
  constructor
  · rintro ⟨p', before, c, d, q, bare, given, named⟩
    cases p' with
    | zero =>
        cases bare
        cases given
        exact .inl ⟨rfl, q, rfl, named⟩
    | succ p' => exact .inr ⟨p', Nat.lt_of_succ_lt_succ before, c, d, q, bare, given, named⟩
  · obtain ⟨c, o⟩ := e
    obtain ⟨d, o'⟩ := e'
    rintro (⟨rfl, q, rfl, named⟩ | ⟨p', before, c', d', q, bare, given, named⟩)
    · exact ⟨0, Nat.succ_pos p, c, d, q, rfl, rfl, named⟩
    · exact ⟨p' + 1, Nat.succ_lt_succ before, c', d', q, bare, given, named⟩

/-- Filling keeps the parameters that are there. -/
theorem getElem?_fillPlaceholders_some (used : List String) (position : Nat) {es : List Entry}
    {p : Nat} {c : SelectorComponent} {q : Parameter} (found : es[p]? = some (c, some q)) :
    (fillPlaceholders used position es)[p]? = some (c, some q) := by
  induction es generalizing used position p with
  | nil => cases found
  | cons e es ih =>
      obtain ⟨d, _ | r⟩ := e <;> cases p with
      | zero => first | exact found | cases found
      | succ p => exact ih _ _ found

/-- **A placeholder has the first free name from its position up**, where the names in use are
those from the start and those given to earlier placeholders. -/
theorem getElem?_fillPlaceholders_none (used : List String) (position : Nat) {es : List Entry}
    {p : Nat} {c : SelectorComponent} (missing : es[p]? = some (c, none)) :
    ∃ taken k,
      (fillPlaceholders used position es)[p]? =
        some (placeholderEntry c (numberedName "arg" k)) ∧
      SearchEnds taken "arg" (position + p) k ∧
      ∀ name, name ∈ taken ↔
        name ∈ used ∨ Given es (fillPlaceholders used position es) p name := by
  induction es generalizing used position p with
  | nil => cases missing
  | cons e es ih =>
      cases p with
      | zero =>
          obtain ⟨d, _ | r⟩ := e
          · cases missing
            obtain ⟨k, -, ends, found⟩ := exists_searchEnds used "arg" position
            refine ⟨used, k, ?_, ends, ?_⟩
            · rw [← found]
              rfl
            · intro name
              exact ⟨.inl, fun member => member.resolve_right fun ⟨_, before, _⟩ => nomatch before⟩
          · cases missing
      | succ p =>
          have behind : position + (p + 1) = position + 1 + p := by omega
          rw [behind]
          obtain ⟨d, _ | r⟩ := e
          · obtain ⟨taken, k, filled, ends, same⟩ :=
              ih (firstFree used "arg" position :: used) (position + 1) missing
            refine ⟨taken, k, filled, ends, ?_⟩
            intro name
            rw [same, fillPlaceholders, given_succ_cons, List.mem_cons]
            simp only [true_and, Option.some.injEq, exists_eq_left']
            tauto
          · obtain ⟨taken, k, filled, ends, same⟩ := ih used (position + 1) missing
            refine ⟨taken, k, filled, ends, ?_⟩
            intro name
            rw [same, fillPlaceholders, given_succ_cons]
            simp

/-! ## The placeholders of an insertion -/

/-- The entries of a selector with a new component among them that has no parameter yet. -/
def entriesWithNew (s : Selector) (index : Nat) : List Entry :=
  s.entries.insertIdx index (s.insertedComponent index, none)

/-- The selector with a new component. -/
def inserted (s : Selector) (index : Nat) : Selector :=
  s.withEntries (fillPlaceholders (s.parameters.map (·.name)) 0 (s.entriesWithNew index))

/-- The names that are in use when the parameter at a position gets its name: those of the old
selector, and those of the parameters in front of the position that it did not have. -/
def namesTakenAt (s e : Selector) (p : Nat) : List String :=
  s.parameters.map (·.name) ++
    (((List.range p).filterMap e.parameterAt?).filter (· ∉ s.parameters)).map (·.name)

section Insertion

variable {s : Selector} (formed : s.WellFormed) {index : Nat}
variable (inRange : index ≤ s.components.length)
include formed inRange

theorem WellFormed.parameterAt?_inserted_iff {p : Nat} {q : Parameter} :
    (s.inserted index).parameterAt? p = some q ↔
      ∃ c, (fillPlaceholders (s.parameters.map (·.name)) 0 (s.entriesWithNew index))[p]? =
        some (c, some q) := by
  have left := formed.entries_of_step (.insert inRange)
  rw [parameterAt?_eq_some_iff]
  unfold inserted entriesWithNew
  rw [left]

/-- **The parameters that an insertion adds are those it fills in**: no other is new, and none
of them was there before. -/
theorem WellFormed.not_mem_parameters_iff {p : Nat} {q : Parameter}
    (found : (s.inserted index).parameterAt? p = some q) :
    q ∉ s.parameters ↔ ∃ c, (s.entriesWithNew index)[p]? = some (c, none) := by
  obtain ⟨d, there⟩ := (formed.parameterAt?_inserted_iff inRange).1 found
  constructor
  · intro new
    obtain ⟨inside, -⟩ := List.getElem?_eq_some_iff.1 there
    rw [length_fillPlaceholders] at inside
    obtain ⟨⟨c, o⟩, old⟩ : ∃ e, (s.entriesWithNew index)[p]? = some e :=
      ⟨_, List.getElem?_eq_getElem inside⟩
    cases o with
    | none => exact ⟨c, old⟩
    | some q' =>
        have kept := getElem?_fillPlaceholders_some (s.parameters.map (·.name)) 0 old
        rw [there] at kept
        cases kept
        have member := List.mem_of_getElem? old
        rcases (List.mem_insertIdx (length_entries s ▸ inRange)).1 member with same | member
        · cases same
        · refine absurd ?_ new
          rw [← formed.filterMap_snd_entries]
          exact List.mem_filterMap.2 ⟨_, member, rfl⟩
  · rintro ⟨c, missing⟩ member
    obtain ⟨taken, k, filled, ends, same⟩ :=
      getElem?_fillPlaceholders_none (s.parameters.map (·.name)) 0 missing
    rw [there] at filled
    cases filled
    exact ends.isLeast.1.2 ((same _).2 (.inl (List.mem_map_of_mem (f := (·.name)) member)))

/-- The names in use at a position are those that the insertion has seen so far. -/
theorem WellFormed.mem_namesTakenAt_iff {p : Nat} {name : String} :
    name ∈ namesTakenAt s (s.inserted index) p ↔
      name ∈ s.parameters.map (·.name) ∨
        Given (s.entriesWithNew index)
          (fillPlaceholders (s.parameters.map (·.name)) 0 (s.entriesWithNew index)) p name := by
  rw [namesTakenAt, List.mem_append]
  refine or_congr_right ?_
  simp only [List.mem_map, List.mem_filter, List.mem_filterMap, List.mem_range, decide_eq_true_eq]
  constructor
  · rintro ⟨q, ⟨⟨p', before, found⟩, new⟩, named⟩
    obtain ⟨d, there⟩ := (formed.parameterAt?_inserted_iff inRange).1 found
    obtain ⟨c, missing⟩ := (formed.not_mem_parameters_iff inRange found).1 new
    exact ⟨p', before, c, d, q, missing, there, named⟩
  · rintro ⟨p', before, c, d, q, missing, there, named⟩
    have found := (formed.parameterAt?_inserted_iff inRange).2 ⟨d, there⟩
    exact ⟨q, ⟨⟨p', before, found⟩, (formed.not_mem_parameters_iff inRange found).2 ⟨c, missing⟩⟩,
      named⟩

/-- **An added parameter has the first free name from its position up.** -/
theorem WellFormed.placeholder_at {p : Nat} {q : Parameter}
    (found : (s.inserted index).parameterAt? p = some q) (new : q ∉ s.parameters) :
    ∃ k, q.typeName = "id" ∧ q.name = numberedName "arg" k ∧
      SearchEnds (namesTakenAt s (s.inserted index) p) "arg" p k := by
  obtain ⟨d, there⟩ := (formed.parameterAt?_inserted_iff inRange).1 found
  obtain ⟨c, missing⟩ := (formed.not_mem_parameters_iff inRange found).1 new
  obtain ⟨taken, k, filled, ends, same⟩ :=
    getElem?_fillPlaceholders_none (s.parameters.map (·.name)) 0 missing
  rw [there] at filled
  cases filled
  rw [Nat.zero_add] at ends
  exact ⟨k, rfl, rfl, ends.of_same fun name => by
    rw [same, formed.mem_namesTakenAt_iff inRange]⟩

/-- A new component has no parameter, and neither has a component that stood alone. -/
theorem WellFormed.missing_iff {p : Nat} :
    (∃ c, (s.entriesWithNew index)[p]? = some (c, none)) ↔
      p = index ∨ s.isUnary = true ∧ p ≤ 1 := by
  have nonempty : s.entries ≠ [] := by
    rw [← List.length_pos_iff, length_entries]
    exact List.length_pos_iff.2 formed.components_ne_nil
  rw [← length_entries] at inRange
  have parameters := formed.filterMap_snd_entries
  obtain ⟨⟨c, o⟩, es, split⟩ := List.exists_cons_of_ne_nil nonempty
  have paired (e : Entry) (member : e ∈ s.entries) : e.2.isSome = e.1.takesArgument :=
    (formed.sound member).paired
  rw [entriesWithNew, isUnary]
  rw [split] at inRange parameters paired ⊢
  rcases formed.bare_or_all_take split with ⟨bare, rfl⟩ | all
  · have unfilled : o.isSome = false := (paired _ (List.mem_cons_self ..)).trans bare
    obtain rfl : o = none := by simpa using unfilled
    have unary : s.parameters = [] := parameters.symm
    have atMost : index = 0 ∨ index = 1 := by
      rw [List.length_singleton] at inRange
      omega
    rcases atMost with rfl | rfl <;> rcases p with _ | _ | p <;> simp [unary]
  · have full (e : Entry) (member : e ∈ (c, o) :: es) : e.2.isSome = true :=
      (paired e member).trans (all e member)
    obtain ⟨q, rfl⟩ := Option.isSome_iff_exists.1 (full _ (List.mem_cons_self ..))
    have several : s.parameters.isEmpty = false := by
      rw [← parameters]
      rfl
    rw [List.getElem?_insertIdx, several]
    constructor
    · rintro ⟨d, found⟩
      split at found
      · cases full _ (List.mem_of_getElem? found)
      · split at found
        · rename_i here
          exact .inl here
        · cases full _ (List.mem_of_getElem? found)
    · rintro (rfl | ⟨unary, -⟩)
      · exact ⟨s.insertedComponent p, by simpa using inRange⟩
      · cases unary

/-- **An insertion adds the parameter of the new component**, and one more for a component that
stood alone without one. -/
theorem WellFormed.exists_added_iff {p : Nat} :
    (∃ q, (s.inserted index).parameterAt? p = some q ∧ q ∉ s.parameters) ↔
      p = index ∨ s.isUnary = true ∧ p ≤ 1 := by
  rw [← formed.missing_iff inRange]
  constructor
  · rintro ⟨q, found, new⟩
    exact (formed.not_mem_parameters_iff inRange found).1 new
  · rintro ⟨c, missing⟩
    obtain ⟨taken, k, filled, -⟩ :=
      getElem?_fillPlaceholders_none (s.parameters.map (·.name)) 0 missing
    have found := (formed.parameterAt?_inserted_iff inRange).2 ⟨_, filled⟩
    exact ⟨_, found, (formed.not_mem_parameters_iff inRange found).2 ⟨c, missing⟩⟩

end Insertion

/-! ## Distinct names -/

/-- The names of the parameters of entries. -/
def entryNames (es : List Entry) : List String := (es.filterMap (·.2)).map (·.name)

/-- Filling gives no name that was in use. -/
theorem mem_entryNames_fillPlaceholders {used : List String} {position : Nat} {es : List Entry}
    {name : String} (member : name ∈ entryNames (fillPlaceholders used position es)) :
    name ∈ entryNames es ∨ name ∉ used := by
  induction es generalizing used position with
  | nil => cases member
  | cons e es ih =>
      obtain ⟨c, _ | q⟩ := e
      · rcases List.mem_cons.1 member with rfl | later
        · exact .inr (firstFree_not_mem used "arg" position)
        · exact (ih later).imp_right fun free taken => free (List.mem_cons_of_mem _ taken)
      · rcases List.mem_cons.1 member with rfl | later
        · exact .inl (List.mem_cons_self ..)
        · exact (ih later).imp_left (List.mem_cons_of_mem _)

/-- Filling keeps names distinct that are all in use. -/
theorem nodup_entryNames_fillPlaceholders {used : List String} (position : Nat) {es : List Entry}
    (inUse : ∀ name ∈ entryNames es, name ∈ used) (distinct : (entryNames es).Nodup) :
    (entryNames (fillPlaceholders used position es)).Nodup := by
  induction es generalizing used position with
  | nil => exact .nil
  | cons e es ih =>
      obtain ⟨c, _ | q⟩ := e
      · refine List.nodup_cons.2 ⟨fun member => ?_,
          ih _ (fun name there => List.mem_cons_of_mem _ (inUse name there)) distinct⟩
        rcases mem_entryNames_fillPlaceholders member with there | free
        · exact firstFree_not_mem used "arg" position (inUse _ there)
        · exact free (List.mem_cons_self ..)
      · obtain ⟨apart, distinct⟩ := List.nodup_cons.1 distinct
        refine List.nodup_cons.2 ⟨fun member => ?_,
          ih _ (fun name there => inUse name (List.mem_cons_of_mem _ there)) distinct⟩
        rcases mem_entryNames_fillPlaceholders member with there | free
        · exact apart there
        · exact free (inUse _ (List.mem_cons_self ..))

theorem exchange_perm {α : Type} (l : List α) (i j : Nat) : (exchange l i j).Perm l := by
  unfold exchange
  split
  · rename_i x y foundX foundY
    obtain ⟨inRange, rfl⟩ := List.getElem?_eq_some_iff.1 foundX
    obtain ⟨otherInRange, rfl⟩ := List.getElem?_eq_some_iff.1 foundY
    exact List.set_set_perm inRange otherInRange
  · exact .refl l

theorem filterMap_snd_modify (es : List Entry) (i : Nat) (keyword : String) :
    (es.modify i fun (c, p) => ({ c with keyword }, p)).filterMap (·.2) = es.filterMap (·.2) := by
  have same : (es.modify i fun (c, p) => ({ c with keyword }, p)).map (·.2) = es.map (·.2) := by
    refine List.ext_getElem? fun k => ?_
    rw [List.getElem?_map, List.getElem?_map, List.getElem?_modify]
    cases es[k]? with
    | none => rfl
    | some e => by_cases here : i = k <;> simp [here]
  have parameters := congrArg (List.filterMap id) same
  rwa [List.filterMap_map, List.filterMap_map] at parameters

/-- **An edit keeps the names of parameters distinct.** -/
theorem EditStep.nodup_names {s : Selector} (formed : s.WellFormed) {edit : SelectorEdit}
    {es : List Entry} (step : EditStep s edit es) (distinct : (s.parameters.map (·.name)).Nodup) :
    (entryNames es).Nodup := by
  have names : s.parameters.map (·.name) = entryNames s.entries := by
    rw [entryNames, formed.filterMap_snd_entries]
  rw [names] at distinct
  cases step with
  | delete inRange several =>
      exact (((List.eraseIdx_sublist ..).filterMap _).map _).nodup distinct
  | @insert index inRange =>
      have same : (entryNames (s.entries.insertIdx index (s.insertedComponent index, none))).Perm
          (entryNames s.entries) :=
        ((List.perm_insertIdx _ _ (length_entries s ▸ inRange)).filterMap _).map _
      rw [names]
      exact nodup_entryNames_fillPlaceholders 0 (fun name => same.mem_iff.1)
        (same.nodup_iff.2 distinct)
  | swap inRange otherInRange =>
      exact (((exchange_perm ..).filterMap _).map _).nodup_iff.2 distinct
  | @rename index keyword c found allowed =>
      rwa [entryNames, filterMap_snd_modify]

/-- **Every run of edits keeps the names of parameters distinct.** -/
theorem WellFormed.nodup_names_applyAll {s e : Selector} {edits : List SelectorEdit}
    (formed : s.WellFormed) (distinct : (s.parameters.map (·.name)).Nodup)
    (run : s.applyAll edits = .ok e) : (e.parameters.map (·.name)).Nodup := by
  refine (applyAll_induction (P := fun t => t.WellFormed ∧ (t.parameters.map (·.name)).Nodup)
    ⟨formed, distinct⟩ ?_ run).2
  rintro t e edit ⟨formed, distinct⟩ applied
  refine ⟨formed.apply applied, ?_⟩
  obtain ⟨es, step, rfl⟩ := apply_eq_ok_iff.1 applied
  exact step.nodup_names formed distinct

/-- **Placeholders have fresh names with the least number.** An insertion into a well-formed
selector, at the end at the latest, succeeds and finds its names.

* It adds the parameter of the new component.  Only to a selector without parameters does it
  add another, that of the other component.
* An added parameter at a position is an `id` named `arg` and the least number from the position
  up with which the name is neither that of an old parameter nor that of a parameter added at
  an earlier position.  The search for it ends after no more numbers than there are such names.
* Hence parameter names that are pairwise distinct stay so, whatever the number of insertions
  and of other edits. -/
theorem placeholders_fresh {s : Selector} (formed : s.WellFormed) :
    (∀ index ≤ s.components.length, ∃ e, s.apply (.insert index) = .ok e ∧
      (∀ p, (∃ q, e.parameterAt? p = some q ∧ q ∉ s.parameters) ↔
        p = index ∨ s.isUnary = true ∧ p ≤ 1) ∧
      ∀ p q, e.parameterAt? p = some q → q ∉ s.parameters →
        ∃ k ≤ p + (namesTakenAt s e p).length,
          SearchEnds (namesTakenAt s e p) "arg" p k ∧
          q.typeName = "id" ∧ q.name = "arg" ++ toString k ∧
          IsLeast {n | p ≤ n ∧ "arg" ++ toString n ∉ namesTakenAt s e p} k) ∧
    ∀ edits e, s.applyAll edits = .ok e → (s.parameters.map (·.name)).Nodup →
      (e.parameters.map (·.name)).Nodup := by
  refine ⟨?_, fun edits e run distinct => formed.nodup_names_applyAll distinct run⟩
  intro index inRange
  refine ⟨s.inserted index, insertAt_eq_ok_iff.2 ⟨inRange, rfl⟩,
    fun p => formed.exists_added_iff inRange, ?_⟩
  intro p q found new
  obtain ⟨k, type, named, ends⟩ := formed.placeholder_at inRange found new
  obtain ⟨k', bound, ends', -⟩ := exists_searchEnds (namesTakenAt s (s.inserted index) p) "arg" p
  obtain rfl : k = k' := ends.isLeast.unique ends'.isLeast
  exact ⟨k, bound, ends, type, named, ends.isLeast⟩

/-- A name that is in use is passed over. -/
theorem placeholders_fresh_foo :
    ∃ s e : Selector,
      ofFields [⟨"foo", true, .clamped 8 12⟩, ⟨"bar", true, .clamped 21 9⟩]
        [⟨"id", "arg1", .clamped 12 8⟩, ⟨"id", "x", .clamped 25 5⟩] "void" (.clamped 0 30) =
          .ok s ∧
      s.apply (.insert 1) = .ok e ∧ e.parameters.map (·.name) = ["arg1", "arg2", "x"] ∧
      IsLeast {n | 1 ≤ n ∧ "arg" ++ toString n ∉ namesTakenAt s e 1} 2 ∧
      (e.parameters.map (·.name)).Nodup := by
  have made : ofFields [⟨"foo", true, .clamped 8 12⟩, ⟨"bar", true, .clamped 21 9⟩]
      [⟨"id", "arg1", .clamped 12 8⟩, ⟨"id", "x", .clamped 25 5⟩] "void" (.clamped 0 30) =
        .ok _ := rfl
  obtain ⟨insertions, runs⟩ := placeholders_fresh (ofFields_eq_ok_iff.1 made).2
  obtain ⟨e, applied, -, fresh⟩ := insertions 1 (by decide)
  obtain rfl := Except.ok.inj (Eq.trans (a := Except.ok _) rfl applied)
  obtain ⟨k, -, -, -, named, least⟩ := fresh 1 _ rfl (by decide)
  obtain rfl : 2 = k := numberedName_inj.1 named
  exact ⟨_, _, made, applied, by decide, least, runs [.insert 1] _ rfl (by decide)⟩

end ProtocolFakes.Selector
