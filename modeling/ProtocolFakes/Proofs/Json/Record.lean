import Mathlib.Data.List.Forall2
import ProtocolFakes.Json

/-!
# Records read back

A value holds the fields of a record (`Holds`) if it is an object in which each of them stands
once, in any order and among members of other names, or the array of their values.  Exactly such
a value answers these fields (`fields?_eq_some_iff`).  An object of the fields alone is one
(`fields?_record`), and an array answers the values that its items stand for
(`listOf?_eq_some_iff`).  So a reader of records undoes a writer of records when the readers of
its fields undo the writers of its fields.
-/

namespace ProtocolFakes.Json

set_option autoImplicit false

/-! ## Traversals -/

/-- All of a list reads exactly if each of it does. -/
theorem mapM_eq_some_iff {α β : Type} {read : α → Option β} {xs : List α} {ys : List β} :
    xs.mapM read = some ys ↔ List.Forall₂ (fun x y => read x = some y) xs ys := by
  induction xs generalizing ys with
  | nil =>
      rw [List.forall₂_nil_left_iff]
      exact ⟨fun same => (Option.some.inj same).symm, fun same => same ▸ rfl⟩
  | cons x xs ih =>
      rw [List.mapM_cons, List.forall₂_cons_left_iff]
      simp only [Option.bind_eq_bind, Option.bind_eq_some_iff, Option.pure_def, Option.some.injEq]
      constructor
      · rintro ⟨y, first, ys', others, rfl⟩
        exact ⟨y, ys', first, ih.1 others, rfl⟩
      · rintro ⟨y, ys', first, others, rfl⟩
        exact ⟨y, first, ys', ih.2 others, rfl⟩

/-! ## Arrays -/

/-- An array answers what its items read as. -/
theorem listOf?_eq_some_iff {α : Type} {read : Json → Option α} {v : Json} {xs : List α} :
    listOf? read v = some xs ↔
      ∃ items, v = .array items ∧ List.Forall₂ (fun item x => read item = some x) items xs := by
  rw [listOf?, Option.bind_eq_bind, Option.bind_eq_some_iff]
  simp only [mapM_eq_some_iff]
  refine exists_congr fun items => and_congr_left fun _ => ?_
  cases v <;> simp [items?]

/-- The values of an array read back if each of them does. -/
theorem listOf?_array_map {α : Type} {write : α → Json} {read : Json → Option α} {xs : List α}
    (each : ∀ x ∈ xs, read (write x) = some x) :
    listOf? read (.array (xs.map write)) = some xs := by
  refine listOf?_eq_some_iff.2 ⟨_, rfl, ?_⟩
  rwa [List.forall₂_map_left_iff, List.forall₂_same]

theorem texts?_texts (ss : List String) : texts? (texts ss) = some ss :=
  listOf?_array_map fun _ _ => rfl

/-! ## Objects -/

/-- The members that fields are in an object. -/
def membersOf (fields : List (String × Json)) : List (Option String × Json) :=
  fields.map fun (name, value) => (some name, value)

theorem filter_membersOf_eq_nil {fields : List (String × Json)} {name : String}
    (absent : name ∉ fields.map (·.1)) : (membersOf fields).filter (·.1 = some name) = [] := by
  rw [membersOf, List.filter_eq_nil_iff, List.forall_mem_map]
  intro f member same
  obtain rfl := Option.some.inj (of_decide_eq_true same)
  exact absent (List.mem_map_of_mem member)

/-- A name that stands once among fields finds its own value. -/
theorem filter_membersOf {fields : List (String × Json)} (once : (fields.map (·.1)).Nodup)
    {f : String × Json} (member : f ∈ fields) :
    (membersOf fields).filter (·.1 = some f.1) = [(some f.1, f.2)] := by
  obtain ⟨before, after, rfl⟩ := List.append_of_mem member
  rw [List.map_append, List.map_cons, List.nodup_append, List.nodup_cons] at once
  obtain ⟨-, ⟨notAfter, -⟩, apart⟩ := once
  have notBefore : f.1 ∉ before.map (·.1) := fun found =>
    apart _ found _ (List.mem_cons_self ..) rfl
  have split : membersOf (before ++ f :: after) =
      membersOf before ++ (some f.1, f.2) :: membersOf after := List.map_append
  rw [split, List.filter_append, filter_membersOf_eq_nil notBefore,
    List.filter_cons_of_pos (by simp), filter_membersOf_eq_nil notAfter]
  rfl

/-- A value that holds the fields of a record. -/
inductive Holds (fields : List (String × Json)) : Json → Prop where
  /-- An object of the fields and others, in any order. -/
  | object {members others : List (Option String × Json)}
      (all : members.Perm (membersOf fields ++ others))
      (apart : ∀ m ∈ others, ∃ name, m.1 = some name ∧ name ∉ fields.map (·.1)) :
      Holds fields (.object members)
  /-- The values of the fields in order. -/
  | array : Holds fields (.array (fields.map (·.2)))

theorem holds_record (fields : List (String × Json)) : Holds fields (record fields) :=
  @Holds.object fields _ [] (by rw [List.append_nil, membersOf]) nofun

/-- An object in which each field stands once is made of the fields and others. -/
theorem exists_perm_of_filter {fields : List (String × Json)} (once : (fields.map (·.1)).Nodup)
    {members : List (Option String × Json)} (named : ∀ m ∈ members, m.1.isSome = true)
    (each : ∀ f ∈ fields, members.filter (·.1 = some f.1) = [(some f.1, f.2)]) :
    ∃ others, members.Perm (membersOf fields ++ others) ∧
      ∀ m ∈ others, ∃ name, m.1 = some name ∧ name ∉ fields.map (·.1) := by
  induction fields generalizing members with
  | nil =>
      refine ⟨members, .refl _, fun m member => ?_⟩
      obtain ⟨name, same⟩ := Option.isSome_iff_exists.1 (named m member)
      exact ⟨name, same, by simp⟩
  | cons f fields ih =>
      obtain ⟨here, later⟩ := List.forall_mem_cons.1 each
      rw [List.map_cons, List.nodup_cons] at once
      -- The members besides this field hold the other fields.
      have split := List.filter_append_perm (fun m : Option String × Json => m.1 = some f.1) members
      rw [here] at split
      have rest : ∀ g ∈ fields, (members.filter fun m => !decide (m.1 = some f.1)).filter
          (·.1 = some g.1) = [(some g.1, g.2)] := by
        intro g member
        have other : g.1 ≠ f.1 := fun same => once.1 (same ▸ List.mem_map_of_mem member)
        rw [List.filter_filter, ← later g member]
        refine List.filter_congr fun m _ => ?_
        by_cases same : m.1 = some g.1 <;> simp [same, other]
      obtain ⟨others, all, apart⟩ :=
        ih once.2 (fun m member => named m (List.mem_filter.1 member).1) rest
      refine ⟨others, split.symm.trans (all.cons _), fun m member => ?_⟩
      obtain ⟨name, same, absent⟩ := apart m member
      refine ⟨name, same, ?_⟩
      have kept := List.mem_filter.1 (all.mem_iff.2 (List.mem_append_right _ member))
      have notHere : name ≠ f.1 := by simpa [same] using kept.2
      simpa [notHere] using absent

/-- In an object of fields and others each field stands once. -/
theorem filter_of_perm {fields : List (String × Json)} (once : (fields.map (·.1)).Nodup)
    {members others : List (Option String × Json)} (all : members.Perm (membersOf fields ++ others))
    (apart : ∀ m ∈ others, ∃ name, m.1 = some name ∧ name ∉ fields.map (·.1))
    {f : String × Json} (member : f ∈ fields) :
    members.filter (·.1 = some f.1) = [(some f.1, f.2)] := by
  have none : others.filter (·.1 = some f.1) = [] := by
    rw [List.filter_eq_nil_iff]
    intro m other same
    obtain ⟨name, named, absent⟩ := apart m other
    obtain rfl := Option.some.inj (named.symm.trans (of_decide_eq_true same))
    exact absent (List.mem_map_of_mem member)
  have found := all.filter (·.1 = some f.1)
  rwa [List.filter_append, filter_membersOf once member, none, List.append_nil,
    List.perm_singleton] at found

/-- An object answers fields if all its members have names and each field stands in it once. -/
theorem fields?_object_eq_some_iff {fields : List (String × Json)}
    {members : List (Option String × Json)} :
    (object members).fields? (fields.map (·.1)) = some (fields.map fun f => some f.2) ↔
      (∀ m ∈ members, m.1.isSome = true) ∧
        ∀ f ∈ fields, members.filter (·.1 = some f.1) = [(some f.1, f.2)] := by
  rw [fields?, ← List.all_eq_true, Option.ite_none_right_eq_some, mapM_eq_some_iff,
    List.forall₂_map_left_iff, List.forall₂_map_right_iff, List.forall₂_same]
  refine and_congr_right fun _ => forall₂_congr fun f _ => ?_
  have name : ∀ m ∈ members.filter (·.1 = some f.1), m.1 = some f.1 := fun m member =>
    of_decide_eq_true (List.mem_filter.1 member).2
  constructor
  · intro answered
    split at answered
    · cases answered
    · rename_i value one
      obtain rfl := Option.some.inj (Option.some.inj answered)
      rw [one] at name ⊢
      rw [← name _ (List.mem_singleton_self _)]
    · cases answered
  · intro one
    rw [one]

/-- An array answers fields if its items are their values. -/
theorem fields?_array_eq_some_iff {fields : List (String × Json)} {items : List Json} :
    (array items).fields? (fields.map (·.1)) = some (fields.map fun f => some f.2) ↔
      items = fields.map (·.2) := by
  rw [fields?, Option.ite_none_right_eq_some, List.length_map]
  constructor
  · rintro ⟨few, answered⟩
    -- None of the values is missing, so the items are all of them.
    have given : (none : Option Json) ∉ fields.map fun f => some f.2 := by simp
    rw [← Option.some.inj answered, List.mem_append, List.mem_replicate, not_or] at given
    have all : fields.length - items.length = 0 := by simpa using given.2
    have values := Option.some.inj answered
    rw [all, List.replicate_zero, List.append_nil] at values
    refine List.map_injective_iff.2 (fun _ _ => Option.some.inj) ?_
    rw [values, List.map_map]
    rfl
  · rintro rfl
    simp

/-- **A value answers the fields that it holds, and no others.** -/
theorem fields?_eq_some_iff {fields : List (String × Json)} (once : (fields.map (·.1)).Nodup)
    {v : Json} :
    v.fields? (fields.map (·.1)) = some (fields.map fun f => some f.2) ↔ Holds fields v := by
  constructor
  · intro answered
    cases v with
    | object members =>
        obtain ⟨named, each⟩ := fields?_object_eq_some_iff.1 answered
        obtain ⟨others, all, apart⟩ := exists_perm_of_filter once named each
        exact .object all apart
    | array items =>
        obtain rfl := fields?_array_eq_some_iff.1 answered
        exact .array
    | null | bool | number | string => cases answered
  · rintro (⟨all, apart⟩ | _)
    · refine fields?_object_eq_some_iff.2
        ⟨fun m member => ?_, fun f => filter_of_perm once all apart⟩
      rcases List.mem_append.1 (all.mem_iff.1 member) with field | other
      · obtain ⟨f, -, rfl⟩ := List.mem_map.1 field
        rfl
      · obtain ⟨name, named, -⟩ := apart m other
        rw [named]
        rfl
    · exact fields?_array_eq_some_iff.2 rfl

/-- **A record answers its fields.** -/
theorem fields?_record {members : List (String × Json)} (once : (members.map (·.1)).Nodup) :
    (record members).fields? (members.map (·.1)) = some (members.map fun m => some m.2) :=
  (fields?_eq_some_iff once).2 (holds_record members)

end ProtocolFakes.Json
