import ProtocolFakes.Json.Writer
import ProtocolFakes.Proofs.Json.Pretty

/-!
# The compact layout reads back

The compact layout is the pretty one without its blanks.  A text spells a value whatever blanks
stand around its parts, so the same closure lemmas show that the compact text of a value spells
it, now with no blanks at all.

Main theorem: `read?_compact`.
-/

namespace ProtocolFakes.Json

set_option autoImplicit false

theorem spellsItems_writeCompactItems {items : List Json} (ne : items ≠ [])
    (each : ∀ v ∈ items, Spells v (writeCompact v)) :
    SpellsItems items (writeCompactItems items) := by
  induction items with
  | nil => exact absurd rfl ne
  | cons v items ih =>
      obtain ⟨here, others⟩ := List.forall_mem_cons.1 each
      cases items with
      | nil =>
          simpa only [writeCompactItems, List.append_nil, List.nil_append] using
            here.spellsItems blank_nil blank_nil
      | cons w items =>
          rw [writeCompactItems_cons]
          exact (ih (List.cons_ne_nil w items) others).cons blank_nil here blank_nil

theorem spellsMembers_writeCompactMembers {members : List (String × Json)} (ne : members ≠ [])
    (each : ∀ m ∈ members, Spells m.2 (writeCompact m.2)) :
    SpellsMembers (members.map fun (name, value) => (some name, value))
      (writeCompactMembers (members.map fun (name, value) => (some name, value))) := by
  induction members with
  | nil => exact absurd rfl ne
  | cons m members ih =>
      obtain ⟨here, others⟩ := List.forall_mem_cons.1 each
      cases members with
      | nil =>
          have last := here.spellsMembers m.1 blank_nil blank_nil blank_nil
          simpa only [List.map_cons, List.map_nil, writeCompactMembers, List.append_nil,
            List.nil_append] using last
      | cons m' members =>
          have all := (ih (List.cons_ne_nil m' members) others).cons m.1 blank_nil blank_nil here
            blank_nil
          simpa only [List.map_cons, writeCompactMembers_cons, List.append_assoc, List.cons_append,
            List.nil_append] using all

/-- **What is written without blanks spells what it is written of.** -/
theorem Plain.spells_writeCompact {v : Json} (plain : Plain v) : Spells v (writeCompact v) := by
  induction plain with
  | null => exact spells_null
  | bool b => exact spells_bool b
  | nat n => exact spells_nat n
  | text s => exact spells_text s
  | @array items _ ih =>
      cases items with
      | nil => exact spells_array_nil
      | cons v items =>
          exact (spellsItems_writeCompactItems (List.cons_ne_nil v items) ih).spells_array
  | @record members _ ih =>
      cases members with
      | nil => exact spells_object_nil
      | cons m members =>
          exact (spellsMembers_writeCompactMembers (List.cons_ne_nil m members) ih).spells_object

/-- **A value reads back from its compact text.** -/
theorem read?_compact {v : Json} (plain : Plain v) : read? v.compact = some v :=
  plain.spells_writeCompact.read?_eq

end ProtocolFakes.Json
