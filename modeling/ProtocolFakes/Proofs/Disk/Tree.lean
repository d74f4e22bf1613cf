import ProtocolFakes.Proofs.Disk.Change

/-!
# Disks that are trees

On the files of a machine nothing stands outside a directory (`IsTree`).  There, a path
without names of two dots leads to the same file before directories are added and after
(`isSome_kind?_of_addsDirectories`).  With two dots it need not: `new/../f` leads
nowhere until there is a directory `new`.
-/

namespace ProtocolFakes.Disk

set_option autoImplicit false

/-- Whatever stands somewhere stands in a directory, which stands in one, up to the
root. -/
def IsTree (d : Disk) : Prop :=
  ∀ place, (d.entryAt? place).isSome → ∀ n < place.length,
    d.entryAt? (place.take n) = some .directory

/-- A disk is a tree if its table lists a directory for every place above another. -/
theorem isTree_of_entries {d : Disk}
    (listed : ∀ x ∈ d.entries, ∀ n < x.1.length, d.entryAt? (x.1.take n) = some .directory) :
    d.IsTree := by
  intro place present n short
  have below : place ≠ [] := List.ne_nil_of_length_pos (by omega)
  have found : (d.entries.find? (·.1 = place)).isSome := by
    simpa [entryAt?, below] using present
  obtain ⟨x, member, same⟩ := List.find?_isSome.1 found
  obtain rfl : x.1 = place := by simpa using same
  exact listed x member n short

/-- On a tree, a directory stands at every place above one where something stands. -/
theorem IsTree.directory {d : Disk} (tree : d.IsTree) {place above : Place}
    (present : (d.entryAt? place).isSome) (before : above <+: place) (other : above ≠ place) :
    d.entryAt? above = some .directory := by
  have short : above.length < place.length := by
    refine Nat.lt_of_le_of_ne before.length_le ?_
    exact fun same => other (before.eq_of_length same)
  rw [List.prefix_iff_eq_take.1 before]
  exact tree place present _ short

/-- A path without names of two dots that leads to a file on one disk leads there on
every tree with something at that place. -/
theorem follow_of_isTree {d d' : Disk} {target : Place} {content : FileContent}
    (tree : d.IsTree) (present : (d.entryAt? target).isSome)
    (file : d'.entryAt? target = some (.file content)) {start : Place}
    {names : List (List Char)} (straight : ['.', '.'] ∉ names)
    (led : d'.follow start names = .ok target) :
    d.follow start names = .ok target ∧ start <+: target := by
  induction names generalizing start with
  | nil =>
      obtain rfl := Except.ok.inj led
      exact ⟨rfl, List.prefix_rfl⟩
  | cons name names ih =>
      have here := directory_of_follow led
      have other : start ≠ target := by
        rintro rfl
        cases here.symm.trans file
      have notUp : name ≠ ['.', '.'] := fun up => straight (up ▸ List.mem_cons_self ..)
      have straightOn : ['.', '.'] ∉ names := fun member => straight (List.mem_cons_of_mem _ member)
      rw [follow_cons here] at led
      split at led
      · rename_i trivialName
        obtain ⟨ledOn, before⟩ := ih straightOn led
        refine ⟨?_, before⟩
        rw [follow_cons (tree.directory present before other)]
        simpa only [trivialName, if_true] using ledOn
      · rename_i counts
        split at led
        · cases led
        · rename_i short
          obtain ⟨ledOn, before⟩ := ih straightOn led
          have beforeStart := (List.prefix_append start [name]).trans before
          refine ⟨?_, beforeStart⟩
          rw [follow_cons (tree.directory present beforeStart other)]
          simpa [counts, notUp, short] using ledOn

/-- **A file that a straight path leads to after directories were added** was there
before, and the path led to it. -/
theorem isSome_kind?_of_addsDirectories {d d' : Disk} (tree : d.IsTree)
    (adds : AddsDirectories d d') {path : String}
    (straight : ['.', '.'] ∉ FilePath.split path.toList) {place : Place}
    (led : d'.place path.toList = .ok place) (stood : (d.fileAt? place).isSome) :
    (d.kind? path).isSome := by
  obtain ⟨content, file⟩ := Option.isSome_iff_exists.1 stood
  have entry := fileAt?_eq_some_iff.1 file
  have file' := fileAt?_eq_some_iff.1 ((adds.fileAt?_eq place).trans file)
  have present : (d.entryAt? place).isSome := by simp [entry]
  refine isSome_kind?_iff.2 ⟨place, ?_, present⟩
  unfold Disk.place at led ⊢
  rw [adds.workingPlace] at led
  split at led
  · cases led
  · rename_i noNul
    rw [if_neg noNul]
    split at led
    · cases led
    · rename_i someName
      rw [if_neg someName]
      exact (follow_of_isTree tree present file' straight led).1

end ProtocolFakes.Disk
