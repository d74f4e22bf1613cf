import ProtocolFakes.Persistence
import ProtocolFakes.Proofs.Disk.Route
import ProtocolFakes.Proofs.Disk.Tree

/-!
# Operations keep a disk a tree

Names lead from directory to directory, so on a tree whatever a path leads to stands under
directories (`IsTree.underDirectories_of_place`), and what is put there hangs on the tree.
A file has nothing under it, so it can be taken away.  From these two facts every operation
keeps a disk a tree, and so does whatever is made of operations: one lemma per action, up to
writing a fake (`keepsTree_persist`).
-/

namespace ProtocolFakes.Disk

set_option autoImplicit false

/-! ## Places under directories -/

/-- A directory stands at every place above a place. -/
def UnderDirectories (d : Disk) (place : Place) : Prop :=
  ∀ n < place.length, d.entryAt? (place.take n) = some .directory

/-- What lies directly under a directory that lies under directories does so too. -/
theorem UnderDirectories.concat {d : Disk} {place : Place} (under : d.UnderDirectories place)
    (directory : d.entryAt? place = some .directory) (name : List Char) :
    d.UnderDirectories (place ++ [name]) := by
  intro n short
  rw [List.length_append, List.length_singleton] at short
  rcases Nat.lt_or_eq_of_le (Nat.le_of_lt_succ short) with above | rfl
  · rw [List.take_append_of_le_length above.le]
    exact under n above
  · rw [List.take_left]
    exact directory

theorem UnderDirectories.dropLast {d : Disk} {place : Place} (under : d.UnderDirectories place) :
    d.UnderDirectories place.dropLast := by
  intro n short
  rw [List.length_dropLast] at short
  rw [List.dropLast_eq_take, List.take_take, Nat.min_eq_left short.le]
  exact under n (by omega)

theorem UnderDirectories.follow {d : Disk} {start target : Place} {names : List (List Char)}
    (under : d.UnderDirectories start) (led : d.follow start names = .ok target) :
    d.UnderDirectories target := by
  induction names generalizing start with
  | nil =>
      obtain rfl := Except.ok.inj led
      exact under
  | cons name names ih =>
      have here := directory_of_follow led
      rw [follow_cons here] at led
      split at led
      · exact ih under led
      · split at led
        · exact ih under.dropLast led
        · split at led
          · cases led
          · exact ih (under.concat here name) led

/-- **On a tree, a path leads to a place under directories.** -/
theorem IsTree.underDirectories_of_place {d : Disk} (tree : d.IsTree) {path : List Char}
    {target : Place} (led : d.place path = .ok target) : d.UnderDirectories target := by
  obtain ⟨-, -, led⟩ := place_eq_ok_iff.1 led
  refine UnderDirectories.follow ?_ led
  split
  · intro n short
    cases short
  · rename_i relative
    obtain ⟨name, names, names_eq⟩ := List.exists_cons_of_ne_nil (FilePath.split_ne_nil path)
    rw [if_neg relative, names_eq] at led
    exact tree _ (by simp [directory_of_follow led])

/-! ## One operation -/

/-- A disk that is a tree if another is. -/
def KeepsTree (d d' : Disk) : Prop := d.IsTree → d'.IsTree

namespace KeepsTree

theorem refl (d : Disk) : KeepsTree d d := id

theorem trans {d d' d'' : Disk} (keeps : KeepsTree d d') (keeps' : KeepsTree d' d'') :
    KeepsTree d d'' := keeps' ∘ keeps

end KeepsTree

/-- What is put under directories hangs on the tree, unless it takes the place of a
directory. -/
theorem keepsTree_put {d : Disk} {place : Place} (under : d.UnderDirectories place)
    (other : d.entryAt? place ≠ some .directory) (entry : DiskEntry) :
    KeepsTree d (d.put place entry) := by
  have stays : ∀ above, d.entryAt? above = some .directory →
      (d.put place entry).entryAt? above = some .directory := by
    intro above directory
    rw [entryAt?_put_other d entry (by rintro rfl; exact other directory), directory]
  intro tree place' present n short
  by_cases here : place' = place
  · subst here
    exact stays _ (under n short)
  · rw [entryAt?_put_other d entry here] at present
    exact stays _ (tree place' present n short)

/-- Nothing stands under a file, so it can be taken away. -/
theorem keepsTree_erase {d : Disk} {place : Place}
    (other : d.entryAt? place ≠ some .directory) : KeepsTree d (d.erase place) := by
  intro tree place' present n short
  have elsewhere : place' ≠ place := by
    rintro rfl
    rw [entryAt?_erase_same d (ne_root_of_entryAt?_ne other)] at present
    cases present
  rw [entryAt?_erase_other d elsewhere] at present
  have directory := tree place' present n short
  rw [entryAt?_erase_other d (by rintro above; exact other (above ▸ directory)), directory]

theorem keepsTree_change {step : Disk → Except FileError Disk}
    (keeps : ∀ {d d'}, step d = .ok d' → KeepsTree d d') : Changes KeepsTree (change step) := by
  intro d
  rw [run_change]
  split
  · rename_i d' done
    exact keeps done
  · exact .refl d

theorem keepsTree_makeDirectory (path : String) :
    Changes KeepsTree (fileSystem.makeDirectory path) := by
  refine keepsTree_change fun made tree => ?_
  obtain ⟨place, led, nothing, -, rfl⟩ := makeDirectory_eq_ok_iff.1 made
  exact keepsTree_put (tree.underDirectories_of_place led) (by simp [nothing]) _ tree

theorem keepsTree_writeText (path text : String) :
    Changes KeepsTree (fileSystem.writeText path text) := by
  refine keepsTree_change fun wrote tree => ?_
  obtain ⟨place, led, other, -, rfl⟩ := writeFile_eq_ok_iff.1 wrote
  exact keepsTree_put (tree.underDirectories_of_place led) other _ tree

theorem keepsTree_removeFile (path : String) :
    Changes KeepsTree (fileSystem.removeFile path) := by
  refine keepsTree_change fun removed tree => ?_
  obtain ⟨place, content, led, file, rfl⟩ := removeFile_eq_ok_iff.1 removed
  exact keepsTree_erase (by simp [file]) tree

/-! ## What is made of operations -/

theorem keepsTree_firstPresent? (paths : List String) :
    Changes KeepsTree (fileSystem.firstPresent? paths) := by
  induction paths with
  | nil => exact changes_pure .refl _
  | cons path paths ih =>
      refine Changes.bind .trans (changes_hasPath .refl path) ?_
      intro present
      split
      · exact changes_pure .refl _
      · exact ih

theorem keepsTree_removeFiles (paths : List String) :
    Changes KeepsTree (fileSystem.removeFiles paths) := by
  induction paths with
  | nil => exact changes_pure .refl _
  | cons path paths ih => exact Changes.bind .trans (keepsTree_removeFile path) fun _ => ih

theorem keepsTree_writeTogether (created : List String) (files : List (String × String)) :
    Changes KeepsTree (fileSystem.writeTogether created files) := by
  induction files generalizing created with
  | nil => exact changes_pure .refl _
  | cons file files ih =>
      refine Changes.bind .trans (changes_hasPath .refl file.1) ?_
      intro existed
      refine Changes.bind .trans (keepsTree_writeText file.1 file.2) ?_
      rintro (_ | _)
      · refine Changes.bind .trans (keepsTree_removeFiles created) ?_
        exact fun _ => changes_pure .refl _
      · exact ih _

theorem keepsTree_writeInto (directory : String) (files : List (String × String)) :
    Changes KeepsTree (fileSystem.writeInto directory files) := by
  refine Changes.bind .trans (.ensureDirectories .refl .trans keepsTree_makeDirectory directory) ?_
  rintro (_ | _)
  · exact changes_pure .refl _
  · refine Changes.bind .trans (keepsTree_writeTogether [] files) ?_
    rintro (_ | _) <;> exact changes_pure .refl _

/-- **Writing a fake keeps a disk a tree**, however it ends. -/
theorem keepsTree_persist (overwrite : Bool) (fake : Fake) (directory : String) :
    Changes KeepsTree (fileSystem.persist overwrite fake directory) := by
  unfold FileSystem.persist
  cases overwrite with
  | true => exact keepsTree_writeInto directory _
  | false =>
      refine Changes.bind .trans (keepsTree_firstPresent? _) ?_
      rintro (_ | _)
      · exact keepsTree_writeInto directory _
      · exact changes_pure .refl _

end ProtocolFakes.Disk
