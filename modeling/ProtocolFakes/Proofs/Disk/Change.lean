import ProtocolFakes.Disk

/-!
# What the operations on a disk change

Names are followed through directories only, so two disks with the same directories
agree on where a path leads (`SameDirectories.place_eq_ok_iff`).  Writing or removing
a file keeps the directories, and making directories only adds some where nothing
stood (`addsDirectories_ensureDirectories`), which leaves every file as it was.

An operation that fails changes nothing.  What it does when it succeeds is said once
for each of them, in `writeFile_eq_ok_iff`, `makeDirectory_eq_ok_iff` and
`removeFile_eq_ok_iff`.
-/

namespace ProtocolFakes.Disk

set_option autoImplicit false

/-! ## Files and directories at a place -/

/-- There is a file at a place when that is what stands there. -/
theorem fileAt?_eq_some_iff {d : Disk} {place : Place} {content : FileContent} :
    d.fileAt? place = some content ↔ d.entryAt? place = some (.file content) := by
  unfold fileAt?
  split
  · rename_i found
    simp [found]
  · rename_i noFile
    simp only [reduceCtorEq, false_iff]
    exact noFile content

theorem fileAt?_eq_of_entryAt?_eq {d d' : Disk} {place : Place}
    (same : d'.entryAt? place = d.entryAt? place) : d'.fileAt? place = d.fileAt? place := by
  unfold fileAt?
  rw [same]

/-- The root is a directory, so what is none stands elsewhere. -/
theorem ne_root_of_entryAt?_ne {d : Disk} {place : Place}
    (other : d.entryAt? place ≠ some .directory) : place ≠ [] := by
  rintro rfl
  exact other rfl

/-- Two disks with the same directories, from which relative paths begin at the same
place. -/
structure SameDirectories (d d' : Disk) : Prop where
  workingPlace : d'.workingPlace = d.workingPlace
  directory : ∀ place, d'.entryAt? place = some .directory ↔ d.entryAt? place = some .directory

namespace SameDirectories

theorem refl (d : Disk) : SameDirectories d d := ⟨rfl, fun _ => Iff.rfl⟩

theorem symm {d d' : Disk} (same : SameDirectories d d') : SameDirectories d' d :=
  ⟨same.workingPlace.symm, fun place => (same.directory place).symm⟩

theorem trans {d d' d'' : Disk} (same : SameDirectories d d') (same' : SameDirectories d' d'') :
    SameDirectories d d'' :=
  ⟨same'.workingPlace.trans same.workingPlace,
    fun place => (same'.directory place).trans (same.directory place)⟩

end SameDirectories

/-! ## Following names -/

/-- One name leads on from a directory only. -/
theorem directory_of_follow {d : Disk} {start target : Place} {name : List Char}
    {names : List (List Char)} (led : d.follow start (name :: names) = .ok target) :
    d.entryAt? start = some .directory := by
  rw [follow] at led
  split at led
  · cases led
  · cases led
  · assumption

/-- Names that lead somewhere lead to the same place on a disk with all directories of
the first. -/
theorem follow_of_directories {d d' : Disk}
    (kept : ∀ place, d.entryAt? place = some .directory → d'.entryAt? place = some .directory)
    {start target : Place} {names : List (List Char)} (led : d.follow start names = .ok target) :
    d'.follow start names = .ok target := by
  induction names generalizing start with
  | nil => exact led
  | cons name names ih =>
      have here := directory_of_follow led
      rw [follow_cons here] at led
      rw [follow_cons (kept start here)]
      split at led
      · rename_i trivialName
        rw [if_pos trivialName]
        exact ih led
      · rename_i counts
        rw [if_neg counts]
        split at led
        · rename_i upwards
          rw [if_pos upwards]
          exact ih led
        · rename_i downwards
          rw [if_neg downwards]
          split at led
          · cases led
          · rename_i short
            rw [if_neg short]
            exact ih led

/-- A path that leads somewhere leads to the same place on a disk with all directories
of the first. -/
theorem place_of_directories {d d' : Disk} (same : d'.workingPlace = d.workingPlace)
    (kept : ∀ place, d.entryAt? place = some .directory → d'.entryAt? place = some .directory)
    {path : List Char} {target : Place} (led : d.place path = .ok target) :
    d'.place path = .ok target := by
  unfold place at led ⊢
  rw [same]
  split at led
  · cases led
  · rename_i noNul
    rw [if_neg noNul]
    split at led
    · cases led
    · rename_i someName
      rw [if_neg someName]
      exact follow_of_directories kept led

/-- **Disks with the same directories agree on where a path leads.** -/
theorem SameDirectories.place_eq_ok_iff {d d' : Disk} (same : SameDirectories d d')
    {path : List Char} {target : Place} : d'.place path = .ok target ↔ d.place path = .ok target :=
  ⟨place_of_directories same.symm.workingPlace fun place => (same.directory place).1,
    place_of_directories same.workingPlace fun place => (same.directory place).2⟩

/-! ## Writing, making and removing -/

/-- A file is written where a path leads, unless a directory stands there or the place
refuses. -/
theorem writeFile_eq_ok_iff {d d' : Disk} {path : String} {content : FileContent} :
    d.writeFile path content = .ok d' ↔ ∃ place, d.place path.toList = .ok place ∧
      d.entryAt? place ≠ some .directory ∧ d.refuses place = none ∧
      d.put place (.file content) = d' := by
  unfold writeFile
  cases led : d.place path.toList with
  | error e => simp [bind, Except.bind]
  | ok place =>
      by_cases directory : d.entryAt? place = some .directory
      · simp [bind, Except.bind, directory]
      · cases refusal : d.refuses place <;>
          simp [bind, Except.bind, pure, Except.pure, directory, checkWritable, refusal]

/-- A directory is made where nothing stands, unless the place refuses. -/
theorem makeDirectory_eq_ok_iff {d d' : Disk} {path : String} :
    d.makeDirectory path = .ok d' ↔ ∃ place,
      d.place (FilePath.dropEndSlashes path.toList) = .ok place ∧ d.entryAt? place = none ∧
      d.refuses place = none ∧ d.put place .directory = d' := by
  unfold makeDirectory
  cases led : d.place (FilePath.dropEndSlashes path.toList) with
  | error e => simp [bind, Except.bind]
  | ok place =>
      cases entry : d.entryAt? place with
      | some e => simp [bind, Except.bind, entry]
      | none =>
          cases refusal : d.refuses place <;>
            simp [bind, Except.bind, pure, Except.pure, entry, checkWritable, refusal]

/-- A file is removed where a path leads. -/
theorem removeFile_eq_ok_iff {d d' : Disk} {path : String} :
    d.removeFile path = .ok d' ↔ ∃ place content, d.place path.toList = .ok place ∧
      d.entryAt? place = some (.file content) ∧ d.erase place = d' := by
  unfold removeFile find
  cases led : d.place path.toList with
  | error e => simp [bind, Except.bind]
  | ok place =>
      rcases entry : d.entryAt? place with _ | content | _ <;>
        simp [bind, Except.bind, pure, Except.pure, entry]

/-- A text is read where a path leads to a file that holds it. -/
theorem readText_eq_ok_iff {d : Disk} {path text : String} :
    d.readText path = .ok text ↔ ∃ place, d.place path.toList = .ok place ∧
      d.fileAt? place = some (.text text) := by
  simp only [fileAt?_eq_some_iff]
  unfold readText find
  cases led : d.place path.toList with
  | error e => simp [bind, Except.bind]
  | ok place =>
      rcases entry : d.entryAt? place with _ | (_ | _) | _ <;>
        simp [bind, Except.bind, pure, Except.pure, entry]

/-- Whether anything stands where a path leads. -/
theorem isSome_kind?_iff {d : Disk} {path : String} :
    (d.kind? path).isSome ↔ ∃ place, d.place path.toList = .ok place ∧
      (d.entryAt? place).isSome := by
  unfold kind? find
  cases led : d.place path.toList with
  | error e => simp [bind, Except.bind]
  | ok place =>
      rcases entry : d.entryAt? place with _ | content | _ <;>
        simp [bind, Except.bind, pure, Except.pure, entry]

/-! ## Directories are kept -/

/-- Writing a file keeps the directories. -/
theorem sameDirectories_put_file {d : Disk} {place : Place} (content : FileContent)
    (other : d.entryAt? place ≠ some .directory) :
    SameDirectories d (d.put place (.file content)) where
  workingPlace := rfl
  directory at' := by
    by_cases here : at' = place
    · subst here
      rw [entryAt?_put_same d _ (ne_root_of_entryAt?_ne other)]
      simp [other]
    · rw [entryAt?_put_other d _ here]

/-- **What is written at a path is read there.** -/
theorem readText_of_writeFile {d d' : Disk} {path text : String}
    (written : d.writeFile path (.text text) = .ok d') : d'.readText path = .ok text := by
  obtain ⟨place, led, other, -, rfl⟩ := writeFile_eq_ok_iff.1 written
  have led' := (sameDirectories_put_file (.text text) other).place_eq_ok_iff.2 led
  unfold readText find
  rw [led']
  simp only [bind, Except.bind, entryAt?_put_same d _ (ne_root_of_entryAt?_ne other)]
  rfl

/-- Writing the same once more changes nothing. -/
theorem writeFile_again {d d' : Disk} {path : String} {content : FileContent}
    (written : d.writeFile path content = .ok d') : d'.writeFile path content = .ok d' := by
  obtain ⟨place, led, other, accepts, rfl⟩ := writeFile_eq_ok_iff.1 written
  have led' := (sameDirectories_put_file content other).place_eq_ok_iff.2 led
  refine writeFile_eq_ok_iff.2 ⟨place, led', ?_, accepts, ?_⟩
  · rw [entryAt?_put_same d _ (ne_root_of_entryAt?_ne other)]
    nofun
  · simp [put]

/-- Removing a file keeps the directories. -/
theorem sameDirectories_erase {d : Disk} {place : Place}
    (other : d.entryAt? place ≠ some .directory) : SameDirectories d (d.erase place) where
  workingPlace := rfl
  directory at' := by
    by_cases here : at' = place
    · subst here
      rw [entryAt?_erase_same d (ne_root_of_entryAt?_ne other)]
      simp [other]
    · rw [entryAt?_erase_other d here]

/-! ## Directories are added -/

/-- A disk with further directories where nothing stood. -/
structure AddsDirectories (d d' : Disk) : Prop where
  workingPlace : d'.workingPlace = d.workingPlace
  entry : ∀ place, d'.entryAt? place = d.entryAt? place ∨
    d.entryAt? place = none ∧ d'.entryAt? place = some .directory

namespace AddsDirectories

theorem refl (d : Disk) : AddsDirectories d d := ⟨rfl, fun _ => .inl rfl⟩

theorem trans {d d' d'' : Disk} (adds : AddsDirectories d d') (adds' : AddsDirectories d' d'') :
    AddsDirectories d d'' where
  workingPlace := adds'.workingPlace.trans adds.workingPlace
  entry place := by
    rcases adds.entry place with same | ⟨nothing, directory⟩ <;>
      rcases adds'.entry place with same' | ⟨nothing', directory'⟩
    · exact .inl (same'.trans same)
    · exact .inr ⟨same ▸ nothing', directory'⟩
    · exact .inr ⟨nothing, same'.trans directory⟩
    · exact .inr ⟨nothing, directory'⟩

/-- **Added directories leave every file as it was.** -/
theorem fileAt?_eq {d d' : Disk} (adds : AddsDirectories d d') (place : Place) :
    d'.fileAt? place = d.fileAt? place := by
  unfold fileAt?
  rcases adds.entry place with same | ⟨nothing, directory⟩
  · rw [same]
  · rw [nothing, directory]

end AddsDirectories

/-! ## Actions on a disk -/

section Action

variable {α β : Type} {R : Disk → Disk → Prop}

/-- However an action ends, it changes the disk as `R` allows. -/
def Changes (R : Disk → Disk → Prop) (action : StateM Disk α) : Prop :=
  ∀ d, R d (action.run d).2

theorem changes_pure (refl : ∀ d, R d d) (a : α) : Changes R (pure a : StateM Disk α) := refl

theorem Changes.bind (trans : ∀ {d d' d''}, R d d' → R d' d'' → R d d'')
    {action : StateM Disk α} {next : α → StateM Disk β} (first : Changes R action)
    (second : ∀ a, Changes R (next a)) : Changes R (action >>= next) :=
  fun d => trans (first d) (second _ _)

/-- One action after another sees the disk that the first one leaves. -/
theorem run_bind (action : StateM Disk α) (next : α → StateM Disk β) (d : Disk) :
    (action >>= next).run d = (next (action.run d).1).run (action.run d).2 := rfl

/-- A change that succeeds leaves the changed disk, one that fails the old one. -/
theorem run_change (step : Disk → Except FileError Disk) (d : Disk) :
    (change step).run d =
      match step d with
      | .ok d' => (.ok (), d')
      | .error e => (.error e, d) := rfl

/-- What comes after a change of the disk sees the changed disk, or why it failed. -/
theorem run_change_bind (step : Disk → Except FileError Disk)
    (next : Except FileError Unit → StateM Disk β) (d : Disk) :
    (change step >>= next).run d =
      match step d with
      | .ok d' => (next (.ok ())).run d'
      | .error e => (next (.error e)).run d := by
  rw [run_bind, run_change]
  cases step d <;> rfl

/-- A question leaves the disk as it is. -/
theorem changes_get (refl : ∀ d, R d d) (f : Disk → α) :
    Changes R (do pure (f (← get)) : StateM Disk α) := refl

theorem changes_hasPath (refl : ∀ d, R d d) (path : String) :
    Changes R (fileSystem.hasPath path) :=
  changes_get refl fun d => (d.kind? path).isSome

theorem changes_hasDirectory (refl : ∀ d, R d d) (path : String) :
    Changes R (fileSystem.hasDirectory path) :=
  changes_get refl fun d => d.kind? path == some .directory

theorem Changes.ensureDirectory (refl : ∀ d, R d d)
    (trans : ∀ {d d' d''}, R d d' → R d' d'' → R d d'')
    (make : ∀ path, Changes R (fileSystem.makeDirectory path)) (path : String) :
    Changes R (fileSystem.ensureDirectory path) := by
  refine Changes.bind @trans (make path) ?_
  rintro (_ | _)
  · refine Changes.bind @trans (changes_hasDirectory refl path) ?_
    intro present
    split <;> exact changes_pure refl _
  · exact changes_pure refl _

theorem Changes.ensureAncestors (refl : ∀ d, R d d)
    (trans : ∀ {d d' d''}, R d d' → R d' d'' → R d d'')
    (make : ∀ path, Changes R (fileSystem.makeDirectory path)) (paths : List String) :
    Changes R (fileSystem.ensureAncestors paths) := by
  induction paths with
  | nil => exact changes_pure refl _
  | cons path above ih =>
      rw [FileSystem.ensureAncestors]
      split
      · exact changes_pure refl _
      · refine Changes.bind @trans (make path) ?_
        intro made
        split
        · exact changes_pure refl _
        · refine Changes.bind @trans ih ?_
          rintro (_ | _)
          · exact changes_pure refl _
          · exact Changes.ensureDirectory refl @trans make path
        · refine Changes.bind @trans (changes_hasDirectory refl path) ?_
          intro present
          split <;> exact changes_pure refl _

/-- Making a directory with all above it changes what making directories one by one
changes. -/
theorem Changes.ensureDirectories (refl : ∀ d, R d d)
    (trans : ∀ {d d' d''}, R d d' → R d' d'' → R d d'')
    (make : ∀ path, Changes R (fileSystem.makeDirectory path)) (path : String) :
    Changes R (fileSystem.ensureDirectories path) :=
  .ensureAncestors refl @trans make _

end Action

/-- Making a directory adds it, or changes nothing. -/
theorem addsDirectories_makeDirectory (path : String) :
    Changes AddsDirectories (fileSystem.makeDirectory path) := by
  intro d
  change AddsDirectories d ((change (·.makeDirectory path)).run d).2
  rw [run_change]
  split
  · rename_i d' made
    obtain ⟨place, -, nothing, -, rfl⟩ := makeDirectory_eq_ok_iff.1 made
    refine ⟨rfl, ?_⟩
    intro at'
    by_cases here : at' = place
    · subst here
      have below : at' ≠ [] := by
        rintro rfl
        cases nothing
      exact .inr ⟨nothing, entryAt?_put_same d _ below⟩
    · exact .inl (entryAt?_put_other d _ here)
  · exact .refl d

/-- **Making a directory with all above it only adds directories**, however it ends. -/
theorem addsDirectories_ensureDirectories (path : String) :
    Changes AddsDirectories (fileSystem.ensureDirectories path) :=
  .ensureDirectories .refl .trans addsDirectories_makeDirectory path

end ProtocolFakes.Disk
