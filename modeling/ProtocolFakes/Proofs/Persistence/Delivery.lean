import ProtocolFakes.Proofs.Disk.TreeStep
import ProtocolFakes.Proofs.Persistence

/-!
# Fakes that may not replace files

Fakes are delivered in turn, each to a directory of its own, and none of them may replace a
file.  Whether a file is in the way is asked before the directories are made, and of the
path as it is written.  A path that leads upwards from a directory not yet made leads
nowhere then, and perhaps to a file once the directory is there: that file is replaced
although it may not be (`delivery_may_replace_file`).

Nothing else happens to files that stand.  None is removed, and the files replaced are
exactly those where such a path leads (`fileAt?_afterDelivery`).  On a tree this takes
a path with two dots and a directory that is missing (`Redirected.upwards`,
`Redirected.missing`), and a disk stays a tree however many fakes are delivered
(`isTree_afterDeliveries`).

Main theorem: `existing_file_of_deliveries`.
-/

namespace ProtocolFakes.Disk

set_option autoImplicit false

/-! ## One file -/

/-- A path leads to a place where a file can be written. -/
structure Takes (d : Disk) (path : String) (place : Place) : Prop where
  led : d.place path.toList = .ok place
  noDirectory : d.entryAt? place ≠ some .directory
  free : d.refuses place = none

/-- A text takes the place of another file, or of none, where a path leads. -/
structure Replaces (d : Disk) (path text : String) (place : Place) : Prop where
  takes : d.Takes path place
  other : d.fileAt? place ≠ some (.text text)

theorem writeFile_eq_ok_iff_takes {d d' : Disk} {path : String} {content : FileContent} :
    d.writeFile path content = .ok d' ↔
      ∃ place, d.Takes path place ∧ d.put place (.file content) = d' := by
  rw [writeFile_eq_ok_iff]
  constructor
  · rintro ⟨place, led, noDirectory, free, put⟩
    exact ⟨place, ⟨led, noDirectory, free⟩, put⟩
  · rintro ⟨place, ⟨led, noDirectory, free⟩, put⟩
    exact ⟨place, led, noDirectory, free, put⟩

theorem Takes.ne_root {d : Disk} {path : String} {place : Place} (takes : d.Takes path place) :
    place ≠ [] := ne_root_of_entryAt?_ne takes.noDirectory

/-- A path leads to one place. -/
theorem Takes.unique {d : Disk} {path : String} {place place' : Place}
    (takes : d.Takes path place) (led : d.place path.toList = .ok place') : place' = place :=
  Except.ok.inj (led.symm.trans takes.led)

/-- The file that is written holds its text. -/
theorem fileAt?_put_same {d : Disk} {place : Place} (content : FileContent)
    (below : place ≠ []) : (d.put place (.file content)).fileAt? place = some content :=
  fileAt?_eq_some_iff.2 (entryAt?_put_same d _ below)

theorem fileAt?_put_other {d : Disk} {place place' : Place} (entry : DiskEntry)
    (elsewhere : place' ≠ place) : (d.put place entry).fileAt? place' = d.fileAt? place' :=
  fileAt?_eq_of_entryAt?_eq (entryAt?_put_other d entry elsewhere)

/-- A write changes the file where the path leads, if that holds another text, and no
other. -/
theorem fileAt?_writeFile_ne_iff {d d' : Disk} {path text : String}
    (wrote : d.writeFile path (.text text) = .ok d') (place : Place) :
    d'.fileAt? place ≠ d.fileAt? place ↔ d.Replaces path text place := by
  obtain ⟨target, takes, rfl⟩ := writeFile_eq_ok_iff_takes.1 wrote
  by_cases here : place = target
  · subst here
    rw [fileAt?_put_same _ takes.ne_root]
    exact ⟨fun other => ⟨takes, other.symm⟩, fun replaces => replaces.other.symm⟩
  · rw [fileAt?_put_other _ here]
    refine ⟨fun other => absurd rfl other, fun replaces => ?_⟩
    exact absurd (takes.unique replaces.takes.led) here

/-- A write takes no file away. -/
theorem isSome_fileAt?_writeFile {d d' : Disk} {path text : String} {place : Place}
    (wrote : d.writeFile path (.text text) = .ok d') (stood : (d.fileAt? place).isSome) :
    (d'.fileAt? place).isSome := by
  obtain ⟨target, takes, rfl⟩ := writeFile_eq_ok_iff_takes.1 wrote
  by_cases here : place = target
  · subst here
    rw [fileAt?_put_same _ takes.ne_root]
    rfl
  · rwa [fileAt?_put_other _ here]

/-- A write elsewhere leaves it as it was whether a place takes a file. -/
theorem takes_writeFile_iff {d d' : Disk} {path text : String} {place : Place}
    (wrote : d.writeFile path (.text text) = .ok d')
    (elsewhere : d.place path.toList ≠ .ok place) (path' : String) :
    d'.Takes path' place ↔ d.Takes path' place := by
  obtain ⟨target, takes, rfl⟩ := writeFile_eq_ok_iff_takes.1 wrote
  have other : place ≠ target := by
    rintro rfl
    exact elsewhere takes.led
  have same := sameDirectories_put_file (.text text) takes.noDirectory
  constructor
  · rintro ⟨led, noDirectory, free⟩
    rw [entryAt?_put_other d _ other] at noDirectory
    exact ⟨same.place_eq_ok_iff.1 led, noDirectory, free⟩
  · rintro ⟨led, noDirectory, free⟩
    rw [← entryAt?_put_other d (.file (.text text)) other] at noDirectory
    exact ⟨same.place_eq_ok_iff.2 led, noDirectory, free⟩

/-! ## The two files of a fake -/

/-- The paths of the two files of a fake lead to different places: the names there end in
different letters. -/
theorem place_header_ne_implementation {d : Disk} {fake : Fake} {directory : String}
    {place : Place} (header : d.place (headerPath fake directory).toList = .ok place) :
    d.place (implementationPath fake directory).toList ≠ .ok place := by
  intro implementation
  obtain ⟨front, header_eq⟩ := FilePath.exists_within_eq directory fake.headerFile
  obtain ⟨front', implementation_eq⟩ :=
    FilePath.exists_within_eq directory fake.implementationFile
  rw [headerPath, header_eq, Fake.headerFile, String.toList_append, ← List.append_assoc] at header
  rw [implementationPath, implementation_eq, Fake.implementationFile, String.toList_append,
    ← List.append_assoc] at implementation
  obtain ⟨above, piece, rfl⟩ :=
    exists_name_of_place (by decide) ⟨'h', by decide, by decide⟩ header
  obtain ⟨above', piece', same⟩ :=
    exists_name_of_place (by decide) ⟨'m', by decide, by decide⟩ implementation
  have names := List.singleton_inj.1 (List.append_inj' same rfl).2
  have letters := (List.append_inj' names rfl).2
  revert letters
  decide

/-- One of the texts of a fake takes the place of another text, when the files of the fake
are written.  The implementation is written if the header can be. -/
inductive ReplacesOne (d : Disk) (fake : Fake) (directory : String) (place : Place) : Prop where
  | header (replaces : d.Replaces (headerPath fake directory) fake.header place)
  | implementation {headerPlace : Place} (first : d.Takes (headerPath fake directory) headerPlace)
      (replaces : d.Replaces (implementationPath fake directory) fake.implementation place)

theorem ReplacesOne.exists_file {d : Disk} {fake : Fake} {directory : String} {place : Place}
    (one : d.ReplacesOne fake directory place) :
    ∃ file ∈ fake.files directory, d.Replaces file.1 file.2 place := by
  cases one with
  | header replaces => exact ⟨_, List.mem_cons_self, replaces⟩
  | implementation first replaces =>
      exact ⟨_, List.mem_cons_of_mem _ List.mem_cons_self, replaces⟩

/-- What the implementation replaces does not depend on the header being written. -/
theorem replaces_implementation_iff {d d' : Disk} {fake : Fake} {directory text text' : String}
    {place : Place} (wrote : d.writeFile (headerPath fake directory) (.text text) = .ok d') :
    d'.Replaces (implementationPath fake directory) text' place ↔
      d.Replaces (implementationPath fake directory) text' place := by
  obtain ⟨target, takes, put⟩ := writeFile_eq_ok_iff_takes.1 wrote
  have same : SameDirectories d d' := put ▸ sameDirectories_put_file _ takes.noDirectory
  by_cases header : d.place (headerPath fake directory).toList = .ok place
  · have apart := place_header_ne_implementation header
    refine ⟨fun replaces => ?_, fun replaces => absurd replaces.takes.led apart⟩
    exact absurd (same.place_eq_ok_iff.1 replaces.takes.led) apart
  · have other : place ≠ target := by
      rintro rfl
      exact header takes.led
    have takes_iff := takes_writeFile_iff wrote header (implementationPath fake directory)
    subst put
    constructor
    · rintro ⟨takes', differs⟩
      exact ⟨takes_iff.1 takes', by rwa [fileAt?_put_other _ other] at differs⟩
    · rintro ⟨takes', differs⟩
      exact ⟨takes_iff.2 takes', by rwa [fileAt?_put_other _ other]⟩

/-- Files that were new are removed after a failure, so one that stood before stays as it
is. -/
theorem fileAt?_removeFiles_created {d d' : Disk} {path text : String} {place : Place}
    (wrote : d.writeFile path (.text text) = .ok d') (stood : (d.fileAt? place).isSome) :
    ((fileSystem.removeFiles (createdBy d [] path)).run d').2.fileAt? place =
      d'.fileAt? place := by
  obtain ⟨target, takes, rfl⟩ := writeFile_eq_ok_iff_takes.1 wrote
  refine (removed_removeFiles _ _).others place ?_
  intro path' member led
  obtain ⟨rfl, new⟩ := (mem_createdBy.1 member).resolve_left (by simp)
  have same := sameDirectories_put_file (.text text) takes.noDirectory
  have nothing := (kind?_eq_none_iff (same.place_eq_ok_iff.1 led)).1 new
  simp [fileAt?, nothing] at stood

/-- **What writing the two files of a fake does to a file that stands there**: it stays, and
it is changed when one of the texts takes its place. -/
theorem fileAt?_writeTogether {d d' : Disk} {fake : Fake} {directory : String}
    {result : Except PersistenceError Unit} {place : Place}
    (run : (fileSystem.writeTogether [] (fake.files directory)).run d = (result, d'))
    (stood : (d.fileAt? place).isSome) :
    (d'.fileAt? place).isSome ∧
      (d'.fileAt? place ≠ d.fileAt? place ↔ d.ReplacesOne fake directory place) := by
  change (fileSystem.writeTogether [] [(headerPath fake directory, fake.header),
    (implementationPath fake directory, fake.implementation)]).run d = _ at run
  rw [run_writeTogether_cons] at run
  cases header : d.writeFile (headerPath fake directory) (.text fake.header) with
  | error cause =>
      rw [header] at run
      obtain ⟨-, rfl⟩ := Prod.mk.inj run
      have refused : ∀ {place}, ¬ d.Takes (headerPath fake directory) place := by
        intro place takes
        cases header.symm.trans (writeFile_eq_ok_iff_takes.2 ⟨place, takes, rfl⟩)
      refine ⟨stood, fun other => absurd rfl other, ?_⟩
      rintro (replaces | ⟨first, -⟩)
      · exact absurd replaces.takes refused
      · exact absurd first refused
  | ok d₁ =>
      rw [header] at run
      dsimp only at run
      rw [run_writeTogether_cons] at run
      have first := fileAt?_writeFile_ne_iff header place
      have stood₁ := isSome_fileAt?_writeFile header stood
      obtain ⟨headerPlace, takes, -⟩ := writeFile_eq_ok_iff_takes.1 header
      cases implementation : d₁.writeFile (implementationPath fake directory)
          (.text fake.implementation) with
      | error cause =>
          rw [implementation] at run
          obtain ⟨-, rfl⟩ := Prod.mk.inj run
          rw [fileAt?_removeFiles_created header stood, first]
          refine ⟨stood₁, .header, ?_⟩
          rintro (replaces | ⟨-, replaces⟩)
          · exact replaces
          · have takes' := ((replaces_implementation_iff header).2 replaces).takes
            cases implementation.symm.trans (writeFile_eq_ok_iff_takes.2 ⟨place, takes', rfl⟩)
      | ok d₂ =>
          rw [implementation] at run
          obtain ⟨-, rfl⟩ := Prod.mk.inj run
          have second := fileAt?_writeFile_ne_iff implementation place
          rw [replaces_implementation_iff header] at second
          refine ⟨isSome_fileAt?_writeFile implementation stood₁, ?_, ?_⟩
          · intro other
            by_cases kept : d₁.fileAt? place = d.fileAt? place
            · exact .implementation takes (second.1 (kept ▸ other))
            · exact .header (first.1 kept)
          · rintro (replaces | ⟨-, replaces⟩)
            · -- The implementation goes elsewhere, so the header stays.
              have apart := place_header_ne_implementation replaces.takes.led
              have kept : d₂.fileAt? place = d₁.fileAt? place := by
                by_contra other
                exact apart (second.1 other).takes.led
              rw [kept]
              exact first.2 replaces
            · have kept : d₁.fileAt? place = d.fileAt? place := by
                by_contra other
                exact place_header_ne_implementation (first.1 other).takes.led replaces.takes.led
              rw [← kept]
              exact second.2 replaces

/-! ## One delivery -/

/-- A fake and the directory that it goes to. -/
structure Delivery where
  fake : Fake
  directory : String

/-- The disk after a fake is delivered that may not replace files, whatever comes of it. -/
def afterDelivery (d : Disk) (delivery : Delivery) : Disk :=
  ((fileSystem.persist false delivery.fake delivery.directory).run d).2

/-- A file that a delivery replaces although it may not: nothing stands at the paths, and one
of them leads to the file once the directories are made. -/
structure Redirected (d : Disk) (delivery : Delivery) (place : Place) : Prop where
  nothing : ∀ file ∈ delivery.fake.files delivery.directory, d.kind? file.1 = none
  replaced : ∃ d', (fileSystem.ensureDirectories delivery.directory).run d = (.ok (), d') ∧
    d'.ReplacesOne delivery.fake delivery.directory place

/-- A delivery refuses, or writes into the directory when nothing stands at the paths. -/
theorem afterDelivery_cases (d : Disk) (delivery : Delivery) :
    ((∃ file ∈ delivery.fake.files delivery.directory, (d.kind? file.1).isSome) ∧
      d.afterDelivery delivery = d) ∨
    (∀ file ∈ delivery.fake.files delivery.directory, d.kind? file.1 = none) ∧
      d.afterDelivery delivery = ((fileSystem.writeInto delivery.directory
        (delivery.fake.files delivery.directory)).run d).2 := by
  unfold afterDelivery
  rw [run_persist_keeping]
  split
  · rename_i path found
    left
    obtain ⟨file, member, rfl⟩ := List.mem_map.1 (List.mem_of_find?_eq_some found)
    exact ⟨⟨file, member, by simpa using List.find?_some found⟩, rfl⟩
  · rename_i found
    right
    refine ⟨fun file member => ?_, rfl⟩
    have absent := List.find?_eq_none.1 found file.1 (List.mem_map_of_mem member)
    simpa using absent

/-- The disk after files are written into a directory. -/
theorem snd_run_writeInto (directory : String) (files : List (String × String)) (d : Disk) :
    ((fileSystem.writeInto directory files).run d).2 =
      match (fileSystem.ensureDirectories directory).run d with
      | (.error _, d') => d'
      | (.ok (), d') => ((fileSystem.writeTogether [] files).run d').2 := by
  rw [run_writeInto]
  generalize (fileSystem.ensureDirectories directory).run d = made
  obtain ⟨_ | _, d'⟩ := made
  · rfl
  · dsimp only
    generalize (fileSystem.writeTogether [] files).run d' = written
    obtain ⟨_ | _, d''⟩ := written <;> rfl

/-- **What a delivery does to a file that stands**: the file stays, and it is changed when it
is redirected. -/
theorem fileAt?_afterDelivery {d : Disk} {place : Place} (delivery : Delivery)
    (stood : (d.fileAt? place).isSome) :
    ((d.afterDelivery delivery).fileAt? place).isSome ∧
      ((d.afterDelivery delivery).fileAt? place ≠ d.fileAt? place ↔
        d.Redirected delivery place) := by
  rcases d.afterDelivery_cases delivery with ⟨⟨file, member, present⟩, same⟩ | ⟨nothing, after⟩
  · rw [same]
    refine ⟨stood, fun other => absurd rfl other, fun redirected => ?_⟩
    rw [redirected.nothing file member] at present
    cases present
  · rw [after, snd_run_writeInto]
    have adds := addsDirectories_ensureDirectories delivery.directory d
    cases made : (fileSystem.ensureDirectories delivery.directory).run d with
    | mk result d' =>
        rw [made] at adds
        have kept : d'.fileAt? place = d.fileAt? place := adds.fileAt?_eq place
        cases result with
        | error e =>
            refine ⟨by rwa [kept], fun other => absurd kept other, fun redirected => ?_⟩
            obtain ⟨d'', made', -⟩ := redirected.replaced
            cases made.symm.trans made'
        | ok _ =>
            have stood' : (d'.fileAt? place).isSome := by rwa [kept]
            obtain ⟨stays, changed⟩ := fileAt?_writeTogether (Prod.eta _) stood'
            refine ⟨stays, ?_⟩
            rw [kept] at changed
            refine changed.trans ⟨fun one => ⟨nothing, d', made, one⟩, fun redirected => ?_⟩
            obtain ⟨d'', made', one⟩ := redirected.replaced
            obtain rfl := (Prod.mk.inj (made.symm.trans made')).2
            exact one

/-! ## When files are redirected -/

/-- What stands at a path that leads to a directory. -/
theorem kind?_eq_directory_iff {d : Disk} {path : String} :
    d.kind? path = some .directory ↔
      ∃ place, d.place path.toList = .ok place ∧ d.entryAt? place = some .directory := by
  unfold kind? find
  cases led : d.place path.toList with
  | error e => simp [bind, Except.bind]
  | ok place =>
      rcases entry : d.entryAt? place with _ | content | _ <;>
        simp [bind, Except.bind, pure, Except.pure, entry]

/-- A directory that is there is not made again. -/
theorem makeDirectory_of_directory {d : Disk} {path : String}
    (present : d.kind? path = some .directory) :
    d.makeDirectory path = .error .alreadyExists := by
  obtain ⟨place, led, directory⟩ := kind?_eq_directory_iff.1 present
  unfold makeDirectory
  rw [place_dropEndSlashes led]
  simp [bind, Except.bind, directory]

/-- Making a directory that is there changes nothing. -/
theorem run_ensureDirectories_of_directory {d : Disk} {path : String}
    (present : d.kind? path = some .directory) :
    (fileSystem.ensureDirectories path).run d = (.ok (), d) := by
  obtain ⟨above, ancestors⟩ := FilePath.exists_ancestors_eq_cons path
  have someName : ¬ path.isEmpty = true := by
    rw [String.isEmpty_iff]
    rintro rfl
    cases present
  rw [FileSystem.ensureDirectories, ancestors, FileSystem.ensureAncestors, if_neg someName]
  change (change (·.makeDirectory path) >>= _).run d = _
  rw [run_change_bind, makeDirectory_of_directory present]
  change (if (d.kind? path == some .directory) = true then _ else _ : StateM Disk _).run d = _
  rw [present]
  rfl

/-- **A file is redirected only over a path that leads upwards.** -/
theorem Redirected.upwards {d : Disk} {delivery : Delivery} {place : Place} (tree : d.IsTree)
    (stood : (d.fileAt? place).isSome) (redirected : d.Redirected delivery place) :
    ∃ file ∈ delivery.fake.files delivery.directory,
      ['.', '.'] ∈ FilePath.split file.1.toList := by
  obtain ⟨d', made, one⟩ := redirected.replaced
  have adds := addsDirectories_ensureDirectories delivery.directory d
  rw [made] at adds
  obtain ⟨file, member, replaces⟩ := one.exists_file
  refine ⟨file, member, ?_⟩
  by_contra straight
  have present := isSome_kind?_of_addsDirectories tree adds straight replaces.takes.led stood
  rw [redirected.nothing file member] at present
  cases present

/-- **A file is redirected only when directories are missing.** -/
theorem Redirected.missing {d : Disk} {delivery : Delivery} {place : Place}
    (stood : (d.fileAt? place).isSome) (redirected : d.Redirected delivery place) :
    d.kind? delivery.directory ≠ some .directory := by
  intro present
  obtain ⟨d', made, one⟩ := redirected.replaced
  rw [run_ensureDirectories_of_directory present] at made
  obtain rfl := (Prod.mk.inj made).2
  obtain ⟨file, member, replaces⟩ := one.exists_file
  have nothing := (kind?_eq_none_iff replaces.takes.led).1 (redirected.nothing file member)
  simp [fileAt?, nothing] at stood

/-! ## Deliveries in turn -/

/-- The disk after fakes are delivered in turn. -/
def afterDeliveries (d : Disk) (deliveries : List Delivery) : Disk :=
  deliveries.foldl afterDelivery d

theorem isTree_afterDelivery {d : Disk} (tree : d.IsTree) (delivery : Delivery) :
    (d.afterDelivery delivery).IsTree :=
  keepsTree_persist false delivery.fake delivery.directory d tree

/-- **A disk stays a tree** however many fakes are delivered. -/
theorem isTree_afterDeliveries {d : Disk} (tree : d.IsTree) (deliveries : List Delivery) :
    (d.afterDeliveries deliveries).IsTree := by
  induction deliveries generalizing d with
  | nil => exact tree
  | cons delivery deliveries ih => exact ih (isTree_afterDelivery tree delivery)

/-- **Deliveries that may not replace files leave the files that stand**, except those that
they are redirected to.

Whatever was delivered before, the next delivery removes no file, and it changes a file
exactly when the file is redirected to: the delivery finds nothing at its two paths, and one
of them leads to the file when its directories are made.  Then that path leads upwards and the
directory of the delivery was missing.  So a delivery to a directory that is there, or whose
paths are without two dots, leaves every file as it was, whatever it answers. -/
theorem existing_file_of_deliveries {d : Disk} (tree : d.IsTree) (before : List Delivery)
    (delivery : Delivery) {place : Place}
    (stood : ((d.afterDeliveries before).fileAt? place).isSome) :
    (((d.afterDeliveries before).afterDelivery delivery).fileAt? place).isSome ∧
    (((d.afterDeliveries before).afterDelivery delivery).fileAt? place ≠
        (d.afterDeliveries before).fileAt? place ↔
      (d.afterDeliveries before).Redirected delivery place) ∧
    ((d.afterDeliveries before).Redirected delivery place →
      (∃ file ∈ delivery.fake.files delivery.directory,
        ['.', '.'] ∈ FilePath.split file.1.toList) ∧
      (d.afterDeliveries before).kind? delivery.directory ≠ some .directory) := by
  obtain ⟨stays, changed⟩ := fileAt?_afterDelivery delivery stood
  refine ⟨stays, changed, fun redirected => ⟨?_, redirected.missing stood⟩⟩
  exact redirected.upwards (isTree_afterDeliveries tree before) stood

/-- An earlier version of a fake, delivered to the directory of fakes. -/
def earlierDelivery : Delivery :=
  ⟨⟨"FakeGreeter", "old header", "old implementation"⟩, "/fakes"⟩

/-- The fake once more, on a way through a directory that is missing. -/
def detour : Delivery := ⟨greeterFake, "/gone/../fakes"⟩

/-- A disk with nothing on it. -/
def emptyDisk : Disk where
  entries := []

theorem isTree_emptyDisk : emptyDisk.IsTree := isTree_of_entries nofun

/-- The detour changes the header that an earlier delivery wrote, the straight way does not. -/
theorem fileAt?_afterDelivery_detour :
    ((emptyDisk.afterDeliveries [earlierDelivery]).fileAt? (inFakes "FakeGreeter.h")).isSome ∧
    ((emptyDisk.afterDeliveries [earlierDelivery]).afterDelivery detour).fileAt?
      (inFakes "FakeGreeter.h") ≠
        (emptyDisk.afterDeliveries [earlierDelivery]).fileAt? (inFakes "FakeGreeter.h") ∧
    ((emptyDisk.afterDeliveries [earlierDelivery]).afterDelivery ⟨greeterFake, "/fakes"⟩).fileAt?
      (inFakes "FakeGreeter.h") =
        (emptyDisk.afterDeliveries [earlierDelivery]).fileAt? (inFakes "FakeGreeter.h") := by
  decide +kernel

/-- The detour changes the header that an earlier delivery wrote, so it was redirected over a
path that leads upwards; the same fake delivered straight changes nothing. -/
theorem existing_file_of_deliveries_detour :
    emptyDisk.IsTree ∧
    ((emptyDisk.afterDeliveries [earlierDelivery]).fileAt? (inFakes "FakeGreeter.h")).isSome ∧
    (emptyDisk.afterDeliveries [earlierDelivery]).Redirected detour (inFakes "FakeGreeter.h") ∧
    (∃ file ∈ detour.fake.files detour.directory, ['.', '.'] ∈ FilePath.split file.1.toList) ∧
    ¬ (emptyDisk.afterDeliveries [earlierDelivery]).Redirected ⟨greeterFake, "/fakes"⟩
      (inFakes "FakeGreeter.h") := by
  obtain ⟨stood, differs, agrees⟩ := fileAt?_afterDelivery_detour
  obtain ⟨-, changed, upwards⟩ :=
    existing_file_of_deliveries isTree_emptyDisk [earlierDelivery] detour stood
  obtain ⟨-, changed', -⟩ :=
    existing_file_of_deliveries isTree_emptyDisk [earlierDelivery] ⟨greeterFake, "/fakes"⟩ stood
  have redirected := changed.1 differs
  exact ⟨isTree_emptyDisk, stood, redirected, (upwards redirected).1,
    fun straight => changed'.2 straight agrees⟩

/-- Although it may not replace files, a delivery may change one that an earlier delivery
wrote: nothing stands at its paths until its directories are made. -/
theorem delivery_may_replace_file :
    ¬ ∀ (d : Disk) (before : List Delivery) (delivery : Delivery) (place : Place),
      d.IsTree → ((d.afterDeliveries before).fileAt? place).isSome →
      ((d.afterDeliveries before).afterDelivery delivery).fileAt? place =
        (d.afterDeliveries before).fileAt? place := by
  intro every
  obtain ⟨stood, differs, -⟩ := fileAt?_afterDelivery_detour
  exact differs (every emptyDisk [earlierDelivery] detour (inFakes "FakeGreeter.h")
    isTree_emptyDisk stood)

end ProtocolFakes.Disk
