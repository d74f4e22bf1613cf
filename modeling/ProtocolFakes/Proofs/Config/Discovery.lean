import ProtocolFakes.Config.File
import ProtocolFakes.Disk
import ProtocolFakes.Proofs.FilePath

/-!
# The nearest configuration file

A directory holds a configuration file if something stands at one of the two paths that the
names of such files have in it; if at both, the hidden one counts (`StandsIn`).  Such a path has
the names of the directory and the name of the file (`StandsIn.names_eq`).  The file that holds at
a path is that of the path itself or, going up, of the first directory that has one (`IsNearest`).
All these paths are asked for one after another, so a search finds the nearest file
(`find?_candidates_eq_some_iff`) and finds nothing only if no directory has one
(`find?_candidates_eq_none_iff`).

Main theorem: `discovers_nearest`.  What is read is the nearest file or nothing: where it cannot be
used, its failure is the answer.
-/

namespace ProtocolFakes

set_option autoImplicit false

/-! ## Asking for paths in turn -/

section Present

variable {σ : Type} {fs : FileSystem (StateM σ)} {s : σ} {present : String → Bool}

theorem FileSystem.run_firstPresent?
    (shows : ∀ path, (fs.hasPath path).run s = (present path, s)) (paths : List String) :
    (fs.firstPresent? paths).run s = (paths.find? present, s) := by
  induction paths with
  | nil => rfl
  | cons path paths ih =>
      rw [firstPresent?, StateT.run_bind, shows path, List.find?_cons]
      cases present path with
      | true => rfl
      | false => exact ih

end Present

namespace Config

open FilePath (within above? names isAbsolute)

/-! ## The file of a directory -/

/-- The configuration file of a directory stands at a path. -/
inductive StandsIn (present : String → Bool) (directory : String) : String → Prop where
  | hidden (there : present (within directory ".fakesmith.json") = true) :
      StandsIn present directory (within directory ".fakesmith.json")
  /-- Without a hidden file the other one counts. -/
  | plain (notHidden : present (within directory ".fakesmith.json") = false)
      (there : present (within directory "fakesmith.json") = true) :
      StandsIn present directory (within directory "fakesmith.json")

variable {present : String → Bool} {directory path start : String}

theorem find?_fileNames_eq_some_iff :
    (fileNames.map (within directory)).find? present = some path ↔
      StandsIn present directory path := by
  rw [fileNames, List.map_cons, List.map_cons, List.map_nil, List.find?_cons, List.find?_cons,
    List.find?_nil]
  constructor
  · intro found
    cases hidden : present (within directory ".fakesmith.json") with
    | true =>
        rw [hidden] at found
        obtain rfl := Option.some.inj found
        exact .hidden hidden
    | false =>
        rw [hidden] at found
        cases there : present (within directory "fakesmith.json") with
        | true =>
            rw [there] at found
            obtain rfl := Option.some.inj found
            exact .plain hidden there
        | false =>
            rw [there] at found
            cases found
  · rintro (there | ⟨notHidden, there⟩)
    · rw [there]
    · rw [notHidden, there]

/-- A configuration file stands in its directory, under a name of configuration files. -/
theorem StandsIn.names_eq (stands : StandsIn present directory path) :
    present path = true ∧ ∃ name ∈ fileNames, names path = names directory ++ [name.toList] := by
  cases stands with
  | hidden there =>
      exact ⟨there, _, .head _, FilePath.names_within directory (by decide) (by decide)⟩
  | plain notHidden there =>
      exact ⟨there, _, .tail _ (.head _), FilePath.names_within directory (by decide) (by decide)⟩

/-! ## The file of a directory or of one above it -/

/-- The nearest configuration file, going up from `start`, stands at a path. -/
def IsNearest (present : String → Bool) (start path : String) : Prop :=
  ∃ n directory, above? start n = some directory ∧ StandsIn present directory path ∧
    ∀ k < n, ∀ nearer, above? start k = some nearer → ∀ other, ¬ StandsIn present nearer other

/-- Asking at all candidates is asking in each directory in turn. -/
theorem find?_candidates (present : String → Bool) (start : String) :
    (candidates start).find? present =
      (FilePath.ancestors start).findSome? fun directory =>
        (fileNames.map (within directory)).find? present :=
  List.find?_flatMap

theorem find?_fileNames_eq_none_iff :
    (fileNames.map (within directory)).find? present = none ↔
      ∀ path, ¬ StandsIn present directory path := by
  simp only [← find?_fileNames_eq_some_iff, Option.eq_none_iff_forall_ne_some, ne_eq]

/-- **The search finds the nearest file.** -/
theorem find?_candidates_eq_some_iff :
    (candidates start).find? present = some path ↔ IsNearest present start path := by
  rw [find?_candidates, List.findSome?_eq_some_iff]
  simp only [find?_fileNames_eq_some_iff, find?_fileNames_eq_none_iff, IsNearest,
    ← FilePath.getElem?_ancestors]
  constructor
  · rintro ⟨nearer, directory, farther, whole, stands, others⟩
    refine ⟨nearer.length, directory, by rw [whole]; simp, stands, ?_⟩
    intro k before other at_k
    rw [whole, List.getElem?_append_left before] at at_k
    exact others other (List.mem_of_getElem? at_k)
  · rintro ⟨n, directory, at_n, stands, others⟩
    obtain ⟨inside, rfl⟩ := List.getElem?_eq_some_iff.1 at_n
    refine ⟨(FilePath.ancestors start).take n, _, (FilePath.ancestors start).drop (n + 1), ?_,
      stands, ?_⟩
    · rw [List.getElem_cons_drop, List.take_append_drop]
    · intro nearer member
      obtain ⟨k, before, rfl⟩ := List.mem_take_iff_getElem.1 member
      exact others k (by omega) _ (List.getElem?_eq_getElem _)

/-- **The search finds nothing only if no directory has a file.** -/
theorem find?_candidates_eq_none_iff :
    (candidates start).find? present = none ↔
      ∀ n directory, above? start n = some directory →
        ∀ path, ¬ StandsIn present directory path := by
  rw [find?_candidates, List.findSome?_eq_none_iff]
  simp only [find?_fileNames_eq_none_iff, ← FilePath.getElem?_ancestors]
  constructor
  · intro others n directory at_n
    exact others directory (List.mem_of_getElem? at_n)
  · intro others directory member
    obtain ⟨n, at_n⟩ := List.mem_iff_getElem?.1 member
    exact others n directory at_n

/-! ## Discovery -/

/-- **Discovery reads the nearest file and no other.** -/
theorem discovers_nearest {σ : Type} (fs : FileSystem (StateM σ)) (s : σ)
    (present : String → Bool) (shows : ∀ path, (fs.hasPath path).run s = (present path, s))
    (start : String) :
    ∃ found, (findFile? fs start).run s = (found, s) ∧
      (∀ path, found = some path ↔ IsNearest present start path) ∧
      (found = none ↔ ∀ n directory, above? start n = some directory →
        ∀ path, ¬ StandsIn present directory path) ∧
      (discover fs start).run s =
        (match found with
          | some path => (load fs path).run s
          | none => (.ok {}, s)) ∧
      ∀ n, ((above? start n).isSome = true ↔ n ≤ (names start).length) ∧
        ∀ directory, above? start n = some directory →
          isAbsolute directory = isAbsolute start ∧
            names directory = (names start).take ((names start).length - n) := by
  have run : (findFile? fs start).run s = ((candidates start).find? present, s) :=
    FileSystem.run_firstPresent? shows _
  refine ⟨_, run, fun path => find?_candidates_eq_some_iff, find?_candidates_eq_none_iff, ?_, ?_⟩
  · rw [discover, StateT.run_bind, run]
    cases (candidates start).find? present <;> rfl
  · intro n
    exact ⟨FilePath.isSome_above?_iff, fun directory up =>
      ⟨FilePath.isAbsolute_of_above? up, FilePath.names_of_above? up⟩⟩

/-- A directory without a configuration file, in one whose hidden file does not read.  The files
beside that file and farther up would. -/
def brokenNearby : Disk where
  entries := [(["work".toList], .directory), (["work".toList, "App".toList], .directory),
    (["work".toList, ".fakesmith.json".toList], .file (.text "\x7b not json")),
    (["work".toList, "fakesmith.json".toList], .file (.text "\x7b\x7d")),
    ([".fakesmith.json".toList], .file (.text "\x7b\x7d"))]

theorem discovers_nearest_broken :
    (findFile? Disk.fileSystem "work//App/./").run brokenNearby =
        (some "work/.fakesmith.json", brokenNearby) ∧
      (discover Disk.fileSystem "work//App/./").run brokenNearby =
        (.error (.config .unreadable), brokenNearby) := by
  obtain ⟨found, run, nearest, -, discovered, -⟩ :=
    discovers_nearest Disk.fileSystem brokenNearby (fun path => (brokenNearby.kind? path).isSome)
      (fun _ => rfl) "work//App/./"
  have first : found = some "work/.fakesmith.json" := by
    refine (nearest _).2 ⟨1, "work", by decide, .hidden (by decide), ?_⟩
    intro k before nearer up other stands
    obtain rfl := Nat.lt_one_iff.1 before
    obtain rfl := Option.some.inj up
    rcases stands with there | ⟨-, there⟩
    · exact absurd there (by decide)
    · exact absurd there (by decide)
  subst first
  exact ⟨run, discovered.trans (by rfl)⟩

end Config

end ProtocolFakes
