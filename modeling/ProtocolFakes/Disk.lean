import ProtocolFakes.FileSystem
import ProtocolFakes.Text.Byte

/-!
# Disks in memory

A disk is a table of what stands at which place, where a place is the list of
names that lead there from the root.  It answers the operations of `FileSystem`
the way the files of a machine do, without links: names are followed one by
one, every name but the last has to lead to a directory, a dot stays and two
dots lead upwards.

A disk may refuse to write at some places, so that every way for an operation to
fail can be seen.

Main statements: writing at a place is seen there (`entryAt?_put_same`) and nowhere
else (`entryAt?_put_other`), and the same for removal.
-/

namespace ProtocolFakes

set_option autoImplicit false

/-! ## Places and entries -/

/-- The names that lead from the root to a place. -/
abbrev Place := List (List Char)

/-- What a file holds: a text, or bytes that are none. -/
inductive FileContent where
  | text (value : String)
  | bytes (value : List UInt8)
  deriving DecidableEq, Inhabited

/-- What stands at a place. -/
inductive DiskEntry where
  | file (content : FileContent)
  | directory
  deriving DecidableEq, Inhabited

/-- A table of places, the place where relative paths begin, and the places
where nothing can be written. -/
structure Disk where
  entries : List (Place × DiskEntry) := []
  workingPlace : Place := []
  refuses : Place → Option FileError := fun _ => none

instance : Inhabited Disk := ⟨{ entries := [] }⟩

namespace Disk

/-! ## The table -/

/-- What stands at a place.  The root is always a directory. -/
def entryAt? (d : Disk) (place : Place) : Option DiskEntry :=
  if place.isEmpty then some .directory
  else (d.entries.find? (·.1 = place)).map (·.2)

/-- The content of the file at a place. -/
def fileAt? (d : Disk) (place : Place) : Option FileContent :=
  match d.entryAt? place with
  | some (.file content) => some content
  | _ => none

/-- The disk with something else at a place. -/
def put (d : Disk) (place : Place) (entry : DiskEntry) : Disk :=
  { d with entries := (place, entry) :: d.entries.filter (·.1 ≠ place) }

/-- The disk with nothing at a place. -/
def erase (d : Disk) (place : Place) : Disk :=
  { d with entries := d.entries.filter (·.1 ≠ place) }

/-- The files of a disk with their places. -/
def files (d : Disk) : List (Place × FileContent) :=
  d.entries.filterMap fun (place, entry) =>
    match entry with
    | .file content => some (place, content)
    | .directory => none

/-- What is put at a place stands there. -/
theorem entryAt?_put_same (d : Disk) {place : Place} (entry : DiskEntry) (h : place ≠ []) :
    (d.put place entry).entryAt? place = some entry := by
  simp [entryAt?, put, h]

/-- Putting something at a place changes no other place. -/
theorem entryAt?_put_other (d : Disk) {place other : Place} (entry : DiskEntry)
    (h : other ≠ place) : (d.put place entry).entryAt? other = d.entryAt? other := by
  simp only [entryAt?, put, List.find?_cons_of_neg, decide_eq_true_eq, Ne.symm h,
    not_false_eq_true, List.find?_filter]
  congr 3
  funext x
  by_cases hx : x.1 = other <;> simp_all

/-- What is erased is gone. -/
theorem entryAt?_erase_same (d : Disk) {place : Place} (h : place ≠ []) :
    (d.erase place).entryAt? place = none := by
  simp [entryAt?, erase, h, List.find?_filter]

/-- Erasing a place changes no other place. -/
theorem entryAt?_erase_other (d : Disk) {place other : Place} (h : other ≠ place) :
    (d.erase place).entryAt? other = d.entryAt? other := by
  simp only [entryAt?, erase, List.find?_filter]
  congr 3
  funext x
  by_cases hx : x.1 = other <;> simp_all

/-! ## Following names -/

/-- The most bytes that a file name may take. -/
def longestName : Nat := 255

/-- The place that names lead to.  The last name need not stand for anything,
unless it is empty or made of dots. -/
def follow (d : Disk) (place : Place) : List (List Char) → Except FileError Place
  | [] => .ok place
  | name :: names =>
      match d.entryAt? place with
      | none => .error .notFound
      | some (.file _) => .error .notDirectory
      | some .directory =>
          if FilePath.isTrivial name then d.follow place names
          else if name = ['.', '.'] then d.follow place.dropLast names
          else if longestName < Text.byteLength name then .error .nameTooLong
          else d.follow (place ++ [name]) names

/-- A name leads on from a directory. -/
theorem follow_cons {d : Disk} {place : Place} (here : d.entryAt? place = some .directory)
    (name : List Char) (names : List (List Char)) :
    d.follow place (name :: names) =
      if FilePath.isTrivial name then d.follow place names
      else if name = ['.', '.'] then d.follow place.dropLast names
      else if longestName < Text.byteLength name then .error .nameTooLong
      else d.follow (place ++ [name]) names := by
  rw [follow, here]

/-- The place that a path leads to. -/
def place (d : Disk) (path : List Char) : Except FileError Place :=
  if path.contains '\x00' then .error .nulInPath
  else if path.isEmpty then .error .notFound
  else d.follow (if path.head? = some '/' then [] else d.workingPlace) (FilePath.split path)

/-- The place of a path, and what stands there. -/
def find (d : Disk) (path : String) : Except FileError (Place × DiskEntry) := do
  let place ← d.place path.toList
  match d.entryAt? place with
  | some entry => pure (place, entry)
  | none => .error .notFound

/-! ## Operations -/

/-- What stands at a path. -/
def kind? (d : Disk) (path : String) : Option FileKind :=
  match d.find path with
  | .ok (_, .file _) => some .file
  | .ok (_, .directory) => some .directory
  | .error _ => none

/-- The text of the file at a path. -/
def readText (d : Disk) (path : String) : Except FileError String := do
  match ← d.find path with
  | (_, .file (.text value)) => pure value
  | (_, .file (.bytes _)) => .error .invalidText
  | (_, .directory) => .error .isDirectory

/-- Refuses a place where nothing can be written. -/
def checkWritable (d : Disk) (place : Place) : Except FileError Unit :=
  match d.refuses place with
  | some refusal => .error refusal
  | none => .ok ()

/-- The disk after the file at a path is written. -/
def writeFile (d : Disk) (path : String) (content : FileContent) : Except FileError Disk := do
  let place ← d.place path.toList
  if d.entryAt? place = some .directory then .error .isDirectory
  else
    d.checkWritable place
    pure (d.put place (.file content))

/-- The disk after a directory is made.  Slashes at the end of its path stand
for nothing, since the directory is not there yet. -/
def makeDirectory (d : Disk) (path : String) : Except FileError Disk := do
  let place ← d.place (FilePath.dropEndSlashes path.toList)
  if (d.entryAt? place).isSome then .error .alreadyExists
  else
    d.checkWritable place
    pure (d.put place .directory)

/-- The disk after the file at a path is removed. -/
def removeFile (d : Disk) (path : String) : Except FileError Disk := do
  match ← d.find path with
  | (place, .file _) => pure (d.erase place)
  | (_, .directory) => .error .isDirectory

/-- The absolute path of a place. -/
def pathOf (place : Place) : String := String.ofList ('/' :: FilePath.join place)

/-- The absolute path of what stands at a path. -/
def canonicalize (d : Disk) (path : String) : Except FileError String := do
  let (place, _) ← d.find path
  pure (pathOf place)

/-! ## A disk as a file system -/

/-- The outcome of a change of the disk.  A failure changes nothing. -/
def change (step : Disk → Except FileError Disk) : StateM Disk (Except FileError Unit) :=
  fun d =>
    match step d with
    | .ok after => (.ok (), after)
    | .error e => (.error e, d)

/-- The operations on a disk. -/
def fileSystem : FileSystem (StateM Disk) where
  kind? path := do pure ((← get).kind? path)
  readText path := do pure ((← get).readText path)
  writeText path text := change (·.writeFile path (.text text))
  makeDirectory path := change (·.makeDirectory path)
  removeFile path := change (·.removeFile path)
  canonicalize path := do pure ((← get).canonicalize path)

end Disk

end ProtocolFakes
