import ProtocolFakes.Document
import ProtocolFakes.Failure
import ProtocolFakes.Fake

/-!
# Writing a fake to files

The two files of a fake are written together or not at all.  Unless files may be
replaced, one that exists already is a refusal before anything is written.  When
the second file cannot be written, the first is removed again if it was new.
-/

namespace ProtocolFakes

set_option autoImplicit false

/-- The paths and texts of the files of a fake in a directory. -/
def Fake.files (f : Fake) (directory : String) : List (String × String) :=
  [(FilePath.within directory f.headerFile, f.header),
    (FilePath.within directory f.implementationFile, f.implementation)]

namespace FileSystem

variable {m : Type → Type} [Monad m]

/-- Removes files, whatever comes of it. -/
def removeFiles (fs : FileSystem m) : List String → m Unit
  | [] => pure ()
  | path :: paths => do
      let _ ← fs.removeFile path
      fs.removeFiles paths

/-- Writes files in turn.  When one cannot be written, the new ones among those
before it are removed again; `created` are those so far. -/
def writeTogether (fs : FileSystem m) (created : List String) :
    List (String × String) → m (Except PersistenceError Unit)
  | [] => pure (.ok ())
  | (path, text) :: files => do
      let existed ← fs.hasPath path
      match ← fs.writeText path text with
      | .error cause => do
          fs.removeFiles created
          pure (.error (.file path cause))
      | .ok () => fs.writeTogether (if existed then created else created ++ [path]) files

/-- Makes a directory with all above it and writes files into it. -/
def writeInto (fs : FileSystem m) (directory : String) (files : List (String × String)) :
    m (Except PersistenceError (List String)) := do
  match ← fs.ensureDirectories directory with
  | .error cause => pure (.error (.file directory cause))
  | .ok () =>
      match ← fs.writeTogether [] files with
      | .error e => pure (.error e)
      | .ok () => pure (.ok (files.map (·.1)))

/-- Writes the files of a fake and answers their paths. -/
def persist (fs : FileSystem m) (overwrite : Bool) (fake : Fake) (directory : String) :
    m (Except PersistenceError (List String)) := do
  let files := fake.files directory
  if overwrite then fs.writeInto directory files
  else
    match ← fs.firstPresent? (files.map (·.1)) with
    | some path => pure (.error (.alreadyExists path))
    | none => fs.writeInto directory files

end FileSystem

end ProtocolFakes
