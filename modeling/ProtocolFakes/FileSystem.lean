import ProtocolFakes.FilePath

/-!
# What is asked of a file system

Configuration, persistence and the command line work with files through the few
operations gathered in `FileSystem`, in any monad.  The same code runs on the
files of a machine and on the disks in memory of `Disk`, about which statements
can be made.
-/

namespace ProtocolFakes

set_option autoImplicit false

/-! ## Failures -/

/-- Why an operation on files fails. -/
inductive FileError where
  | notFound
  | alreadyExists
  | notDirectory
  | isDirectory
  /-- A name of a path is longer than a file name may be. -/
  | nameTooLong
  /-- A path holds the character of code zero. -/
  | nulInPath
  /-- The bytes of a file are no text. -/
  | invalidText
  | other (message : String)
  deriving DecidableEq, Repr

/-- What a failure says. -/
def FileError.message : FileError → String
  | notFound => "No such file or directory (os error 2)"
  | alreadyExists => "File exists (os error 17)"
  | notDirectory => "Not a directory (os error 20)"
  | isDirectory => "Is a directory (os error 21)"
  | nameTooLong => "File name too long (os error 36)"
  | nulInPath => "file name contained an unexpected NUL byte"
  | invalidText => "stream did not contain valid UTF-8"
  | other message => message

/-! ## Operations -/

/-- What stands at a path. -/
inductive FileKind where
  | file
  | directory
  deriving DecidableEq, Repr

/-- The operations on files. -/
structure FileSystem (m : Type → Type) where
  /-- What stands at a path, if anything does. -/
  kind? : String → m (Option FileKind)
  /-- The text of a file. -/
  readText : String → m (Except FileError String)
  /-- Replaces the text of a file, or makes a new file of it. -/
  writeText : String → String → m (Except FileError Unit)
  /-- Makes a directory inside one that is there. -/
  makeDirectory : String → m (Except FileError Unit)
  /-- Removes a file. -/
  removeFile : String → m (Except FileError Unit)
  /-- The absolute path of what stands at a path, without dots. -/
  canonicalize : String → m (Except FileError String)

namespace FileSystem

variable {m : Type → Type} [Monad m]

/-- Whether anything stands at a path. -/
def hasPath (fs : FileSystem m) (path : String) : m Bool := do
  pure (← fs.kind? path).isSome

/-- Whether a file stands at a path. -/
def hasFile (fs : FileSystem m) (path : String) : m Bool := do
  pure ((← fs.kind? path) == some FileKind.file)

/-- Whether a directory stands at a path. -/
def hasDirectory (fs : FileSystem m) (path : String) : m Bool := do
  pure ((← fs.kind? path) == some FileKind.directory)

/-- The first of some paths at which something stands. -/
def firstPresent? (fs : FileSystem m) : List String → m (Option String)
  | [] => pure none
  | path :: paths => do
      if ← fs.hasPath path then pure (some path) else fs.firstPresent? paths

/-- Makes a directory, and is content with one that is there already. -/
def ensureDirectory (fs : FileSystem m) (path : String) : m (Except FileError Unit) := do
  match ← fs.makeDirectory path with
  | .ok () => pure (.ok ())
  | .error e => do
      if ← fs.hasDirectory path then pure (.ok ()) else pure (.error e)

/-- Makes a directory after those of a list, the outermost of which stands last
and of which the first is the one asked for. -/
def ensureAncestors (fs : FileSystem m) : List String → m (Except FileError Unit)
  | [] => pure (.ok ())
  | path :: above =>
      if path.isEmpty then pure (.ok ())
      else do
        match ← fs.makeDirectory path with
        | .ok () => pure (.ok ())
        | .error .notFound => do
            match ← ensureAncestors fs above with
            | .error e => pure (.error e)
            | .ok () => fs.ensureDirectory path
        | .error e => do
            if ← fs.hasDirectory path then pure (.ok ()) else pure (.error e)

/-- Makes a directory and every missing directory above it. -/
def ensureDirectories (fs : FileSystem m) (path : String) : m (Except FileError Unit) :=
  fs.ensureAncestors (FilePath.ancestors path)

end FileSystem

end ProtocolFakes
