import ProtocolFakes.CommandLine

/-!
# The program

The command line on the files of the machine.
-/

namespace ProtocolFakes

set_option autoImplicit false

/-- The failure that the machine reports. -/
def FileError.ofMachine : IO.Error → FileError
  | .noFileOrDirectory .. => .notFound
  | .alreadyExists .. => .alreadyExists
  | .inappropriateType _ code _ => if code = 20 then .notDirectory else .isDirectory
  | .userError message => .other message
  | e => .other e.toString

/-- The outcome of an action of the machine. -/
def attempt {α : Type} (action : IO α) : IO (Except FileError α) := do
  try
    pure (.ok (← action))
  catch e => pure (.error (.ofMachine e))

/-- What stands at a path of the machine. -/
def machineKind? (path : String) : IO (Option FileKind) := do
  match ← attempt (IO.FS.realPath path) with
  | .ok found => pure (some (if ← found.isDir then .directory else .file))
  | .error _ => pure none

/-- The text of a file of the machine. -/
def readMachineText (path : String) : IO (Except FileError String) := do
  match ← attempt (IO.FS.readBinFile path) with
  | .error e => pure (.error e)
  | .ok bytes =>
      match String.fromUTF8? bytes with
      | some text => pure (.ok text)
      | none => pure (.error .invalidText)

/-- The files of the machine. -/
def machineFiles : FileSystem IO where
  kind? := machineKind?
  readText := readMachineText
  writeText path text := attempt (IO.FS.writeFile path text)
  makeDirectory path := attempt (IO.FS.createDir path)
  removeFile path := attempt (IO.FS.removeFile path)
  canonicalize path := attempt do pure (← IO.FS.realPath path).toString

end ProtocolFakes

/-- Runs the arguments of the program in its working directory. -/
def main (arguments : List String) : IO UInt32 := do
  let workingDirectory := (← IO.currentDir).toString
  let outcome ← ProtocolFakes.CommandLine.run ProtocolFakes.machineFiles workingDirectory arguments
  (← IO.getStdout).putStr outcome.output
  (← IO.getStderr).putStr outcome.errors
  pure outcome.status.toUInt32
