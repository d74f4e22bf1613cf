import ProtocolFakes.CommandLine.Error

/-!
# What the command line asks for

Three commands, each with its operands and options.  The edit that the selector
command is asked for is spelled by at most one of four options;
`EditArguments.edit` makes it of their values.
-/

namespace ProtocolFakes

set_option autoImplicit false

/-- Values of the options that spell an edit. -/
structure EditArguments where
  delete : Option Nat := none
  insert : Option Nat := none
  swap : Option (List Nat) := none
  rename : Option (List String) := none
  deriving DecidableEq, Inhabited

/-- The edit that is asked for, if any. -/
def EditArguments.edit (a : EditArguments) : Except CommandError (Option SelectorEdit) :=
  match a.delete, a.insert, a.swap, a.rename with
  | some index, _, _, _ => .ok (some (.delete index))
  | none, some index, _, _ => .ok (some (.insert index))
  | none, none, some [index, otherIndex], _ => .ok (some (.swap index otherIndex))
  | none, none, some _, _ => .error .swapOperands
  | none, none, none, some [index, keyword] =>
      match readNatural index.toList with
      | .ok n => .ok (some (.rename n keyword))
      | .error cause => .error (.invalidIndex index cause)
  | none, none, none, some _ => .error .renameOperands
  | none, none, none, none => .ok none

/-- Generate a fake for the protocol declared in a file. -/
structure GenerateRequest where
  file : String
  /-- The lines to read, or the whole file. -/
  lines : Option String := none
  /-- The directory for the fake, in place of the configured one. -/
  out : Option String := none
  /-- Replace files of a fake that exist. -/
  force : Bool := false
  deriving DecidableEq, Inhabited

/-- Show or edit the selector of the method declared at a line. -/
structure SelectorRequest where
  location : String
  edit : EditArguments := {}
  /-- Write the edited declaration back to the file. -/
  write : Bool := false
  /-- Print the selector as a JSON record. -/
  json : Bool := false
  deriving DecidableEq, Inhabited

/-- Write a configuration file. -/
structure InitRequest where
  /-- The directory for the file, or the working directory. -/
  directory : Option String := none
  /-- Replace a file that exists. -/
  force : Bool := false
  deriving DecidableEq, Inhabited

/-- A command with its operands and options. -/
inductive Request where
  | generate (request : GenerateRequest)
  | selector (request : SelectorRequest)
  | init (request : InitRequest)
  deriving DecidableEq

end ProtocolFakes
