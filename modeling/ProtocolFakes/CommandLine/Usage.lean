import ProtocolFakes.CommandLine.Options
import ProtocolFakes.CommandLine.Request

/-!
# Requests as arguments

The first argument names the command, by its full name or its first letter; the
others are its operands and options.  Arguments that do not make up exactly one
request are a usage error, which is all that is said about them here.
-/

namespace ProtocolFakes

set_option autoImplicit false

namespace CommandLine

/-- The options of the generate command. -/
def generateForms : List OptionForm :=
  [⟨"lines", some 'l', 1⟩, ⟨"out", some 'o', 1⟩, ⟨"force", some 'f', 0⟩]

/-- The options of the selector command that spell an edit.  At most one of them
may be used. -/
def editForms : List OptionForm :=
  [⟨"delete", none, 1⟩, ⟨"insert", none, 1⟩, ⟨"swap", none, 2⟩, ⟨"rename", none, 2⟩]

/-- The options of the selector command. -/
def selectorForms : List OptionForm := editForms ++ [⟨"write", some 'w', 0⟩, ⟨"json", none, 0⟩]

/-- The options of the init command. -/
def initForms : List OptionForm := [⟨"cwd", some 'c', 1⟩, ⟨"force", some 'f', 0⟩]

/-- An index among the values of an option. -/
def index? (text : String) : Option Nat := (readNatural text.toList).toOption

/-- The arguments that spell an edit, unless they spell two. -/
def editArguments? (uses : List OptionUse) : Option EditArguments := do
  let used := editForms.filter fun form => uses.any (·.name = form.name)
  if 1 < used.length then none
  else
    let delete ← value? uses "delete"
    let insert ← value? uses "insert"
    let delete ← delete.mapM index?
    let insert ← insert.mapM index?
    let swap ← (values uses "swap").mapM fun texts => texts.mapM index?
    pure { delete, insert, swap, rename := values uses "rename" }

end CommandLine

open CommandLine

namespace Request

/-- The request for a fake. -/
def generate? (arguments : List String) : Option Request := do
  match ← separate generateForms arguments with
  | ([file], uses) =>
      let lines ← value? uses "lines"
      let out ← value? uses "out"
      let force ← flag? uses "force"
      pure (.generate { file, lines, out, force })
  | _ => none

/-- The request to show or edit a selector. -/
def selector? (arguments : List String) : Option Request := do
  match ← separate selectorForms arguments with
  | ([location], uses) =>
      let edit ← editArguments? uses
      let write ← flag? uses "write"
      let json ← flag? uses "json"
      pure (.selector { location, edit, write, json })
  | _ => none

/-- The request for a configuration file. -/
def init? (arguments : List String) : Option Request := do
  match ← separate initForms arguments with
  | ([], uses) =>
      let directory ← value? uses "cwd"
      let force ← flag? uses "force"
      pure (.init { directory, force })
  | _ => none

/-- The request that arguments make up. -/
def ofArguments? : List String → Option Request
  | [] => none
  | command :: arguments =>
      if command = "generate" ∨ command = "g" then generate? arguments
      else if command = "selector" ∨ command = "s" then selector? arguments
      else if command = "init" then init? arguments
      else none

end Request

end ProtocolFakes
