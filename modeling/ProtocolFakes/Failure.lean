import ProtocolFakes.Config
import ProtocolFakes.FileSystem
import ProtocolFakes.Selector.Error

/-!
# Failures

Everything that can go wrong between a selection and a pair of written files is
one of the causes gathered here.  A failure has three wordings: the technical
message, the sentence that a user is alerted with, and the chain of messages
underneath the technical one, outermost first.
-/

namespace ProtocolFakes

set_option autoImplicit false

/-! ## Writing a fake -/

/-- Why the files of a fake are not written. -/
inductive PersistenceError where
  /-- A file stands in the way and may not be replaced. -/
  | alreadyExists (path : String)
  | file (path : String) (cause : FileError)
  deriving DecidableEq

namespace PersistenceError

/-- What the failure says. -/
def message : PersistenceError → String
  | alreadyExists path => "refusing to overwrite existing file " ++ path
  | file path cause => "failed to write " ++ path ++ ": " ++ cause.message

/-- The messages underneath. -/
def causes : PersistenceError → List String
  | alreadyExists _ => []
  | file _ cause => [cause.message]

end PersistenceError

/-! ## All failures -/

/-- Why an action fails. -/
inductive Failure where
  | parse (cause : ParseError)
  | edit (cause : EditError)
  | persistence (cause : PersistenceError)
  | file (cause : FileError)
  | config (cause : ConfigError)
  | emptySelection
  | noProtocolFound
  | noMethodFound
  | noDocument
  deriving DecidableEq

namespace Failure

/-- The technical message. -/
def message : Failure → String
  | parse cause => "Parse error: " ++ cause.message
  | edit cause => "Edit error: " ++ cause.message
  | persistence cause => "Persistence error: " ++ cause.message
  | file cause => "IO error: " ++ cause.message
  | config cause => "Configuration error: " ++ cause.message
  | emptySelection => "Nothing is selected"
  | noProtocolFound => "No protocol declaration found in the selection"
  | noMethodFound => "No method declaration found at the requested location"
  | noDocument => "No current source document"

/-- The sentence that a user is alerted with. -/
def userMessage : Failure → String
  | parse cause => "Could not parse the selected protocol: " ++ cause.message
  | edit cause => "Could not edit the selector: " ++ cause.message
  | persistence cause => "Could not save the generated fake: " ++ cause.message
  | emptySelection => "Select an Objective-C protocol declaration to generate a fake."
  | noProtocolFound => "The selection does not contain an @protocol ... @end declaration."
  | noMethodFound => "No method declaration found there."
  | noDocument => "Open a source file before generating a fake."
  | failure@(file _) | failure@(config _) => "Fake generation failed: " ++ failure.message

/-- The messages underneath the technical one, outermost first. -/
def causes : Failure → List String
  | parse cause => [cause.message]
  | edit cause => [cause.message]
  | persistence cause => cause.message :: cause.causes
  | file cause => [cause.message]
  | config _ | emptySelection | noProtocolFound | noMethodFound | noDocument => []

end Failure

/-! ## Results -/

/-- Results are equal if they succeed, or fail, with the same. -/
instance decidableEqResult {ε α : Type} [DecidableEq ε] [DecidableEq α] :
    DecidableEq (Except ε α)
  | .error e, .error e' => decidable_of_iff (e = e') ⟨congrArg _, Except.error.inj⟩
  | .ok a, .ok b => decidable_of_iff (a = b) ⟨congrArg _, Except.ok.inj⟩
  | .error _, .ok _ => isFalse nofun
  | .ok _, .error _ => isFalse nofun

/-! ## Passing failures on -/

section Passing

variable {α β ε ε' : Type} {x : Except ε α}

theorem bind_eq_ok_iff {next : α → Except ε β} {b : β} :
    x >>= next = .ok b ↔ ∃ a, x = .ok a ∧ next a = .ok b := by
  cases x <;> simp [bind, Except.bind]

theorem bind_eq_error_iff {next : α → Except ε β} {e : ε} :
    x >>= next = .error e ↔ x = .error e ∨ ∃ a, x = .ok a ∧ next a = .error e := by
  cases x <;> simp [bind, Except.bind]

/-- Using its answer does not make it fail. -/
theorem map_eq_error_iff {use : α → β} {e : ε} : x.map use = .error e ↔ x = .error e := by
  cases x <;> simp [Except.map]

/-- Another failure in its place does not make it succeed. -/
theorem mapError_eq_ok_iff {f : ε → ε'} {a : α} : x.mapError f = .ok a ↔ x = .ok a := by
  cases x with
  | error cause => exact ⟨nofun, nofun⟩
  | ok b =>
      change Except.ok b = Except.ok a ↔ _
      simp only [Except.ok.injEq]

theorem mapError_eq_error_iff {f : ε → ε'} {e : ε'} :
    x.mapError f = .error e ↔ ∃ cause, x = .error cause ∧ f cause = e := by
  cases x with
  | error cause =>
      change Except.error (f cause) = Except.error e ↔ _
      simp
  | ok a => exact ⟨nofun, fun ⟨_, same, _⟩ => nomatch same⟩

end Passing

end ProtocolFakes
