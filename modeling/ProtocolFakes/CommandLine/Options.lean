/-!
# Options among arguments

An option is written with two dashes and its name, or with one dash and its
letter.  Its first value may stand in the same argument: behind an equals sign,
or right behind the letter.  Letters of options without values can share a dash.
Otherwise the values are the arguments that follow, and none of them may begin
with a dash unless it is the dash alone.  Two dashes alone end the options.

Arguments are read from left to right; `ArgumentsSoFar.step` is one step.
-/

namespace ProtocolFakes.CommandLine

set_option autoImplicit false

/-- An option and how it is written. -/
structure OptionForm where
  name : String
  letter : Option Char := none
  /-- How many values each use has. -/
  arity : Nat := 0
  deriving DecidableEq, Repr, Inhabited

/-- One use of an option. -/
structure OptionUse where
  name : String
  values : List String := []
  deriving DecidableEq, Repr, Inhabited

/-- What has been read of the arguments. -/
structure ArgumentsSoFar where
  operands : List String := []
  uses : List OptionUse := []
  /-- An option that still lacks values, and those it has. -/
  pending : Option (OptionForm × List String) := none
  /-- Whether the options have ended. -/
  ended : Bool := false
  deriving DecidableEq, Inhabited

namespace ArgumentsSoFar

/-- One more operand. -/
def addOperand (s : ArgumentsSoFar) (operand : String) : ArgumentsSoFar :=
  { s with operands := s.operands ++ [operand] }

/-- One more use of an option, which is complete. -/
def addUse (s : ArgumentsSoFar) (name : String) (values : List String) : ArgumentsSoFar :=
  { s with uses := s.uses ++ [⟨name, values⟩], pending := none }

/-- An option without its first value, if it has values at all. -/
def openUse (s : ArgumentsSoFar) (form : OptionForm) : ArgumentsSoFar :=
  if form.arity = 0 then s.addUse form.name [] else { s with pending := some (form, []) }

/-- An option whose value stands in the same argument.  That is all the values
it gets. -/
def attachedUse? (s : ArgumentsSoFar) (form : OptionForm) (value : String) :
    Option ArgumentsSoFar :=
  if form.arity = 1 then some (s.addUse form.name [value]) else none

/-- Another value for an option that lacks some. -/
def addValue (s : ArgumentsSoFar) (form : OptionForm) (values : List String) (value : String) :
    ArgumentsSoFar :=
  let values := values ++ [value]
  if values.length < form.arity then { s with pending := some (form, values) }
  else s.addUse form.name values

/-- An argument behind two dashes. -/
def readLong? (forms : List OptionForm) (s : ArgumentsSoFar) (text : List Char) :
    Option ArgumentsSoFar := do
  let name := String.ofList (text.takeWhile (· ≠ '='))
  let form ← forms.find? (·.name = name)
  match text.dropWhile (· ≠ '=') with
  | [] => pure (s.openUse form)
  | _ :: value => s.attachedUse? form (String.ofList value)

/-- The letters behind one dash. -/
def readLetters? (forms : List OptionForm) (s : ArgumentsSoFar) :
    List Char → Option ArgumentsSoFar
  | [] => some s
  | c :: cs => do
      let form ← forms.find? (·.letter = some c)
      if form.arity = 0 then readLetters? forms (s.addUse form.name []) cs
      else
        match cs with
        | [] => pure (s.openUse form)
        | '=' :: value => s.attachedUse? form (String.ofList value)
        | value => s.attachedUse? form (String.ofList value)

/-- One more argument, unless it has no place. -/
def step (forms : List OptionForm) (s : ArgumentsSoFar) (argument : String) :
    Option ArgumentsSoFar :=
  if s.ended then some (s.addOperand argument)
  else
    match argument.toList, s.pending with
    | ['-'], none => some (s.addOperand argument)
    | ['-'], some (form, values) => some (s.addValue form values argument)
    | '-' :: _, some _ => none
    | ['-', '-'], none => some { s with ended := true }
    | '-' :: '-' :: text, none => readLong? forms s text
    | '-' :: letters, none => readLetters? forms s letters
    | _, none => some (s.addOperand argument)
    | _, some (form, values) => some (s.addValue form values argument)

end ArgumentsSoFar

/-- The operands among arguments, and the uses of options in order. -/
def separate (forms : List OptionForm) (arguments : List String) :
    Option (List String × List OptionUse) := do
  let s ← arguments.foldlM (ArgumentsSoFar.step forms) {}
  if s.pending.isSome then none else pure (s.operands, s.uses)

/-! ## Values of options -/

/-- Whether an option without values is used, at most once. -/
def flag? (uses : List OptionUse) (name : String) : Option Bool :=
  match uses.filter (·.name = name) with
  | [] => some false
  | [_] => some true
  | _ => none

/-- The value of an option that is used at most once. -/
def value? (uses : List OptionUse) (name : String) : Option (Option String) :=
  match uses.filter (·.name = name) with
  | [] => some none
  | [⟨_, [value]⟩] => some (some value)
  | _ => none

/-- The values of all uses of an option. -/
def values (uses : List OptionUse) (name : String) : Option (List String) :=
  match uses.filter (·.name = name) with
  | [] => none
  | used => some (used.flatMap (·.values))

end ProtocolFakes.CommandLine
