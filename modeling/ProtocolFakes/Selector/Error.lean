import ProtocolFakes.SourceRange

/-!
# Why a selector is refused

A declaration may fail to read, and an edit may fail to apply.  Both failures
are causes with the facts that belong to them; their wording is in `message`.
-/

namespace ProtocolFakes

set_option autoImplicit false

/-! ## Reading a declaration -/

/-- Why tokens or fields make no selector. -/
inductive ParseError where
  | emptyInput
  | missingReturnType
  | missingSelector (range : SourceRange)
  | missingParameterType (keyword : String) (range : SourceRange)
  | missingParameterName (keyword : String) (range : SourceRange)
  | unbalancedParens (range : SourceRange)
  | unexpectedToken (text : String) (range : SourceRange)
  | noComponents
  | parameterCountMismatch (components parameters : Nat)
  | bareComponentInKeywordSelector (keyword : String)
  | rangeOverflow (location length : Nat)
  | componentOutsideRange (keyword : String) (range : SourceRange)
  deriving DecidableEq

/-- What a reading failure says. -/
def ParseError.message : ParseError → String
  | emptyInput => "nothing to parse: the token sequence is empty"
  | missingReturnType => "no return type found before the selector"
  | missingSelector range => "no selector name found at " ++ toString range
  | missingParameterType keyword range =>
      "expected a parenthesized parameter type after `" ++ keyword ++ ":` at " ++ toString range
  | missingParameterName keyword range =>
      "expected a parameter name after the type of `" ++ keyword ++ ":` at " ++ toString range
  | unbalancedParens range => "unbalanced parentheses starting at " ++ toString range
  | unexpectedToken text range => "unexpected token `" ++ text ++ "` at " ++ toString range
  | noComponents => "a selector needs at least one component"
  | parameterCountMismatch components parameters =>
      toString components ++ " argument-taking components but "
        ++ toString parameters ++ " parameters"
  | bareComponentInKeywordSelector keyword =>
      "component `" ++ keyword ++ "` must end with a colon in a multi-part selector"
  | rangeOverflow location length =>
      "range starting at " ++ toString location ++ " with length " ++ toString length
        ++ " overflows"
  | componentOutsideRange keyword range =>
      "component `" ++ keyword ++ "` at " ++ toString range ++ " lies outside the selector range"

/-! ## Editing -/

/-- Why an edit does not apply. -/
inductive EditError where
  | indexOutOfBounds (index count : Nat)
  | lastComponent
  | invalidKeyword (keyword : String)
  deriving DecidableEq

/-- What an editing failure says. -/
def EditError.message : EditError → String
  | indexOutOfBounds index count =>
      "component index " ++ toString index ++ " is out of bounds for a selector with "
        ++ toString count ++ " components"
  | lastComponent => "cannot delete the only component of a selector"
  | invalidKeyword keyword => "`" ++ keyword ++ "` is not a valid keyword for this component"

end ProtocolFakes
