import ProtocolFakes.FreshName
import ProtocolFakes.Selector
import ProtocolFakes.Text.Uppercase

/-!
# Names of recording properties

The recording properties of a method share a stem, which is its keywords in
camel case: `setName:age:` has the stem `setNameAge`.  A stem that is taken gets
the first free number from 2 up.
-/

namespace ProtocolFakes

set_option autoImplicit false

/-- A word with its first character in uppercase. -/
def capitalized (word : String) : String := String.ofList (Text.capitalize word.toList)

/-! ## Stems -/

/-- The keywords of a selector in camel case. -/
def Selector.stem (s : Selector) : String :=
  match (s.components.map (·.keyword)).filter (!·.isEmpty) with
  | [] => "method"
  | first :: others => first ++ String.join (others.map capitalized)

/-- The stem itself if it is free, and else the first free stem numbered from 2. -/
def freeStem (used : List String) (stem : String) : String :=
  if used.contains stem then firstFree used stem 2 else stem

/-- The stems given to selectors in turn, when `used` are taken already. -/
def allocateStems (used : List String) : List Selector → List String
  | [] => []
  | s :: ss =>
      let stem := freeStem used s.stem
      stem :: allocateStems (stem :: used) ss

/-! ## Properties -/

/-- The property that counts the calls of a method. -/
def callCountName (stem : String) : String := stem ++ "CallCount"

/-- The property that holds the last value of a parameter. -/
def argumentName (stem parameter : String) : String := stem ++ "Arg" ++ capitalized parameter

/-- The property that holds the value to return. -/
def returnsName (stem : String) : String := stem ++ "Returns"

end ProtocolFakes
