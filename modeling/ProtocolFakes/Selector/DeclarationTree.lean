import ProtocolFakes.Selector
import ProtocolFakes.Token

/-!
# The shape of a method declaration

A method declaration is a marker, a return type in parentheses and a signature:

* one keyword alone, or
* arguments, each an optional keyword, a colon, a type in parentheses and a name.

A trailer follows: attribute macros, a variadic mark and the end, which is a
semicolon, a body or nothing.  The trailer is no part of the tree, so replacing
the tree's range leaves it in place.

The tree keeps every token, and `DeclarationTree.tokens` writes them out in
order.  What a selector says is read off the tree here; how a tree is found in a
token list is the business of `Selector.Declaration`.
-/

namespace ProtocolFakes

set_option autoImplicit false

/-! ## Arguments -/

/-- A keyword with its colon, type and name.  The keyword may be missing. -/
structure ArgumentTree where
  keyword : Option Token
  colon : Token
  typeOpen : Token
  type : List Token
  typeClose : Token
  name : Token

namespace ArgumentTree

/-- The tokens of an argument in order. -/
def tokens (a : ArgumentTree) : List Token :=
  a.keyword.toList ++ a.colon :: a.typeOpen :: a.type ++ [a.typeClose, a.name]

/-- The word before the colon; empty if there is none. -/
def word (a : ArgumentTree) : String := (a.keyword.map (·.text)).getD ""

/-- The token that an argument begins with. -/
def first (a : ArgumentTree) : Token := a.keyword.getD a.colon

/-- The component that an argument declares, from its first token to its name. -/
def component (a : ArgumentTree) : SelectorComponent :=
  ⟨a.word, true, .ofBounds a.first.range.location a.name.range.stop⟩

/-- The parameter that an argument declares, from its parenthesis to its name. -/
def parameter (a : ArgumentTree) : Parameter :=
  ⟨Token.spell a.type, a.name.text, .ofBounds a.typeOpen.range.location a.name.range.stop⟩

end ArgumentTree

/-! ## Declarations -/

/-- What stands behind the return type. -/
inductive SignatureTree where
  /-- A keyword without a colon. -/
  | unary (keyword : Token)
  /-- Keywords with colons. -/
  | keywords (arguments : List ArgumentTree)

namespace SignatureTree

/-- The tokens of a signature in order. -/
def tokens : SignatureTree → List Token
  | unary keyword => [keyword]
  | keywords arguments => arguments.flatMap ArgumentTree.tokens

/-- The components that a signature declares. -/
def components : SignatureTree → List SelectorComponent
  | unary keyword => [⟨keyword.text, false, keyword.range⟩]
  | keywords arguments => arguments.map ArgumentTree.component

/-- The parameters that a signature declares. -/
def parameters : SignatureTree → List Parameter
  | unary _ => []
  | keywords arguments => arguments.map ArgumentTree.parameter

end SignatureTree

/-- A method declaration without its trailer. -/
structure DeclarationTree where
  marker : Option Token
  returnOpen : Token
  returnType : List Token
  returnClose : Token
  signature : SignatureTree

namespace DeclarationTree

/-- The tokens of a declaration in order. -/
def tokens (d : DeclarationTree) : List Token :=
  d.marker.toList ++ d.returnOpen :: d.returnType ++ d.returnClose :: d.signature.tokens

/-- The kind of method declared; without a marker, an instance method. -/
def kind (d : DeclarationTree) : MethodKind :=
  (d.marker.bind fun t => MethodKind.ofMarker? t.text).getD .instanceMethod

/-- The range from the first token to the last. -/
def range (d : DeclarationTree) : SourceRange :=
  (SourceRange.envelopeOf? (d.tokens.map (·.range))).getD default

/-- The selector that a declaration declares. -/
def selector (d : DeclarationTree) : Except ParseError Selector :=
  Selector.ofFields d.signature.components d.signature.parameters (Token.spell d.returnType) d.range

end DeclarationTree

end ProtocolFakes
