import ProtocolFakes.Proofs.Token.Balance

/-!
# The grammar of method declarations

A method is written as a declaration and a trailer.

    declaration := ('-' | '+')? '(' type ')' signature
    signature   := word
                 | word ':' '(' type ')' word (word? ':' '(' type ')' word)*
    trailer     := (word ('(' group ')')? | ',' '...')* (';' | '{' token*)?

A word is an identifier token.  A type is a balanced token list that is not
empty; the group behind an attribute word may be empty.  The first argument of a
signature has a keyword, and the others may do without.

A derivation is a declaration tree and a trailer tree whose parts are what the
grammar says (`Derivation.Valid`); it derives the tokens that its trees write
out in order.  Nothing here looks at where the tokens stand.
-/

namespace ProtocolFakes

set_option autoImplicit false

/-! ## Declarations -/

/-- An argument whose parts are what the grammar says. -/
structure ArgumentTree.Valid (a : ArgumentTree) : Prop where
  keyword : ∀ t ∈ a.keyword, t.isIdentifier = true
  colon : a.colon.isPunct ':' = true
  typeOpen : a.typeOpen.isPunct '(' = true
  type_ne_nil : a.type ≠ []
  type_balanced : Balanced a.type
  typeClose : a.typeClose.isPunct ')' = true
  name : a.name.isIdentifier = true

/-- A signature is a word alone, or arguments the first of which has a keyword. -/
inductive SignatureTree.Valid : SignatureTree → Prop where
  | unary {keyword : Token} (word : keyword.isIdentifier = true) : Valid (.unary keyword)
  | keywords {first : ArgumentTree} {others : List ArgumentTree}
      (named : first.keyword.isSome = true) (firstValid : first.Valid)
      (othersValid : ∀ a ∈ others, a.Valid) : Valid (.keywords (first :: others))

theorem SignatureTree.Valid.argument {arguments : List ArgumentTree} {a : ArgumentTree}
    (valid : (SignatureTree.keywords arguments).Valid) (member : a ∈ arguments) : a.Valid := by
  cases valid with
  | keywords named firstValid othersValid =>
      rcases List.mem_cons.1 member with rfl | later
      · exact firstValid
      · exact othersValid a later

/-- A declaration whose parts are what the grammar says. -/
structure DeclarationTree.Valid (d : DeclarationTree) : Prop where
  marker : ∀ t ∈ d.marker, t.isPunct '-' = true ∨ t.isPunct '+' = true
  returnOpen : d.returnOpen.isPunct '(' = true
  returnType_ne_nil : d.returnType ≠ []
  returnType_balanced : Balanced d.returnType
  returnClose : d.returnClose.isPunct ')' = true
  signature : d.signature.Valid

/-! ## Trailers -/

/-- One item of a trailer. -/
inductive TrailerItem where
  /-- An attribute word. -/
  | word (name : Token)
  /-- An attribute word with a group in parentheses. -/
  | call (name opening : Token) (group : List Token) (closing : Token)
  /-- The mark of a method that takes any number of arguments. -/
  | variadic (comma mark : Token)

namespace TrailerItem

/-- The tokens of an item in order. -/
def tokens : TrailerItem → List Token
  | word name => [name]
  | call name opening group closing => name :: opening :: group ++ [closing]
  | variadic comma mark => [comma, mark]

/-- An item whose parts are what the grammar says. -/
inductive Valid : TrailerItem → Prop where
  | word {name : Token} (identifier : name.isIdentifier = true) : Valid (.word name)
  | call {name opening closing : Token} {group : List Token}
      (identifier : name.isIdentifier = true) (opens : opening.isPunct '(' = true)
      (balanced : Balanced group) (closes : closing.isPunct ')' = true) :
      Valid (.call name opening group closing)
  | variadic {comma mark : Token} (isComma : comma.isPunct ',' = true)
      (isMark : mark.kind = .ellipsis) : Valid (.variadic comma mark)

end TrailerItem

/-- How a trailer ends. -/
inductive TrailerEnd where
  | nothing
  /-- A final semicolon. -/
  | semicolon (mark : Token)
  /-- A body, of which nothing but its opening brace matters. -/
  | body (brace : Token) (rest : List Token)

namespace TrailerEnd

/-- The tokens of an end in order. -/
def tokens : TrailerEnd → List Token
  | nothing => []
  | semicolon mark => [mark]
  | body brace rest => brace :: rest

/-- An end whose parts are what the grammar says. -/
inductive Valid : TrailerEnd → Prop where
  | nothing : Valid .nothing
  | semicolon {mark : Token} (isSemicolon : mark.isPunct ';' = true) : Valid (.semicolon mark)
  | body {brace : Token} {rest : List Token} (isBrace : brace.isPunct '{' = true) :
      Valid (.body brace rest)

end TrailerEnd

/-- What follows a declaration. -/
structure TrailerTree where
  items : List TrailerItem
  ending : TrailerEnd

namespace TrailerTree

/-- The tokens of a trailer in order. -/
def tokens (t : TrailerTree) : List Token :=
  t.items.flatMap TrailerItem.tokens ++ t.ending.tokens

/-- A trailer whose parts are what the grammar says. -/
structure Valid (t : TrailerTree) : Prop where
  items : ∀ item ∈ t.items, item.Valid
  ending : t.ending.Valid

/-- A trailer with one more item in front. -/
def cons (item : TrailerItem) (t : TrailerTree) : TrailerTree := ⟨item :: t.items, t.ending⟩

@[simp] theorem tokens_cons (item : TrailerItem) (t : TrailerTree) :
    (cons item t).tokens = item.tokens ++ t.tokens := by
  simp [cons, tokens]

theorem valid_cons {item : TrailerItem} {t : TrailerTree} (itemValid : item.Valid)
    (valid : t.Valid) : (cons item t).Valid where
  items other member := by
    rcases List.mem_cons.1 member with rfl | later
    · exact itemValid
    · exact valid.items other later
  ending := valid.ending

end TrailerTree

/-! ## Derivations -/

/-- A method as the grammar writes it. -/
structure Derivation where
  declaration : DeclarationTree
  trailer : TrailerTree

namespace Derivation

/-- The tokens of a method in order. -/
def tokens (d : Derivation) : List Token := d.declaration.tokens ++ d.trailer.tokens

/-- A derivation whose parts are what the grammar says. -/
structure Valid (d : Derivation) : Prop where
  declaration : d.declaration.Valid
  trailer : d.trailer.Valid

/-- A derivation of a token list. -/
structure Derives (d : Derivation) (ts : List Token) : Prop where
  valid : d.Valid
  tokens_eq : d.tokens = ts

end Derivation

end ProtocolFakes
