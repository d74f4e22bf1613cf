import ProtocolFakes.Failure
import ProtocolFakes.Outline.Reader
import ProtocolFakes.Protocol
import ProtocolFakes.Selector.Declaration
import ProtocolFakes.Token.Lexer

/-!
# Reading protocols and methods from a text

The outline says where a text declares protocols and methods; the tokens of each
such span say what is declared.  The readers take the outline as an argument, so
what they do is independent of how spans are found; `Protocol.ofSource` and its
companions apply them to the outline of the text itself.

A protocol is read as a whole: the first method that does not read is the
failure of the protocol.  A list of methods, in contrast, leaves out those that
do not read.
-/

namespace ProtocolFakes

set_option autoImplicit false

/-! ## Spans -/

namespace Span

/-- Where a span stands in the document, if its text begins at offset `base`. -/
def range (s : Span) (base : Nat) : SourceRange := (SourceRange.ofBounds s.start s.stop).shift base

/-- The tokens of a span. -/
def tokens (s : Span) (text : String) (base : Nat) : List Token :=
  match Text.sliceBytes? s.start s.stop text.toList with
  | some cs => tokenize (String.ofList cs) (s.range base).location
  | none => []

/-- The method that a span declares. -/
def method (s : Span) (text : String) (base : Nat) : Except ParseError DeclaredMethod := do
  let (kind, selector) ← Selector.ofTokens (s.tokens text base)
  pure { kind, selector, range := s.range base }

end Span

/-! ## What tokens say about a protocol -/

/-- Whether methods behind a token are optional, if the token begins a section. -/
def Token.section? (t : Token) : Option Bool :=
  if t.isAtKeyword "@optional" then some true
  else if t.isAtKeyword "@required" then some false
  else none

/-- Whether a method at an offset is optional: the last section that begins
before it decides, and a method in no section is required. -/
def isOptionalAt (tokens : List Token) (offset : Nat) : Bool :=
  let sections := tokens.filterMap fun t =>
    t.section?.map fun optional => (t.range.location, optional)
  match (sections.takeWhile (·.1 < offset)).getLast? with
  | some (_, optional) => optional
  | none => false

/-- The protocols listed in angle brackets behind the name. -/
def conformancesOf (tokens : List Token) : List String :=
  match tokens.dropWhile (!·.isAtKeyword "@protocol") with
  | _ :: _ :: opening :: listed =>
      if opening.isPunct '<' then
        ((listed.takeWhile (!·.isPunct '>')).filter (·.isIdentifier)).map (·.text)
      else []
  | _ => []

/-! ## Readers -/

namespace Outline

/-- The protocol of a block, if all its methods read. -/
def readBlock (block : ProtocolBlock) (text : String) (base : Nat) :
    Except ParseError Protocol := do
  let tokens := block.span.tokens text base
  let declared ← block.methods.mapM (Span.method · text base)
  pure
    { name := block.name
      conformances := conformancesOf tokens
      methods := declared.map fun m =>
        { kind := m.kind, selector := m.selector, optional := isOptionalAt tokens m.range.location }
      range := block.span.range base }

/-- The first protocol of a text that begins at offset `base` of its document. -/
def readProtocol (o : Outline) (text : String) (base : Nat) : Except Failure Protocol :=
  match o.firstProtocol? with
  | none => .error .noProtocolFound
  | some block => (readBlock block text base).mapError .parse

/-- The methods of a text that read. -/
def readMethods (o : Outline) (text : String) : List DeclaredMethod :=
  o.methods.filterMap fun s => (s.method text 0).toOption

/-- The method whose span holds an offset. -/
def readMethodAt (o : Outline) (text : String) (offset : Nat) : Except Failure DeclaredMethod :=
  match o.methodAt? offset with
  | none => .error .noMethodFound
  | some s => (s.method text 0).mapError .parse

end Outline

/-- The first protocol of a text that begins at offset `base` of its document. -/
def Protocol.ofSource (text : String) (base : Nat) : Except Failure Protocol :=
  (Outline.ofSource text).readProtocol text base

/-- The methods of a text that read. -/
def DeclaredMethod.allOfSource (text : String) : List DeclaredMethod :=
  (Outline.ofSource text).readMethods text

/-- The method of a text whose span holds an offset. -/
def DeclaredMethod.ofSourceAt (text : String) (offset : Nat) : Except Failure DeclaredMethod :=
  (Outline.ofSource text).readMethodAt text offset

end ProtocolFakes
