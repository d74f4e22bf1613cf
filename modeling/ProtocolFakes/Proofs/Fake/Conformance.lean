import ProtocolFakes.Fake
import ProtocolFakes.Proofs.Fake.Stem
import ProtocolFakes.Proofs.Selector.WriteBack

/-!
# A fake implements its protocol

The implementation of a fake is a frame around one block for each method of the
protocol.  A block is the declaration of the method and, between braces, the statements
of its plan.  The declaration is read back as what it was rendered from, since a body is
a trailer whatever it holds (`checkTrailer_body`), and a method that was read begins with
a word (`Selector.beginsWithWord_of_ofTokens`).

Main statement: `implementation_conforms`.
-/

namespace ProtocolFakes

set_option autoImplicit false

open Text (byteLength)

/-! ## A declaration with a body -/

/-- The pieces of a text that opens a body. -/
theorem piecesFrom_body (body : List Char) :
    piecesFrom false (' ' :: '{' :: body) =
      .space :: .token .punct ['{'] :: piecesFrom false body := by
  have cuts : Cuts false [.space, .token .punct ['{']] body :=
    ⟨readAt_space .., readAt_plain (by decide) .., trivial⟩
  exact cuts.piecesFrom_eq

/-- **A body is a trailer**, whatever stands in it. -/
theorem checkTrailer_body (start : Nat) (body : List Char) :
    checkTrailer (tokensFrom start (piecesFrom false (' ' :: '{' :: body))) = .ok () := by
  rw [piecesFrom_body]
  have brace (range : SourceRange) (rest : List Token) :
      (TrailerEnd.body ⟨.punct, String.ofList ['{'], range⟩ rest).Valid :=
    .body (by simp [Token.isPunct])
  exact (brace _ _).checkTrailer_tokens

/-- The first keyword of a signature is one of its words. -/
theorem SignatureTree.Valid.first_keyword {signature : SignatureTree} (valid : signature.Valid) :
    ∃ t ∈ signature.tokens, t.isIdentifier = true ∧
      ∃ c ∈ signature.components.head?, c.keyword = t.text := by
  cases valid with
  | @unary keyword word => exact ⟨keyword, List.mem_cons_self .., word, _, rfl, rfl⟩
  | @keywords first others named firstValid othersValid =>
      obtain ⟨keyword, found⟩ := Option.isSome_iff_exists.1 named
      refine ⟨keyword, ?_, firstValid.keyword keyword found, first.component, rfl, ?_⟩
      · simp [tokens, ArgumentTree.tokens, found]
      · simp [ArgumentTree.component, ArgumentTree.word, found]

namespace Selector

/-- A body can stand behind a declaration. -/
theorem surrounds_body (body : List Char) :
    Surrounds [] (piecesFrom false (' ' :: '{' :: body)) := by
  have text : spelling (piecesFrom false (' ' :: '{' :: body)) = ' ' :: '{' :: body :=
    flatten_piecesFrom ..
  refine ⟨by simp, fun _ _ _ => trivial, ?_, by rw [text]⟩
  rw [text]
  exact (breaksOff_cons (by decide) _).endsWord

/-- A selector that was read begins with a word. -/
theorem beginsWithWord_of_ofTokens {source : String} {base : Nat} {kind : MethodKind} {s : Selector}
    (read : ofTokens (tokenize source base) = .ok (kind, s)) : s.BeginsWithWord := by
  obtain ⟨d, ⟨⟨valid, -⟩, split⟩, -, selector⟩ := exists_derivation_of_ofTokens read
  obtain ⟨rfl, -⟩ := DeclarationTree.selector_eq_ok_iff.1 selector
  have declared : d.declaration.signature.tokens <:+: tokenize source base := by
    rw [← split]
    exact d.declaration.signature_infix.trans (List.infix_append' [] _ _)
  obtain ⟨t, member, identifier, c, first, keyword⟩ := valid.signature.first_keyword
  refine ⟨c, first, ?_⟩
  -- A word of a source is not empty.
  intro empty
  have word := isIdentifierWord_of_mem_tokenize (declared.subset member) identifier
  rw [← keyword, empty] at word
  cases word

/-- **A declaration with a body is read as what it was rendered from.** -/
theorem read_declaration_with_body {s : Selector} {kind : MethodKind} {body : String} {base : Nat}
    (legible : s.Legible) (begins : s.BeginsWithWord)
    (fits : base + byteLength (s.declaration kind ++ " \x7b" ++ body).toList ≤ maxOffset) :
    ∃ e, ofTokens (tokenize (s.declaration kind ++ " \x7b" ++ body) base) = .ok (kind, e) ∧
      SaysSame e s ∧ e.WellFormed := by
  have behind : spelling (piecesFrom false (' ' :: '{' :: body.toList)) =
      " \x7b".toList ++ body.toList := flatten_piecesFrom ..
  have text : (s.declaration kind ++ " \x7b" ++ body).toList = spelling [] ++
      (s.declaration kind).toList ++ spelling (piecesFrom false (' ' :: '{' :: body.toList)) := by
    rw [behind]
    simp
  rw [text] at fits
  obtain ⟨e, read, same, formed, -⟩ := read_rendered legible (surrounds_body body.toList) fits
    (fun start => checkTrailer_body start body.toList) begins
  refine ⟨e, ?_, same, formed⟩
  rw [tokenize, text]
  exact read

end Selector

/-! ## The blocks of an implementation -/

/-- The text of a method in the implementation, from its declaration to its closing
brace. -/
def MethodPlan.block (plan : MethodPlan) : String :=
  plan.method.declaration ++ " \x7b" ++
    ("\n" ++ Text.ofLines (plan.statements.map (·.line)) ++ "\x7d")

/-- The lines of a method make up its block, with an empty line in front. -/
theorem MethodPlan.ofLines_implementationLines (plan : MethodPlan) :
    Text.ofLines plan.implementationLines = "\n" ++ plan.block ++ "\n" := by
  have opening : " \x7b\n" = " \x7b" ++ "\n" := by decide
  simp [implementationLines, block, Text.ofLines, String.append_assoc]
  rw [opening, String.append_assoc]

/-- The implementation is its frame with the blocks of the methods in it. -/
theorem ofLines_implementationLines (p : Protocol) (className : String) :
    Text.ofLines (implementationLines p className) =
      Text.ofLines ["#import \"" ++ className ++ ".h\"", "", "@implementation " ++ className] ++
        String.join (p.plan.map fun plan => "\n" ++ plan.block ++ "\n") ++
        Text.ofLines ["", "@end"] := by
  have blocks : Text.ofLines (p.plan.flatMap (·.implementationLines)) =
      String.join (p.plan.map fun plan => "\n" ++ plan.block ++ "\n") := by
    induction p.plan with
    | nil => rfl
    | cons plan plans ih =>
        rw [List.map_cons, String.join_cons, ← ih, ← plan.ofLines_implementationLines]
        simp [Text.ofLines]
  rw [← blocks]
  simp [implementationLines, Text.ofLines, String.append_assoc]

/-- Whether a line of an implementation begins a method. -/
def isMethodLine (line : String) : Bool :=
  line.toList.head? == some '-' || line.toList.head? == some '+'

theorem isMethodLine_append {word : String} (ne : word ≠ "") (rest : String) :
    isMethodLine (word ++ rest) = isMethodLine word := by
  have first : (word ++ rest).toList.head? = word.toList.head? := by
    rw [String.toList_append, List.head?_append_of_ne_nil]
    exact fun empty => ne (String.toList_inj.1 empty)
  rw [isMethodLine, first, isMethodLine]

/-- No statement begins a method. -/
theorem Statement.isMethodLine_line (statement : Statement) :
    isMethodLine statement.line = false := by
  cases statement <;>
    simp only [line, String.append_assoc, ne_eq, String.reduceEq, not_false_eq_true,
      isMethodLine_append] <;>
    decide

/-- The declaration of a method begins it. -/
theorem ProtocolMethod.isMethodLine_declaration (m : ProtocolMethod) :
    isMethodLine (m.declaration ++ " \x7b") = true := by
  rw [isMethodLine, String.toList_append, declaration, Selector.toList_declaration]
  cases m.kind <;> rfl

/-- The line of a method that begins one is its declaration. -/
theorem MethodPlan.filter_isMethodLine_implementationLines (plan : MethodPlan) :
    plan.implementationLines.filter isMethodLine = [plan.method.declaration ++ " \x7b"] := by
  have body : (plan.statements.map (·.line)).filter isMethodLine = [] := by
    simp [List.filter_eq_nil_iff, Statement.isMethodLine_line]
  have blank : isMethodLine "" = false := by decide
  have closing : isMethodLine "\x7d" = false := by decide
  have opening := plan.method.isMethodLine_declaration
  simp [implementationLines, body, blank, closing, opening]

/-- **The lines of an implementation that begin a method are those of the methods of the
protocol**, in order. -/
theorem filter_isMethodLine_implementationLines (p : Protocol) (className : String) :
    (implementationLines p className).filter isMethodLine =
      p.methods.map (·.declaration ++ " \x7b") := by
  have opening : ["#import \"" ++ className ++ ".h\"", "", "@implementation " ++ className].filter
      isMethodLine = [] := by
    have imports : isMethodLine "#import \"" = false := by decide
    have blank : isMethodLine "" = false := by decide
    have begins : isMethodLine "@implementation " = false := by decide
    simp [String.append_assoc, isMethodLine_append, imports, blank, begins]
  have closing : ["", "@end"].filter isMethodLine = [] := by decide
  rw [implementationLines, List.filter_append, List.filter_append, opening, closing,
    List.filter_flatMap, ← p.map_method_plan]
  simp only [MethodPlan.filter_isMethodLine_implementationLines]
  rw [List.nil_append, List.append_nil, List.map_map, List.map_eq_flatMap]
  rfl

/-- A method that was read from a source in which the quoted texts are closed. -/
structure ProtocolMethod.ReadFrom (m : ProtocolMethod) (source : String) (base : Nat) : Prop where
  fits : base + byteLength source.toList ≤ maxOffset
  closed : ∀ t ∈ tokenize source base, t.isClosed = true
  read : Selector.ofTokens (tokenize source base) = .ok (m.kind, m.selector)

/-- The block of a method that was read is read as that method again. -/
theorem MethodPlan.read_block {plan : MethodPlan} {source : String} {base base' : Nat}
    (origin : plan.method.ReadFrom source base)
    (fits : base' + byteLength plan.block.toList ≤ maxOffset) :
    ∃ e, Selector.ofTokens (tokenize plan.block base') = .ok (plan.method.kind, e) ∧
      e.components.map (fun c => (c.keyword, c.takesArgument)) =
        plan.method.selector.components.map (fun c => (c.keyword, c.takesArgument)) ∧
      e.parameters.map (fun q => (q.typeName, q.name)) =
        plan.method.selector.parameters.map (fun q => (q.typeName, q.name)) ∧
      e.returnType = plan.method.selector.returnType := by
  have legible := Selector.legible_of_ofTokens origin.fits origin.closed origin.read
  obtain ⟨e, read, same, formed⟩ := Selector.read_declaration_with_body legible
    (Selector.beginsWithWord_of_ofTokens origin.read) fits
  exact ⟨e, read, same.components_eq, same.parameters_eq formed legible.wellFormed,
    same.returnType⟩

/-- **A fake implements exactly its protocol.** Take a protocol whose methods were read
from sources, of either kind and optional or not, and any configuration.  The
implementation is its frame with one block for each method in it, in order; the lines
that begin a method are the declarations of these methods and no others; and each block,
from its declaration to its closing brace, is read as a method of the same kind with the
same keywords, the same types and names of parameters and the same return type. -/
theorem implementation_conforms (config : FakeConfig) (p : Protocol) (protocolHeader : String)
    (origins : ∀ m ∈ p.methods, ∃ source base, m.ReadFrom source base) :
    let className := config.classPrefix ++ p.name
    (config.generate p protocolHeader).implementation =
      Text.ofLines ["#import \"" ++ className ++ ".h\"", "", "@implementation " ++ className] ++
        String.join (p.plan.map fun plan => "\n" ++ plan.block ++ "\n") ++
        Text.ofLines ["", "@end"] ∧
    (implementationLines p className).filter isMethodLine =
      p.methods.map (·.declaration ++ " \x7b") ∧
    List.Forall₂ (fun m block => ∀ base, base + byteLength block.toList ≤ maxOffset →
        ∃ e, Selector.ofTokens (tokenize block base) = .ok (m.kind, e) ∧
          e.components.map (fun c => (c.keyword, c.takesArgument)) =
            m.selector.components.map (fun c => (c.keyword, c.takesArgument)) ∧
          e.parameters.map (fun q => (q.typeName, q.name)) =
            m.selector.parameters.map (fun q => (q.typeName, q.name)) ∧
          e.returnType = m.selector.returnType)
      p.methods (p.plan.map (·.block)) := by
  intro className
  have generated : (config.generate p protocolHeader).implementation =
      Text.ofLines (implementationLines p className) := rfl
  refine ⟨generated.trans (ofLines_implementationLines p className),
    filter_isMethodLine_implementationLines p className, ?_⟩
  rw [← p.map_method_plan] at origins ⊢
  rw [List.forall₂_map_left_iff, List.forall₂_map_right_iff, List.forall₂_same]
  intro plan member base fits
  obtain ⟨source, base', origin⟩ := origins _ (List.mem_map_of_mem member)
  exact plan.read_block origin fits

/-- A protocol with a class method and an optional instance method. -/
def greeter : Protocol where
  name := "Greeter"
  conformances := ["NSObject"]
  methods :=
    [⟨.classMethod, ⟨[⟨"greeterNamed", true, .clamped 16 29⟩],
        [⟨"NSString *", "name", .clamped 29 16⟩], "instancetype", .clamped 0 45⟩, false⟩,
      ⟨.instanceMethod, ⟨[⟨"greet", false, .clamped 8 5⟩], [], "BOOL", .clamped 0 13⟩, true⟩]
  range := .clamped 0 0

theorem implementation_conforms_greeter :
    (∀ m ∈ greeter.methods, ∃ source base, m.ReadFrom source base) ∧
      (∃ e, Selector.ofTokens (tokenize
          "+ (instancetype)greeterNamed:(NSString *)name \x7b\n    return nil;\n\x7d" 0) =
            .ok (.classMethod, e) ∧
        e.parameters.map (fun q => (q.typeName, q.name)) = [("NSString *", "name")]) ∧
      ∃ e, Selector.ofTokens (tokenize
          "- (BOOL)greet \x7b\n    _greetCallCount += 1;\n    return _greetReturns;\n\x7d" 0) =
            .ok (.instanceMethod, e) ∧
        e.returnType = "BOOL" := by
  have origins : ∀ m ∈ greeter.methods, ∃ source base, m.ReadFrom source base := by
    refine List.forall_mem_cons.2 ⟨?_, List.forall_mem_singleton.2 ?_⟩
    · exact ⟨"+ (instancetype)greeterNamed:(NSString *)name;", 0, by decide, by decide +kernel,
        by decide +kernel⟩
    · exact ⟨"- (BOOL)greet;", 0, by decide, by decide +kernel,
        by decide +kernel⟩
  obtain ⟨-, -, conforms⟩ := implementation_conforms {} greeter "Greeter.h" origins
  have blocks : greeter.plan.map (·.block) =
      ["+ (instancetype)greeterNamed:(NSString *)name \x7b\n    return nil;\n\x7d",
        "- (BOOL)greet \x7b\n    _greetCallCount += 1;\n    return _greetReturns;\n\x7d"] := by
    decide +kernel
  rw [blocks] at conforms
  obtain _ | ⟨first, _ | ⟨second, _⟩⟩ := conforms
  obtain ⟨e, read, -, parameters, -⟩ := first 0 (by decide)
  obtain ⟨e', read', -, -, returnType⟩ := second 0 (by decide)
  exact ⟨origins, ⟨e, read, parameters⟩, e', read', returnType⟩

end ProtocolFakes
