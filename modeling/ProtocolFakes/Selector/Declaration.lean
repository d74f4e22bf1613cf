import ProtocolFakes.Selector.DeclarationTree

/-!
# Reading a method declaration

A declaration is read from left to right with two tokens of lookahead.  Each
reader answers what it read and the tokens that are left, or the first reason
why the tokens are no declaration.  A reason that points beyond the last token
points at the empty range just behind the last token read.

The group reader takes any tokens between two matching parentheses
(`append_of_splitGroup?`), and every reader leaves fewer tokens than it was
given, which is why the loops over arguments and over the trailer end.
-/

namespace ProtocolFakes

set_option autoImplicit false

/-! ## Groups in parentheses -/

/-- The tokens up to the parenthesis that closes the group around them, that
parenthesis, and what is left.  `depth` counts the groups opened inside. -/
def splitGroup? (depth : Nat) : List Token → Option (List Token × Token × List Token)
  | [] => none
  | t :: ts =>
      if t.isPunct '(' then
        (splitGroup? (depth + 1) ts).map fun (inner, close, rest) => (t :: inner, close, rest)
      else if t.isPunct ')' then
        match depth with
        | 0 => some ([], t, ts)
        | depth + 1 =>
            (splitGroup? depth ts).map fun (inner, close, rest) => (t :: inner, close, rest)
      else (splitGroup? depth ts).map fun (inner, close, rest) => (t :: inner, close, rest)

/-- A group, its closing parenthesis and what is left are the tokens read. -/
theorem append_of_splitGroup? {depth : Nat} {ts inner rest : List Token} {close : Token}
    (h : splitGroup? depth ts = some (inner, close, rest)) : inner ++ close :: rest = ts := by
  fun_induction splitGroup? depth ts generalizing inner with
  | case1 => simp at h
  | case3 => simp_all
  | case2 depth t ts _ ih | case4 t ts _ _ depth ih | case5 depth t ts _ _ ih =>
      obtain ⟨⟨i, c, r⟩, hi, heq⟩ := Option.map_eq_some_iff.1 h
      simp only [Prod.mk.injEq] at heq
      obtain ⟨rfl, rfl, rfl⟩ := heq
      simp [ih hi]

theorem length_lt_of_splitGroup? {depth : Nat} {ts inner rest : List Token} {close : Token}
    (h : splitGroup? depth ts = some (inner, close, rest)) : rest.length < ts.length := by
  have := congrArg List.length (append_of_splitGroup? h)
  simp at this
  omega

/-! ## Arguments -/

/-- The range to blame when the tokens end behind `last`. -/
def behind (last : Token) : SourceRange := .emptyAt last.range.stop

/-- The rest of an argument whose keyword and colon have been read. -/
def readArgument (keyword : Option Token) (colon : Token) :
    List Token → Except ParseError (ArgumentTree × List Token)
  | [] => .error (.missingParameterType ((keyword.map (·.text)).getD "") (behind colon))
  | typeOpen :: ts =>
      let word := (keyword.map (·.text)).getD ""
      if typeOpen.isPunct '(' then
        match splitGroup? 0 ts with
        | none => .error (.unbalancedParens typeOpen.range)
        | some ([], _, _) => .error (.missingParameterType word typeOpen.range)
        | some (_, typeClose, []) => .error (.missingParameterName word (behind typeClose))
        | some (type, typeClose, name :: rest) =>
            if name.isIdentifier then
              .ok (⟨keyword, colon, typeOpen, type, typeClose, name⟩, rest)
            else .error (.missingParameterName word name.range)
      else .error (.missingParameterType word typeOpen.range)

/-- An argument and what is left are the tokens read. -/
theorem append_of_readArgument {keyword : Option Token} {colon : Token} {ts rest : List Token}
    {a : ArgumentTree} (h : readArgument keyword colon ts = .ok (a, rest)) :
    a.tokens ++ rest = keyword.toList ++ colon :: ts := by
  unfold readArgument at h
  repeat' split at h
  all_goals try (simp at h; done)
  rename_i hgroup _
  obtain ⟨rfl, rfl⟩ := by simpa using h
  simp [ArgumentTree.tokens, ← append_of_splitGroup? hgroup]

theorem length_lt_of_readArgument {keyword : Option Token} {colon : Token} {ts rest : List Token}
    {a : ArgumentTree} (h : readArgument keyword colon ts = .ok (a, rest)) :
    rest.length < ts.length := by
  unfold readArgument at h
  repeat' split at h
  all_goals try (simp at h; done)
  rename_i hgroup _
  obtain ⟨rfl, rfl⟩ := by simpa using h
  have := length_lt_of_splitGroup? hgroup
  simp at this ⊢
  omega

/-- The beginning of a further argument, its keyword and its colon, and what is
left; nothing if no argument begins here. -/
def nextColon? : List Token → Option (Option Token × Token × List Token)
  | [] => none
  | [t] => if t.isPunct ':' then some (none, t, []) else none
  | t :: u :: ts =>
      if t.isIdentifier && u.isPunct ':' then some (some t, u, ts)
      else if t.isPunct ':' then some (none, t, u :: ts)
      else none

theorem append_of_nextColon? {ts rest : List Token} {keyword : Option Token} {colon : Token}
    (h : nextColon? ts = some (keyword, colon, rest)) : keyword.toList ++ colon :: rest = ts := by
  unfold nextColon? at h
  repeat' split at h
  all_goals simp at h
  all_goals obtain ⟨rfl, rfl, rfl⟩ := h
  all_goals simp

/-- The arguments that begin with a keyword and a colon already read. -/
def readArguments (keyword : Option Token) (colon : Token) (ts : List Token) :
    Except ParseError (List ArgumentTree × List Token) :=
  match _h : readArgument keyword colon ts with
  | .error e => .error e
  | .ok (a, rest) =>
      match _hnext : nextColon? rest with
      | none => .ok ([a], rest)
      | some (keyword, colon, rest) =>
          (readArguments keyword colon rest).map fun (as, rest) => (a :: as, rest)
termination_by ts.length
decreasing_by
  have h₁ := length_lt_of_readArgument _h
  have h₂ := congrArg List.length (append_of_nextColon? _hnext)
  simp at h₂
  omega

/-! ## The whole declaration -/

/-- The signature behind a return type that ends with the token `last`. -/
def readSignature (last : Token) : List Token → Except ParseError (SignatureTree × List Token)
  | [] => .error (.missingSelector (behind last))
  | first :: ts =>
      if first.isIdentifier then
        match ts with
        | [] => .ok (.unary first, [])
        | colon :: rest =>
            if colon.isPunct ':' then
              (readArguments (some first) colon rest).map fun (as, rest) => (.keywords as, rest)
            else .ok (.unary first, colon :: rest)
      else .error (.missingSelector first.range)

/-- The return type and the signature behind a marker. -/
def readReturnType (marker : Option Token) :
    List Token → Except ParseError (DeclarationTree × List Token)
  | [] => .error .missingReturnType
  | returnOpen :: ts =>
      if returnOpen.isPunct '(' then
        match splitGroup? 0 ts with
        | none => .error (.unbalancedParens returnOpen.range)
        | some ([], _, _) => .error .missingReturnType
        | some (returnType, returnClose, rest) =>
            (readSignature returnClose rest).map fun (signature, rest) =>
              (⟨marker, returnOpen, returnType, returnClose, signature⟩, rest)
      else .error .missingReturnType

/-- Whether a token marks a method as sent to an instance or to its class. -/
def Token.isMarker (t : Token) : Bool :=
  t.kind == .punct && (MethodKind.ofMarker? t.text).isSome

/-- The declaration that tokens begin with, and its trailer. -/
def readDeclaration : List Token → Except ParseError (DeclarationTree × List Token)
  | [] => .error .emptyInput
  | t :: ts => if t.isMarker then readReturnType (some t) ts else readReturnType none (t :: ts)

/-! ## The trailer -/

/-- Whether tokens make up the trailer of a declaration: attribute words, each
with or without a group in parentheses, and variadic marks, up to nothing, a
final semicolon or a body. -/
def checkTrailer : List Token → Except ParseError Unit
  | [] => .ok ()
  | t :: ts =>
      if t.isPunct ';' then
        match ts with
        | [] => .ok ()
        | extra :: _ => .error (.unexpectedToken extra.text extra.range)
      else if t.isPunct '{' then .ok ()
      else if t.isIdentifier then
        match ts with
        | [] => .ok ()
        | u :: rest =>
            if u.isPunct '(' then
              match _h : splitGroup? 0 rest with
              | none => .error (.unbalancedParens u.range)
              | some (_, _, rest) => checkTrailer rest
            else checkTrailer (u :: rest)
      else if t.isPunct ',' then
        match ts with
        | [] => .error (.unexpectedToken t.text t.range)
        | u :: rest =>
            if u.kind = .ellipsis then checkTrailer rest
            else .error (.unexpectedToken t.text t.range)
      else .error (.unexpectedToken t.text t.range)
termination_by ts => ts.length
decreasing_by
  · have := length_lt_of_splitGroup? _h
    simp
    omega
  all_goals
    simp only [List.length_cons]
    omega

namespace Selector

/-- The method that tokens declare: its kind and its selector. -/
def ofTokens (tokens : List Token) : Except ParseError (MethodKind × Selector) := do
  let (tree, trailer) ← readDeclaration tokens
  checkTrailer trailer
  let selector ← tree.selector
  pure (tree.kind, selector)

end Selector

end ProtocolFakes
