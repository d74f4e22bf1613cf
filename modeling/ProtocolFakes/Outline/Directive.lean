import ProtocolFakes.Outline.Width

/-!
# Preprocessor directives

A directive begins with a hash sign and a name.  How far it reaches depends on
the name:

* a conditional on a name (`#ifdef`), a second branch and an end reach no
  further than their own name, so code may follow on the same line;
* a condition (`#if`) and an inclusion reach to the end of the line, which is
  looked for outside of comments and literals;
* a definition and every other directive have an argument, which is free text.

An argument takes a slash together with the character behind it, be that the end
of the line, unless the two open a block comment.  Where a blank stands between
the name and the end of the line, the argument is looked for on the lines below.
-/

namespace ProtocolFakes

set_option autoImplicit false

/-! ## Names -/

/-- A blank within a line that may stand between a hash sign and the name. -/
def isDirectiveBlank (c : Char) : Bool := c == ' ' || c == '\t'

/-- The name of a directive, read behind the hash sign. -/
def directiveName (cs : List Char) : List Char :=
  (cs.dropWhile isDirectiveBlank).takeWhile fun c => c.isAlphanum || c == '_'

/-- What follows the name of a directive. -/
inductive DirectiveKind where
  /-- A name and its replacement. -/
  | definition
  /-- An expression. -/
  | condition
  /-- The path of a file. -/
  | inclusion
  /-- Code, with as many words in front of it as given. -/
  | branch (operands : Nat)
  /-- Free text. -/
  | remark
  deriving DecidableEq, Repr

/-- The kind of a directive. -/
def DirectiveKind.ofName (name : List Char) : DirectiveKind :=
  match String.ofList name with
  | "define" => .definition
  | "if" | "elif" => .condition
  | "include" | "import" => .inclusion
  | "ifdef" | "ifndef" | "elifdef" | "elifndef" => .branch 1
  | "else" | "endif" => .branch 0
  | _ => .remark

/-! ## Widths -/

/-- The rest of a line, outside of comments and literals.  `angles` says whether
an angle bracket opens a literal. -/
def lineRestWidth (angles : Bool) : List Char → Nat
  | [] => 0
  | c :: cs =>
      if c = '\n' then 0
      else
        let more :=
          if c = '"' ∨ c = '\'' then quotedWidth c cs
          else if angles ∧ c = '<' then quotedWidth '>' cs
          else separatorWidth (c :: cs) - 1
        1 + more + lineRestWidth angles (cs.drop more)
termination_by cs => cs.length
decreasing_by
  simp only [List.length_drop, List.length_cons]
  omega

/-- Free text behind its first character, up to the end of a line that is not
joined to the next, or to a block comment. -/
def freeTextWidth : List Char → Nat
  | [] => 0
  | '\n' :: _ => 0
  | '\\' :: '\n' :: cs => 2 + freeTextWidth cs
  | '\\' :: '\r' :: '\n' :: cs => 3 + freeTextWidth cs
  | ['/'] => 0
  | '/' :: c :: cs => if c = '*' then 0 else 2 + freeTextWidth cs
  | _ :: cs => 1 + freeTextWidth cs

/-- Whether a text begins with the end of a line. -/
def beginsWithLineEnd : List Char → Bool
  | '\n' :: _ => true
  | '\r' :: '\n' :: _ => true
  | _ => false

/-- The argument of a directive and what separates it from the name.  The
directive has none if the line ends right behind a word or a comment, as
`touching` says of the head of the text. -/
def argumentWidth (touching : Bool) : List Char → Nat
  | [] => 0
  | c :: cs =>
      if touching && beginsWithLineEnd (c :: cs) then 0
      else
        match separatorWidth (c :: cs) with
        | 0 =>
            let text := freeTextWidth cs
            1 + text + lineRestWidth false (cs.drop text)
        | more + 1 => 1 + more + argumentWidth (c = '/') (cs.drop more)
termination_by cs => cs.length
decreasing_by
  simp only [List.length_drop, List.length_cons]
  omega

/-- The name that a definition gives a meaning to, and its parameters. -/
def definedNameWidth (cs : List Char) : Nat :=
  let separators := separatorsWidth cs
  let name := wordWidth false (cs.drop separators)
  match cs.drop (separators + name) with
  | '(' :: cs => separators + name + 2 + (cs.takeWhile (· ≠ ')')).length
  | _ => separators + name

/-- A directive behind its hash sign. -/
def directiveWidth (cs : List Char) : Nat :=
  let name := (cs.takeWhile isDirectiveBlank).length + (directiveName cs).length
  let rest := cs.drop name
  let gap := separatorsWidth rest
  match DirectiveKind.ofName (directiveName cs) with
  | .definition =>
      let defined := definedNameWidth rest
      name + defined + argumentWidth true (rest.drop defined)
  | .condition => name + gap + lineRestWidth false (rest.drop gap)
  | .inclusion => name + gap + lineRestWidth true (rest.drop gap)
  | .branch _ => name
  | .remark => name + argumentWidth true rest

end ProtocolFakes
