import ProtocolFakes.Outline.Context

/-!
# Finding the outline of a file

A file is read mark by mark.  In code only the keywords that open a block count,
with the attributes in front of them.  A block has a header, then members up to
`@end`:

* a method begins with a plus or minus sign where a member may begin; its
  declaration ends behind its last semicolon, its definition behind the brace
  that closes its body and a semicolon right behind that;
* words behind a declaration that only a semicolon ends belong to it;
* `@optional` and `@required` stand alone;
* any other member ends with a semicolon, with the brace that closes a body, or
  where a method begins, unless it is in an expression.

What stands under `#ifdef` or `#ifndef` within a block is code and declares no
methods of the block; what stands under `#if` are members.  A protocol without
members of its own, `@protocol A, B;`, opens no block.

A mark first ends the contexts that cannot hold it (`settle`), then it is read in
the innermost one that remains (`read`).  Every text has an outline, well formed
or not.
-/

namespace ProtocolFakes

set_option autoImplicit false

/-! ## Marks that end contexts -/

/-- Words with which a declaration may begin, so that they belong to no
declaration in front of them. -/
def declarationWords : List String :=
  ["typedef", "extern", "static", "auto", "register", "inline", "__inline", "__inline__",
   "__forceinline", "__thread", "thread_local", "_Thread_local", "const", "constexpr",
   "volatile", "restrict", "__restrict__", "__extension__", "_Atomic", "_Noreturn", "noreturn",
   "_Alignas", "alignas", "struct", "union", "enum", "signed", "unsigned", "long", "short",
   "void", "char", "int", "float", "double", "bool", "size_t", "ssize_t", "ptrdiff_t",
   "intptr_t", "uintptr_t", "max_align_t", "int8_t", "int16_t", "int32_t", "int64_t", "uint8_t",
   "uint16_t", "uint32_t", "uint64_t", "typeof", "__typeof", "__typeof__", "__attribute__",
   "__attribute", "__declspec", "id", "Class", "SEL", "IMP", "BOOL", "nullable", "nonnull",
   "_Nullable", "_Nonnull", "_Null_unspecified", "__nullable", "__nonnull", "__kindof",
   "__strong", "__weak", "__unsafe_unretained", "__autoreleasing", "__block", "__unused",
   "CG_EXTERN", "CG_INLINE", "FOUNDATION_EXPORT", "FOUNDATION_EXTERN",
   "FOUNDATION_STATIC_INLINE", "IBOutlet", "IBInspectable", "IB_DESIGNABLE", "NS_INLINE",
   "OBJC_EXPORT", "OBJC_ROOT_CLASS", "UIKIT_EXTERN"]

/-- Whether a mark is a word with which no declaration begins. -/
def Mark.isPlainWord (m : Mark) : Bool :=
  match m.kind with
  | .word chars => !declarationWords.contains (String.ofList chars)
  | _ => false

namespace Reading

/-- Ends a method that a mark does not belong to. -/
def settleMethod (m : Mark) (r : Reading) : Reading :=
  match r.context with
  | .method bodies _ _ phase =>
      match phase with
      | .selector => if m.isKeyword "@end" then r.leave else r
      | .declared =>
          if m.isSign ';' then r
          else if bodies then
            if m.isMethodSign || m.isAtKeyword || m.isDirective then r.leave else r
          else if m.isPlainWord then r
          else r.leave
      | .trailing => if m.isSign ';' || m.isWord then r else r.leave.enter (.member false)
      | .defined => if m.isSign ';' then r else r.leave
  | _ => r

/-- Ends a member that a mark does not belong to. -/
def settleMember (m : Mark) (r : Reading) : Reading :=
  match r.context with
  | .member expression =>
      if m.isKeyword "@end" || (!expression && (m.isMethodSign || m.isDirective)) then r.leave
      else r
  | _ => r

/-- Ends the header of a block in front of the first member.  A protocol that is
only announced has no members, and neither has one that is named in an
expression. -/
def settleHeader (m : Mark) (r : Reading) : Reading :=
  match r.context with
  | .opening _ _ => if m.isWord then r else r.leave
  | .header kind start name 0 superclass =>
      if kind = .protocol ∧ (m.isSign ';' || m.isSign ',') then r.leave
      else if m.isSign '<' || m.isSign '(' || m.isSign '{' || m.isSign ':'
          || (superclass && m.isWord) then r
      else r.move (.members kind start name)
  | _ => r

/-- Ends the contexts that cannot hold a mark. -/
def settle (m : Mark) (r : Reading) : Reading :=
  ((r.settleMethod m).settleMember m).settleHeader m

/-! ## Groups -/

/-- Enters a group. -/
def enterGroup (r : Reading) : Reading := r.enter (.code .group (.fresh 0))

/-- Leaves the group that a mark closes.  A closing brace also ends a statement,
a member that is no expression, and the body of a method. -/
def leaveGroup (m : Mark) (r : Reading) : Reading :=
  let around := r.leave
  if m.isSign '}' then
    match around.context with
    | .code kind _ => around.move (.code kind (.fresh 0))
    | .member false => around.leave
    | .method bodies start _ _ => around.move (.method bodies start m.span.stop .defined)
    | _ => around
  else around

end Reading

/-! ## Code -/

/-- How many words behind a directive are its own. -/
def directiveOperands (name : List Char) : Nat :=
  match DirectiveKind.ofName name with
  | .branch operands => operands
  | _ => 0

/-- Whether a directive opens a conditional. -/
def opensConditional (name : List Char) : Bool :=
  ["if", "ifdef", "ifndef"].contains (String.ofList name)

/-- Whether a directive opens a conditional on a name. -/
def opensNameConditional (name : List Char) : Bool :=
  ["ifdef", "ifndef"].contains (String.ofList name)

namespace Lead

/-- What precedes the mark behind `m`. -/
def after (m : Mark) (lead : Lead) : Lead :=
  if m.isSign ';' || m.isKeyword "@end" then .fresh 0
  else if m.isKeyword "@compatibility_alias" then .fresh 2
  else
    match m.kind, lead with
    | .directive name, _ => .fresh (directiveOperands name)
    | _, .fresh 0 => .begun m.span.start
    | _, .fresh (operands + 1) => .fresh operands
    | _, .begun start => .begun start

/-- Where a block begins whose keyword is `m`, with its attributes. -/
def blockStart (m : Mark) : Lead → Nat
  | .fresh _ => m.span.start
  | .begun start => start

end Lead

namespace Reading

/-- Reads a directive in the branches of a conditional among members. -/
def readBranchDirective (depth : Nat) (name : List Char) (r : Reading) : Reading :=
  let next (depth : Nat) : Context := .code (.branches depth) (.fresh (directiveOperands name))
  if opensConditional name then r.move (next (depth + 1))
  else if name = "endif".toList then if depth ≤ 1 then r.leave else r.move (next (depth - 1))
  else r.move (next depth)

/-- Reads a mark in code. -/
def readCode (kind : CodeKind) (lead : Lead) (m : Mark) (r : Reading) : Reading :=
  match m.blockKind?, kind, m.kind with
  | some block, _, _ => (r.move (.code kind (.fresh 0))).enter (.opening block (lead.blockStart m))
  | none, .branches depth, .directive name => r.readBranchDirective depth name
  | none, _, _ =>
      if m.opensGroup then (r.move (.code kind (lead.after m))).enterGroup
      else if m.closesGroup && kind = .group then r.leaveGroup m
      else r.move (.code kind (lead.after m))

/-! ## Blocks -/

/-- Reads a mark in the header of a block. -/
def readHeader (kind : BlockKind) (start : Nat) (name : String) (angles : Nat) (m : Mark)
    (r : Reading) : Reading :=
  let next (angles : Nat) (superclass : Bool) : Context :=
    .header kind start name angles superclass
  if m.opensGroup then (r.move (next angles false)).enterGroup
  else if m.isSign '<' then r.move (next (angles + 1) false)
  else if m.isSign '>' then r.move (next (angles - 1) false)
  else r.move (next angles (angles = 0 && m.isSign ':'))

/-- Leaves a block whose `@end` is `m`. -/
def leaveBlock (kind : BlockKind) (start : Nat) (name : String) (m : Mark) (r : Reading) :
    Reading :=
  match kind with
  | .protocol => r.leaveWith (.ofProtocol name ⟨start, m.span.stop⟩ r.frame.found)
  | _ => r.leave

/-- Reads a mark in a member that is no method. -/
def readMember (expression : Bool) (m : Mark) (r : Reading) : Reading :=
  if m.opensGroup then r.enterGroup
  else if m.isSign ';' then r.leave
  else
    match m.blockKind? with
    | some block => r.enter (.opening block m.span.start)
    | none => r.move (.member (expression || m.isSign '='))

/-- Reads a mark where a member may begin. -/
def readMembers (kind : BlockKind) (start : Nat) (name : String) (m : Mark) (r : Reading) :
    Reading :=
  if m.isKeyword "@end" then r.leaveBlock kind start name m
  else if m.isMethodSign then
    r.enter (.method (kind = .implementation) m.span.start m.span.stop .selector)
  else if m.isKeyword "@optional" || m.isKeyword "@required" || m.isSign ';' then r
  else
    match m.kind with
    | .directive directive =>
        if opensNameConditional directive then
          r.enter (.code (.branches 1) (.fresh (directiveOperands directive)))
        else r
    | _ => (r.enter (.member false)).readMember false m

/-- Reads a mark in a method. -/
def readMethod (bodies : Bool) (start stop : Nat) (phase : MethodPhase) (m : Mark) (r : Reading) :
    Reading :=
  if m.opensGroup then r.enterGroup
  else if m.isSign ';' then
    match phase with
    | .defined => (r.move (.method bodies start m.span.stop .defined)).leave
    | _ => r.move (.method bodies start m.span.stop .declared)
  else
    match phase with
    | .declared => r.move (.method bodies start stop (if bodies then .declared else .trailing))
    | _ => r

/-! ## Files -/

/-- Reads a mark in the innermost context. -/
def read (m : Mark) (r : Reading) : Reading :=
  match r.context with
  | .code kind lead => r.readCode kind lead m
  | .opening kind start =>
      match m.kind with
      | .word name => r.move (.header kind start (String.ofList name) 0 false)
      | _ => r
  | .header kind start name angles _ => r.readHeader kind start name angles m
  | .members kind start name => r.readMembers kind start name m
  | .method bodies start stop phase => r.readMethod bodies start stop phase m
  | .member expression => r.readMember expression m

/-- Reads a mark. -/
def step (r : Reading) (m : Mark) : Reading := (r.settle m).read m

end Reading

/-- The outline of a text. -/
def Outline.ofSource (source : String) : Outline :=
  ((marks source.toList).foldl Reading.step .start).outline

end ProtocolFakes
