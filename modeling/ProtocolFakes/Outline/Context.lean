import ProtocolFakes.Outline.Mark

/-!
# Contexts in a file

A file is read mark by mark, and what a mark means depends on its context: code,
the header of a block, its members, a method or another member.  Contexts nest.
A frame is a context with the outline of what has been read in it, and a reading
is the frames that are open, the innermost first.

Leaving a context adds what was found there to the context around it (`leave`).
-/

namespace ProtocolFakes

set_option autoImplicit false

/-! ## Contexts -/

/-- What a block declares. -/
inductive BlockKind where
  | protocol
  | interface
  | implementation
  deriving DecidableEq, Repr

/-- The kind of block that a mark opens. -/
def Mark.blockKind? (m : Mark) : Option BlockKind :=
  if m.isKeyword "@protocol" then some .protocol
  else if m.isKeyword "@interface" then some .interface
  else if m.isKeyword "@implementation" then some .implementation
  else none

/-- What holds a stretch of code. -/
inductive CodeKind where
  | file
  /-- Brackets of any kind. -/
  | group
  /-- Branches among the members of a block, with as many conditionals open as
  given. -/
  | branches (depth : Nat)
  deriving DecidableEq, Repr

/-- What precedes the next mark within its statement. -/
inductive Lead where
  /-- Nothing, as soon as the operands of a directive or keyword are read. -/
  | fresh (operands : Nat)
  /-- Something that begins at an offset. -/
  | begun (start : Nat)
  deriving DecidableEq, Repr

/-- How far a method has been read. -/
inductive MethodPhase where
  /-- Up to its body or its first semicolon. -/
  | selector
  /-- Behind a semicolon. -/
  | declared
  /-- In words behind a semicolon, which belong to the method if another
  semicolon ends them. -/
  | trailing
  /-- Behind its body. -/
  | defined
  deriving DecidableEq, Repr

/-- What a mark may be part of. -/
inductive Context where
  | code (kind : CodeKind) (lead : Lead)
  /-- Behind the keyword of a block. -/
  | opening (kind : BlockKind) (start : Nat)
  /-- Behind the name of a block, within as many angle brackets as given.
  `superclass` says whether the name of a superclass is due. -/
  | header (kind : BlockKind) (start : Nat) (name : String) (angles : Nat) (superclass : Bool)
  /-- Among the members of a block. -/
  | members (kind : BlockKind) (start : Nat) (name : String)
  /-- In a method, which reaches up to `stop` so far.  `bodies` says whether
  methods have bodies here. -/
  | method (bodies : Bool) (start stop : Nat) (phase : MethodPhase)
  /-- In a member that is no method.  `expression` says whether an expression
  has begun, in which a sign begins no method and a brace ends no member. -/
  | member (expression : Bool)
  deriving DecidableEq, Repr

/-! ## Frames -/

/-- A context and the outline of what has been read in it. -/
structure Frame where
  context : Context
  found : Outline
  deriving DecidableEq, Repr

/-- What a frame adds to the outline of the context around it. -/
def Frame.outline (f : Frame) : Outline :=
  match f.context with
  | .method _ start stop _ => .ofMethod ⟨start, stop⟩ f.found
  | _ => f.found

/-- The open frames, the innermost first. -/
structure Reading where
  frame : Frame
  outer : List Frame
  deriving DecidableEq, Repr

namespace Reading

/-- The innermost context. -/
def context (r : Reading) : Context := r.frame.context

/-- A file of which nothing has been read. -/
def start : Reading := ⟨⟨.code .file (.fresh 0), .empty⟩, []⟩

/-- Moves on to a context at the same depth. -/
def move (context : Context) (r : Reading) : Reading :=
  { r with frame := { r.frame with context } }

/-- Enters a context within the innermost one. -/
def enter (context : Context) (r : Reading) : Reading :=
  ⟨⟨context, .empty⟩, r.frame :: r.outer⟩

/-- Leaves the innermost context, which adds an outline to the context around it.
The file itself is never left. -/
def leaveWith (found : Outline) (r : Reading) : Reading :=
  match r.outer with
  | [] => r
  | f :: fs => ⟨{ f with found := f.found ++ found }, fs⟩

/-- Leaves the innermost context. -/
def leave (r : Reading) : Reading := r.leaveWith r.frame.outline

/-- The outline of nested frames, given that of what stands within them. -/
def outlineWithin (inner : Outline) : List Frame → Outline
  | [] => inner
  | f :: fs => outlineWithin ({ f with found := f.found ++ inner } : Frame).outline fs

/-- The outline of what has been read, open contexts included. -/
def outline (r : Reading) : Outline := outlineWithin r.frame.outline r.outer

end Reading

end ProtocolFakes
