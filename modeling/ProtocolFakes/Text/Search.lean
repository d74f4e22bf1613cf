/-!
# Finding a pattern in a text

The first occurrence of a pattern cuts a text in two: what stands before it and
what follows it.
-/

namespace ProtocolFakes.Text

set_option autoImplicit false

/-- The rest of a text behind a given beginning, unless it begins otherwise. -/
def dropPrefix? (pattern cs : List Char) : Option (List Char) :=
  match pattern, cs with
  | [], cs => some cs
  | _ :: _, [] => none
  | p :: ps, c :: cs => if p = c then dropPrefix? ps cs else none

/-- What is dropped is the pattern. -/
theorem append_of_dropPrefix? {pattern cs rest : List Char}
    (h : dropPrefix? pattern cs = some rest) : pattern ++ rest = cs := by
  fun_induction dropPrefix? pattern cs with
  | case1 cs => simp_all
  | case2 => simp at h
  | case3 p ps cs ih => simp [ih h]
  | case4 => simp at h

/-- The text before and behind the first occurrence of a pattern. -/
def splitAtFirst? (pattern : List Char) : List Char → Option (List Char × List Char)
  | [] => if pattern.isEmpty then some ([], []) else none
  | c :: cs =>
      match dropPrefix? pattern (c :: cs) with
      | some after => some ([], after)
      | none => (splitAtFirst? pattern cs).map fun (before, after) => (c :: before, after)

theorem splitAtFirst?_cons (pattern : List Char) (c : Char) (cs : List Char) :
    splitAtFirst? pattern (c :: cs) =
      match dropPrefix? pattern (c :: cs) with
      | some after => some ([], after)
      | none => (splitAtFirst? pattern cs).map fun (before, after) => (c :: before, after) := rfl

/-- Whether a pattern occurs in a text. -/
def containsPattern (pattern cs : List Char) : Bool := (splitAtFirst? pattern cs).isSome

/-- The text behind all copies of a non-empty pattern at its beginning. -/
def dropRepeatedPrefix (pattern : List Char) (cs : List Char) : List Char :=
  match pattern with
  | [] => cs
  | p :: ps =>
      match _h : dropPrefix? (p :: ps) cs with
      | some rest => dropRepeatedPrefix (p :: ps) rest
      | none => cs
termination_by cs.length
decreasing_by
  have := congrArg List.length (append_of_dropPrefix? _h)
  simp at this
  omega

end ProtocolFakes.Text
