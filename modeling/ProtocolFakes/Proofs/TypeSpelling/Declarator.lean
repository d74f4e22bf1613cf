import ProtocolFakes.Proofs.Text.Search
import ProtocolFakes.TypeSpelling

/-!
# Where a name goes in a declarator

A spelling in which no block begins is followed by the name (`declarator_of_no_block`).  Else it
is cut at the caret of its first block and at the nearest parenthesis behind that caret
(`CaretCut`), and the name stands in front of that parenthesis, behind the qualifiers of the
block if it has any (`exists_caretCut`).  Only a spelling that leaves the parenthesis of a block
open has no such cut.
-/

namespace ProtocolFakes

set_option autoImplicit false

/-- A spelling cut at the caret of its first block and at the parenthesis that closes it. -/
structure CaretCut (spelling before qualifiers after : List Char) : Prop where
  spelled : spelling = before ++ ("(^".toList ++ (qualifiers ++ ')' :: after))
  /-- No block begins further to the front. -/
  first : ¬ "(^".toList <:+: before ++ ['(']
  nearest : ')' ∉ qualifiers

/-- A name behind the qualifiers of a block. -/
def qualifiedName (qualifiers name : List Char) : List Char :=
  if (Text.trim qualifiers).isEmpty then name else Text.trim qualifiers ++ ' ' :: name

/-- **Without a block the name comes last**, behind a space unless a star is in front of it. -/
theorem declarator_of_no_block {spelling : List Char} (noBlock : ¬ "(^".toList <:+: spelling)
    (name : List Char) :
    declarator spelling name =
      if spelling.getLast? = some '*' then spelling ++ name else spelling ++ ' ' :: name := by
  rw [declarator, Text.splitAtFirst?_eq_none_iff.2 noBlock]

/-- **With a block the name stands in front of the parenthesis that closes its first one**, if
every parenthesis is closed further behind. -/
theorem exists_caretCut {spelling : List Char} (block : "(^".toList <:+: spelling)
    (closes : ∀ before after, spelling = before ++ '(' :: after → ')' ∈ after) :
    ∃ before qualifiers after, CaretCut spelling before qualifiers after ∧
      ∀ name, declarator spelling name =
        before ++ ("(^".toList ++ (qualifiedName qualifiers name ++ ')' :: after)) := by
  cases cut : Text.splitAtFirst? "(^".toList spelling with
  | none => exact absurd block (Text.splitAtFirst?_eq_none_iff.1 cut)
  | some parts =>
      obtain ⟨before, behind⟩ := parts
      obtain ⟨spelled, first⟩ := Text.splitAtFirst?_eq_some (by decide) cut
      have closed : ')' ∈ behind := by
        have further : ')' ∈ '^' :: behind := closes before ('^' :: behind) spelled
        exact (List.mem_cons.1 further).resolve_left (by decide)
      cases close : Text.splitAtFirst? [')'] behind with
      | none =>
          obtain ⟨front, back, rfl⟩ := List.append_of_mem closed
          refine absurd ?_ (Text.splitAtFirst?_eq_none_iff.1 close)
          exact ⟨front, back, by rw [List.append_assoc, List.singleton_append]⟩
      | some ends =>
          obtain ⟨qualifiers, after⟩ := ends
          obtain ⟨rfl, nearest⟩ := Text.splitAtFirst?_eq_some (by decide) close
          refine ⟨before, qualifiers, after, ⟨spelled, first, fun member => nearest ?_⟩, ?_⟩
          · obtain ⟨front, back, rfl⟩ := List.append_of_mem member
            exact ⟨front, back, by simp⟩
          · intro name
            simp only [declarator, cut, close, qualifiedName, List.append_assoc]

end ProtocolFakes
