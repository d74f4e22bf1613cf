/-!
# Fresh numbered names

A numbered name is a base with a number behind it.  `firstFree` answers the first
of `base n`, `base (n + 1)`, … that is not in use.  Different numbers give
different names, so among one more names than are in use one is free; that is
the bound of the search.
-/

namespace ProtocolFakes

set_option autoImplicit false

/-- A base with a number behind it. -/
def numberedName (base : String) (n : Nat) : String := base ++ toString n

/-- The first numbered name from `n` up that is not in use, looking at no more
than `bound` names that are. -/
def firstFreeWithin (used : List String) (base : String) : Nat → Nat → String
  | 0, n => numberedName base n
  | bound + 1, n =>
      if used.contains (numberedName base n) then firstFreeWithin used base bound (n + 1)
      else numberedName base n

/-- The first numbered name from `n` up that is not in use. -/
def firstFree (used : List String) (base : String) (n : Nat) : String :=
  firstFreeWithin used base used.length n

end ProtocolFakes
