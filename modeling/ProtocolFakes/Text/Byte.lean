/-!
# Byte offsets in a text

Offsets into a document count the bytes of its UTF-8 form.  A text itself is a
list of characters, so an offset is meaningful only where a character starts:
`splitAtByte?` cuts a text at such an offset and refuses every other one.

Main statements: a cut loses nothing (`append_of_splitAtByte?`) and is made at
exactly the offset asked for (`byteLength_of_splitAtByte?`), and every
concatenation can be cut at its seam (`splitAtByte?_append`).
-/

namespace ProtocolFakes.Text

set_option autoImplicit false

/-! ## Measuring -/

/-- How many bytes the UTF-8 form of a text takes. -/
def byteLength : List Char → Nat
  | [] => 0
  | c :: cs => c.utf8Size + byteLength cs

@[simp] theorem byteLength_nil : byteLength [] = 0 := rfl

@[simp] theorem byteLength_cons (c : Char) (cs : List Char) :
    byteLength (c :: cs) = c.utf8Size + byteLength cs := rfl

@[simp] theorem byteLength_append (as bs : List Char) :
    byteLength (as ++ bs) = byteLength as + byteLength bs := by
  induction as with
  | nil => simp
  | cons a as ih => simp [ih, Nat.add_assoc]

/-- Only the empty text takes no bytes. -/
theorem byteLength_eq_zero {cs : List Char} : byteLength cs = 0 ↔ cs = [] := by
  cases cs with
  | nil => simp
  | cons c cs =>
      have := c.utf8Size_pos
      simp
      omega

/-- Of two front parts of a text, the longer one begins with the other. -/
theorem exists_append_of_byteLength_le {as bs cs ds : List Char}
    (same : as ++ bs = cs ++ ds) (le : byteLength as ≤ byteLength cs) :
    ∃ mid, cs = as ++ mid ∧ bs = mid ++ ds := by
  rcases List.append_eq_append_iff.1 same with ⟨mid, longer, rest⟩ | ⟨mid, rfl, rfl⟩
  · exact ⟨mid, longer, rest⟩
  · rw [byteLength_append] at le
    obtain rfl := byteLength_eq_zero.1 (show byteLength mid = 0 by omega)
    exact ⟨[], by simp, by simp⟩

/-- Front parts of a text that are equally long are the same. -/
theorem eq_of_byteLength_eq {as bs cs ds : List Char} (same : as ++ bs = cs ++ ds)
    (equal : byteLength as = byteLength cs) : as = cs := by
  obtain ⟨mid, rfl, -⟩ := exists_append_of_byteLength_le same (Nat.le_of_eq equal)
  rw [byteLength_append] at equal
  obtain rfl := byteLength_eq_zero.1 (show byteLength mid = 0 by omega)
  exact (List.append_nil _).symm

/-! ## Cutting -/

/-- The text before and after byte offset `n`, unless `n` lies past the end or
inside a character. -/
def splitAtByte? : Nat → List Char → Option (List Char × List Char)
  | 0, cs => some ([], cs)
  | _ + 1, [] => none
  | n + 1, c :: cs =>
      if c.utf8Size ≤ n + 1 then
        (splitAtByte? (n + 1 - c.utf8Size) cs).map fun (before, after) => (c :: before, after)
      else none

/-- A cut loses nothing. -/
theorem append_of_splitAtByte? {n : Nat} {cs before after : List Char}
    (h : splitAtByte? n cs = some (before, after)) : before ++ after = cs := by
  fun_induction splitAtByte? n cs generalizing before after with
  | case1 cs => simp_all
  | case2 => simp at h
  | case3 n c cs hle ih =>
      obtain ⟨⟨b, a⟩, hb, heq⟩ := Option.map_eq_some_iff.1 h
      simp only [Prod.mk.injEq] at heq
      obtain ⟨rfl, rfl⟩ := heq
      simp [ih hb]
  | case4 => simp at h

/-- A cut is made at the offset asked for. -/
theorem byteLength_of_splitAtByte? {n : Nat} {cs before after : List Char}
    (h : splitAtByte? n cs = some (before, after)) : byteLength before = n := by
  fun_induction splitAtByte? n cs generalizing before after with
  | case1 cs => simp_all
  | case2 => simp at h
  | case3 n c cs hle ih =>
      obtain ⟨⟨b, a⟩, hb, heq⟩ := Option.map_eq_some_iff.1 h
      simp only [Prod.mk.injEq] at heq
      obtain ⟨rfl, rfl⟩ := heq
      simp only [byteLength_cons, ih hb]
      omega
  | case4 => simp at h

/-- Every concatenation can be cut at its seam. -/
theorem splitAtByte?_append (as bs : List Char) :
    splitAtByte? (byteLength as) (as ++ bs) = some (as, bs) := by
  induction as with
  | nil => simp [splitAtByte?]
  | cons a as ih =>
      have hpos := a.utf8Size_pos
      obtain ⟨k, hk⟩ : ∃ k, a.utf8Size + byteLength as = k + 1 :=
        ⟨a.utf8Size + byteLength as - 1, by omega⟩
      have hsub : k + 1 - a.utf8Size = byteLength as := by omega
      rw [byteLength_cons, hk, List.cons_append, splitAtByte?, if_pos (by omega), hsub, ih]
      rfl

/-- The text between two byte offsets, unless they are out of order, out of
bounds or inside a character. -/
def sliceBytes? (start stop : Nat) (cs : List Char) : Option (List Char) :=
  if start ≤ stop then do
    let (_, rest) ← splitAtByte? start cs
    let (mid, _) ← splitAtByte? (stop - start) rest
    pure mid
  else none

/-- What stands between two other parts of a text is the text between its ends. -/
theorem sliceBytes?_append (before mid after : List Char) :
    sliceBytes? (byteLength before) (byteLength before + byteLength mid)
      (before ++ (mid ++ after)) = some mid := by
  rw [sliceBytes?, if_pos (Nat.le_add_right ..), splitAtByte?_append, Nat.add_sub_cancel_left]
  simp [splitAtByte?_append]

end ProtocolFakes.Text
