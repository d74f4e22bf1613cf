/-!
# Paths as they are written

A path is a text of names between slashes.  This module takes paths apart
without asking any file system: the directory part, the last name, the stem of a
file name, and the path of a name inside a directory.

Slashes may repeat, and a name that is a single dot stands for nothing, except
at the beginning of a path.  A name of two dots is kept, since only a file
system knows what it leads to.

Main statements: a path is its pieces with slashes between them (`join_split`),
and what is above a path is shorter (`length_lt_of_parent?`), so going up ends.
-/

namespace ProtocolFakes.FilePath

set_option autoImplicit false

/-! ## Pieces -/

/-- The pieces of a text between its slashes; there is at least one. -/
def split : List Char → List (List Char)
  | [] => [[]]
  | c :: cs =>
      if c = '/' then [] :: split cs
      else
        match split cs with
        | [] => [[c]]
        | piece :: pieces => (c :: piece) :: pieces

/-- Pieces with slashes between them. -/
def join : List (List Char) → List Char
  | [] => []
  | [piece] => piece
  | piece :: pieces => piece ++ '/' :: join pieces

theorem split_slash (cs : List Char) : split ('/' :: cs) = [] :: split cs := rfl

theorem split_letter {c : Char} (letter : c ≠ '/') (cs : List Char) :
    split (c :: cs) = (match split cs with
      | [] => [[c]]
      | piece :: pieces => (c :: piece) :: pieces) := if_neg letter

@[simp] theorem join_singleton (piece : List Char) : join [piece] = piece := rfl

@[simp] theorem join_cons_cons (piece next : List Char) (pieces : List (List Char)) :
    join (piece :: next :: pieces) = piece ++ '/' :: join (next :: pieces) := rfl

theorem split_ne_nil (path : List Char) : split path ≠ [] := by
  cases path with
  | nil => exact List.cons_ne_nil _ _
  | cons c cs =>
      by_cases slash : c = '/'
      · subst slash
        exact List.cons_ne_nil _ _
      · rw [split_letter slash]
        cases split cs <;> exact List.cons_ne_nil _ _

/-- A letter belongs to the first piece of what is behind it. -/
theorem split_cons {c : Char} (letter : c ≠ '/') {cs piece : List Char}
    {pieces : List (List Char)} (rest : split cs = piece :: pieces) :
    split (c :: cs) = (c :: piece) :: pieces := by
  rw [split_letter letter, rest]

/-- A path is its pieces with slashes between them. -/
theorem join_split (path : List Char) : join (split path) = path := by
  induction path with
  | nil => rfl
  | cons c cs ih =>
      obtain ⟨piece, pieces, hs⟩ := List.exists_cons_of_ne_nil (split_ne_nil cs)
      by_cases slash : c = '/'
      · subst slash
        rw [hs] at ih
        rw [split_slash, hs, join_cons_cons, ih, List.nil_append]
      · rw [split_cons slash hs]
        rw [hs] at ih
        cases pieces with
        | nil => simpa using ih
        | cons next rest => simpa using ih

theorem join_append_cons (pieces : List (List Char)) (next : List Char)
    (more : List (List Char)) (ne : pieces ≠ []) :
    join (pieces ++ next :: more) = join pieces ++ '/' :: join (next :: more) := by
  induction pieces with
  | nil => exact absurd rfl ne
  | cons piece pieces ih =>
      cases pieces with
      | nil => rfl
      | cons second rest =>
          rw [List.cons_append, List.cons_append, join_cons_cons, join_cons_cons,
            List.append_assoc, List.cons_append, ← ih (List.cons_ne_nil _ _), List.cons_append]

/-- Pieces stand at the beginning of a path with more of them. -/
theorem join_prefix_append (pieces more : List (List Char)) :
    join pieces <+: join (pieces ++ more) := by
  cases more with
  | nil => simp
  | cons next more =>
      by_cases ne : pieces = []
      · rw [ne]
        exact List.nil_prefix
      · rw [join_append_cons pieces next more ne]
        exact List.prefix_append ..

/-- More pieces make no shorter path. -/
theorem length_join_le_append (pieces more : List (List Char)) :
    (join pieces).length ≤ (join (pieces ++ more)).length :=
  (join_prefix_append pieces more).length_le

/-- One more piece that is not empty makes a longer path. -/
theorem length_join_lt_concat (pieces : List (List Char)) {piece : List Char} (h : piece ≠ []) :
    (join pieces).length < (join (pieces ++ [piece])).length := by
  by_cases ne : pieces = []
  · rw [ne]
    exact List.length_pos_iff.2 h
  · rw [join_append_cons pieces piece [] ne, List.length_append, List.length_cons]
    omega

/-- A piece that stands for nothing. -/
def isTrivial (piece : List Char) : Bool := piece.isEmpty || piece == ['.']

/-- Pieces without the trivial ones at their end. -/
def dropTrivialEnd (pieces : List (List Char)) : List (List Char) :=
  (pieces.reverse.dropWhile isTrivial).reverse

/-- What is dropped stands at the end. -/
theorem dropTrivialEnd_append (pieces : List (List Char)) :
    ∃ dropped, dropTrivialEnd pieces ++ dropped = pieces := by
  refine ⟨(pieces.reverse.takeWhile isTrivial).reverse, ?_⟩
  rw [dropTrivialEnd, ← List.reverse_append, List.takeWhile_append_dropWhile, List.reverse_reverse]

theorem length_join_dropTrivialEnd_le (pieces : List (List Char)) :
    (join (dropTrivialEnd pieces)).length ≤ (join pieces).length := by
  obtain ⟨dropped, h⟩ := dropTrivialEnd_append pieces
  calc (join (dropTrivialEnd pieces)).length
      ≤ (join (dropTrivialEnd pieces ++ dropped)).length := length_join_le_append ..
    _ = (join pieces).length := by rw [h]

/-- The piece left at the end is not trivial. -/
theorem isTrivial_getLast_dropTrivialEnd (pieces : List (List Char))
    (h : dropTrivialEnd pieces ≠ []) : isTrivial ((dropTrivialEnd pieces).getLast h) = false := by
  simp only [dropTrivialEnd] at h ⊢
  rw [List.getLast_reverse]
  exact List.head_dropWhile_not isTrivial (by simpa using h)

/-- How a path begins: at the root, with a dot, or with a name. -/
def start (path : List Char) : List Char :=
  match path with
  | '/' :: _ => ['/']
  | ['.'] => ['.']
  | '.' :: '/' :: _ => ['.']
  | _ => []

/-- The pieces behind the beginning of a path, up to the last that counts. -/
def body (path : List Char) : List (List Char) :=
  dropTrivialEnd (split (path.drop (start path).length))

/-- A path without the slashes at its end.  The root keeps one. -/
def dropEndSlashes (path : List Char) : List Char :=
  match (path.reverse.dropWhile (· = '/')).reverse with
  | [] => path.take 1
  | trimmed => trimmed

/-! ## Parts of a path -/

/-- Whether a path begins at the root. -/
def isAbsolute (path : String) : Bool := path.toList.head? == some '/'

/-- The path without its last name.  The root and the empty path have none. -/
def parent? (path : String) : Option String :=
  let cs := path.toList
  match body cs with
  | [] => if start cs = ['.'] then some "" else none
  | pieces => some (String.ofList (start cs ++ join (dropTrivialEnd pieces.dropLast)))

theorem length_start_le (path : List Char) : (start path).length ≤ path.length := by
  unfold start
  split <;> simp

/-- What is above a path is shorter. -/
theorem length_lt_of_parent? {path above : String} (h : parent? path = some above) :
    above.length < path.length := by
  simp only [parent?] at h
  split at h
  · split at h
    · rename_i hs
      have hlen := length_start_le path.toList
      rw [hs] at hlen
      obtain rfl := Option.some.inj h
      rw [← String.length_toList]
      exact hlen
    · simp at h
  · rename_i hne
    obtain rfl := Option.some.inj h
    have hb : body path.toList ≠ [] := fun hb => hne hb
    have hlast := isTrivial_getLast_dropTrivialEnd _ hb
    have hpiece : (body path.toList).getLast hb ≠ [] := by
      intro hnil
      simp only [body] at hnil hlast
      simp [hnil, isTrivial] at hlast
    have hup := length_join_dropTrivialEnd_le (body path.toList).dropLast
    have hlt := length_join_lt_concat (body path.toList).dropLast hpiece
    rw [List.dropLast_concat_getLast] at hlt
    have hle : (join (body path.toList)).length ≤
        (path.toList.drop (start path.toList).length).length := by
      simpa only [body, join_split] using length_join_dropTrivialEnd_le
        (split (path.toList.drop (start path.toList).length))
    have hstart := length_start_le path.toList
    rw [List.length_drop] at hle
    rw [← String.length_toList, String.toList_ofList, List.length_append, ← String.length_toList]
    omega

/-- The path and everything above it, nearest first. -/
def ancestors (path : String) : List String :=
  match _h : parent? path with
  | none => [path]
  | some above => path :: ancestors above
termination_by path.length
decreasing_by exact length_lt_of_parent? _h

theorem ancestors_eq (path : String) :
    ancestors path = match parent? path with
      | none => [path]
      | some above => path :: ancestors above := by
  rw [ancestors]
  split <;> rename_i up <;> rw [up]

/-- The last name of a path, unless it leads upwards. -/
def fileName? (path : String) : Option (List Char) :=
  match (body path.toList).getLast? with
  | none => none
  | some name => if name = ['.', '.'] then none else some name

/-- A file name without what follows its last dot.  A dot in front is no
separator. -/
def stemOf (name : List Char) : List Char :=
  match (name.reverse.dropWhile (· ≠ '.')).tail.reverse with
  | [] => name
  | stem => stem

/-- The last name of a path without its extension. -/
def fileStem? (path : String) : Option String := (fileName? path).map fun name =>
  String.ofList (stemOf name)

/-- The path of a name inside a directory.  A name that begins at the root is
its own path. -/
def within (directory name : String) : String :=
  if isAbsolute name then name
  else
    match directory.toList.getLast? with
    | none => name
    | some '/' => directory ++ name
    | some _ => directory ++ "/" ++ name

end ProtocolFakes.FilePath
