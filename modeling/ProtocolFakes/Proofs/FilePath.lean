import Mathlib.Data.List.TakeWhile
import ProtocolFakes.FilePath

/-!
# The names of a path

A path is read lexically: slashes may repeat, and a name that is a single dot stands for
nothing, except at the beginning.  What is left are the names of the path (`names`).  Going up
drops the last of them and keeps the root (`names_of_parent?`), and nothing is above a path
exactly if it has no names (`parent?_eq_none_iff`).  So as many paths lie above a path as it has
names (`isSome_above?_iff`), each with a beginning of them (`names_of_above?`), and these are
the paths that `ancestors` lists (`getElem?_ancestors`).

The names of a file in a directory are those of the directory and the name of the file
(`names_within`).
-/

namespace ProtocolFakes.FilePath

set_option autoImplicit false

/-! ## Pieces -/

/-- A slash stands between the pieces before it and the pieces behind it. -/
theorem split_append_slash (cs ds : List Char) :
    split (cs ++ '/' :: ds) = split cs ++ split ds := by
  induction cs with
  | nil => exact split_slash ds
  | cons c cs ih =>
      by_cases slash : c = '/'
      · subst slash
        rw [List.cons_append, split_slash, split_slash, ih, List.cons_append]
      · obtain ⟨piece, pieces, rest⟩ := List.exists_cons_of_ne_nil (split_ne_nil cs)
        rw [rest, List.cons_append] at ih
        rw [List.cons_append, split_cons slash ih, split_cons slash rest, List.cons_append]

/-- Slashes at the end of a path are empty pieces. -/
theorem split_append_slashes (cs : List Char) (n : Nat) :
    split (cs ++ List.replicate n '/') = split cs ++ List.replicate n [] := by
  induction n with
  | zero => simp
  | succ n ih =>
      rw [List.replicate_succ', ← List.append_assoc, split_append_slash, ih,
        List.replicate_succ', List.append_assoc]
      rfl

/-- A text without slashes is its only piece. -/
theorem split_eq_singleton {letters : List Char} (noSlash : '/' ∉ letters) :
    split letters = [letters] := by
  induction letters with
  | nil => rfl
  | cons c letters ih =>
      exact split_cons (List.ne_of_not_mem_cons noSlash).symm
        (ih (List.not_mem_of_not_mem_cons noSlash))

/-- Letters without a slash stand at the end of the last piece. -/
theorem exists_split_append {letters : List Char} (noSlash : '/' ∉ letters) (cs : List Char) :
    ∃ pieces piece, split (cs ++ letters) = pieces ++ [piece ++ letters] := by
  induction cs with
  | nil => exact ⟨[], [], split_eq_singleton noSlash⟩
  | cons c cs ih =>
      obtain ⟨pieces, piece, rest⟩ := ih
      by_cases slash : c = '/'
      · subst slash
        refine ⟨[] :: pieces, piece, ?_⟩
        rw [List.cons_append, split_slash, rest, List.cons_append]
      · cases pieces with
        | nil => exact ⟨[], c :: piece, split_cons slash rest⟩
        | cons first pieces => exact ⟨(c :: first) :: pieces, piece, split_cons slash rest⟩

/-- A path is itself without the slashes at its end, and then slashes. -/
theorem exists_dropEndSlashes_append (path : List Char) :
    ∃ n, (path ≠ [] → dropEndSlashes path ≠ []) ∧
      path = dropEndSlashes path ++ List.replicate n '/' := by
  obtain ⟨n, slashes⟩ : ∃ n, path.reverse.takeWhile (· = '/') = List.replicate n '/' :=
    ⟨_, List.eq_replicate_of_mem fun c member => by
      simpa using List.mem_takeWhile_imp member⟩
  have whole : path = (path.reverse.dropWhile (· = '/')).reverse ++ List.replicate n '/' := by
    rw [← List.reverse_inj, List.reverse_append, List.reverse_replicate, List.reverse_reverse,
      ← slashes, List.takeWhile_append_dropWhile]
  unfold dropEndSlashes
  split
  · rename_i allSlashes
    rw [allSlashes, List.nil_append] at whole
    cases n with
    | zero => exact ⟨0, by simp [whole]⟩
    | succ n =>
        refine ⟨n, ?_⟩
        rw [whole]
        exact ⟨nofun, rfl⟩
  · rename_i someLeft
    exact ⟨n, fun _ => someLeft, whole⟩

theorem slash_not_mem_of_mem_split {path piece : List Char} (member : piece ∈ split path) :
    '/' ∉ piece := by
  induction path generalizing piece with
  | nil =>
      obtain rfl := List.mem_singleton.1 member
      exact List.not_mem_nil
  | cons c cs ih =>
      by_cases slash : c = '/'
      · subst slash
        rw [split_slash, List.mem_cons] at member
        rcases member with rfl | later
        · exact List.not_mem_nil
        · exact ih later
      · obtain ⟨first, pieces, rest⟩ := List.exists_cons_of_ne_nil (split_ne_nil cs)
        rw [rest] at ih
        rw [split_cons slash rest, List.mem_cons] at member
        rcases member with rfl | later
        · exact List.not_mem_cons_of_ne_of_not_mem (Ne.symm slash) (ih (List.mem_cons_self ..))
        · exact ih (List.mem_cons_of_mem _ later)

/-- **Pieces with slashes between them are split again.** -/
theorem split_join {pieces : List (List Char)} (noSlash : ∀ piece ∈ pieces, '/' ∉ piece)
    (ne : pieces ≠ []) : split (join pieces) = pieces := by
  fun_induction join pieces with
  | case1 => exact absurd rfl ne
  | case2 piece => exact split_eq_singleton (noSlash piece (List.mem_singleton_self _))
  | case3 piece pieces more ih =>
      rw [split_append_slash, split_eq_singleton (noSlash piece (List.mem_cons_self ..)),
        ih (fun p member => noSlash p (List.mem_cons_of_mem _ member)) more, List.singleton_append]

/-! ## Names -/

/-- The pieces of a path that count, in order: those that stand for something, and a single dot
at the beginning. -/
def names (path : String) : List (List Char) :=
  let pieces := split path.toList
  (if pieces.head? = some ['.'] then [['.']] else []) ++ pieces.filter (!isTrivial ·)

theorem filter_dropTrivialEnd (pieces : List (List Char)) :
    (dropTrivialEnd pieces).filter (!isTrivial ·) = pieces.filter (!isTrivial ·) := by
  have dropped : (pieces.reverse.takeWhile isTrivial).filter (!isTrivial ·) = [] := by
    rw [List.filter_eq_nil_iff]
    intro piece member
    simpa using List.mem_takeWhile_imp member
  rw [dropTrivialEnd, List.filter_reverse, ← List.nil_append (List.filter _ (List.dropWhile _ _)),
    ← dropped, ← List.filter_append, List.takeWhile_append_dropWhile, List.filter_reverse,
    List.reverse_reverse]

theorem isTrivial_of_mem_getLast? {pieces : List (List Char)} {piece : List Char}
    (last : piece ∈ (dropTrivialEnd pieces).getLast?) : isTrivial piece = false := by
  obtain ⟨front, ends⟩ := List.getLast?_eq_some_iff.1 last
  have counts := isTrivial_getLast_dropTrivialEnd pieces (by simp [ends])
  simpa [ends] using counts

theorem dropTrivialEnd_eq_nil_iff {pieces : List (List Char)} :
    dropTrivialEnd pieces = [] ↔ pieces.filter (!isTrivial ·) = [] := by
  rw [← filter_dropTrivialEnd]
  constructor
  · intro nothing
    rw [nothing, List.filter_nil]
  · intro nothing
    refine Decidable.byContradiction fun ne => ?_
    have counts := isTrivial_getLast_dropTrivialEnd pieces ne
    have none := List.filter_eq_nil_iff.1 nothing _ (List.getLast_mem ne)
    simp [counts] at none

theorem filter_split_join {pieces : List (List Char)}
    (noSlash : ∀ piece ∈ pieces, '/' ∉ piece) :
    (split (join pieces)).filter (!isTrivial ·) = pieces.filter (!isTrivial ·) := by
  cases pieces with
  | nil => rfl
  | cons piece pieces => rw [split_join noSlash (List.cons_ne_nil _ _)]

/-- A path begins at the root, with a dot, or with a name. -/
theorem start_cases (cs : List Char) :
    (∃ rest, cs = '/' :: rest ∧ start cs = ['/']) ∨
      ((cs = ['.'] ∨ ∃ rest, cs = '.' :: '/' :: rest) ∧ start cs = ['.']) ∨
      (cs.head? ≠ some '/' ∧ (split cs).head? ≠ some ['.']) ∧ start cs = [] := by
  unfold start
  split
  · exact .inl ⟨_, rfl, rfl⟩
  · exact .inr (.inl ⟨.inl rfl, rfl⟩)
  · exact .inr (.inl ⟨.inr ⟨_, rfl⟩, rfl⟩)
  · rename_i noRoot noDot noDotSlash
    refine .inr (.inr ⟨⟨?_, ?_⟩, rfl⟩)
    · intro root
      obtain ⟨rest, rfl⟩ := List.head?_eq_some_iff.1 root
      exact noRoot rest rfl
    · intro dot
      obtain ⟨pieces, whole⟩ := List.head?_eq_some_iff.1 dot
      have joined := join_split cs
      rw [whole] at joined
      cases pieces with
      | nil => exact noDot joined.symm
      | cons piece pieces => exact noDotSlash _ joined.symm

theorem filter_split_drop_start (cs : List Char) :
    (split (cs.drop (start cs).length)).filter (!isTrivial ·) =
      (split cs).filter (!isTrivial ·) := by
  obtain ⟨rest, rfl, begins⟩ | ⟨rfl | ⟨rest, rfl⟩, begins⟩ | ⟨-, begins⟩ := start_cases cs <;>
    rw [begins]
  · rw [split_slash]
    rfl
  · rfl
  · have whole : split ('.' :: '/' :: rest) = ['.'] :: split rest :=
      split_cons (by decide) (split_slash rest)
    change (split ('/' :: rest)).filter _ = _
    rw [split_slash, whole]
    rfl
  · rfl

/-- A beginning of a path that ends with a piece that counts has the names up to there. -/
theorem names_start_append {cs : List Char} {front : List (List Char)}
    (begins : front <+: split (cs.drop (start cs).length))
    (last : ∀ piece ∈ front.getLast?, isTrivial piece = false) :
    names (.ofList (start cs ++ join front)) =
      (if (split cs).head? = some ['.'] then [['.']] else []) ++ front.filter (!isTrivial ·) := by
  have noSlash : ∀ piece ∈ front, '/' ∉ piece := fun piece member =>
    slash_not_mem_of_mem_split (begins.subset member)
  rw [names, String.toList_ofList]
  obtain ⟨rest, rfl, root⟩ | ⟨rfl | ⟨rest, rfl⟩, dot⟩ | ⟨⟨-, noDot⟩, neither⟩ := start_cases cs
  · rw [root, List.singleton_append, split_slash, split_slash]
    exact congrArg ([] ++ ·) (filter_split_join noSlash)
  · cases front with
    | nil => rw [dot]; rfl
    | cons piece pieces =>
        rw [dot] at begins
        obtain ⟨rfl, rest⟩ := List.cons_prefix_cons.1 begins
        obtain rfl := List.prefix_nil.1 rest
        cases last [] rfl
  · rw [dot, split_cons (by decide) (split_slash rest)]
    cases front with
    | nil => rfl
    | cons piece pieces =>
        rw [dot] at begins
        replace begins : piece :: pieces <+: split ('/' :: rest) := begins
        rw [split_slash] at begins
        obtain ⟨rfl, later⟩ := List.cons_prefix_cons.1 begins
        cases pieces with
        | nil => cases last [] rfl
        | cons next pieces =>
            have joined : split ('.' :: '/' :: join (next :: pieces)) =
                ['.'] :: split (join (next :: pieces)) := split_cons (by decide) (split_slash _)
            have kept := filter_split_join fun p member => noSlash p (List.mem_cons_of_mem _ member)
            change _ ++ (split ('.' :: '/' :: join (next :: pieces))).filter _ = _
            rw [joined]
            exact congrArg ([['.']] ++ ·) kept
  · rw [neither, List.nil_append, filter_split_join noSlash, if_neg noDot]
    refine congrArg (· ++ _) (if_neg ?_)
    cases front with
    | nil => exact nofun
    | cons piece pieces =>
        rw [split_join noSlash (List.cons_ne_nil _ _)]
        rw [neither] at begins
        obtain ⟨later, whole⟩ := begins
        replace whole : piece :: pieces ++ later = split cs := whole
        rw [← whole] at noDot
        exact noDot

/-! ## Going up -/

theorem start_eq_dot_iff {cs : List Char} :
    start cs = ['.'] ↔ (split cs).head? = some ['.'] := by
  obtain ⟨rest, rfl, root⟩ | ⟨rfl | ⟨rest, rfl⟩, dot⟩ | ⟨⟨-, noDot⟩, neither⟩ := start_cases cs
  · rw [root, split_slash]
    simp
  · exact iff_of_true dot rfl
  · refine iff_of_true dot ?_
    rw [split_cons (by decide) (split_slash rest), List.head?_cons]
  · exact iff_of_false (by simp [neither]) noDot

theorem names_eq (path : String) :
    names path = (if start path.toList = ['.'] then [['.']] else []) ++
      (body path.toList).filter (!isTrivial ·) := by
  simp only [names, body, filter_dropTrivialEnd, filter_split_drop_start, start_eq_dot_iff]

/-- **Nothing is above a path exactly if it has no names.** -/
theorem parent?_eq_none_iff {path : String} : parent? path = none ↔ names path = [] := by
  have counted : body path.toList = [] ↔ (body path.toList).filter (!isTrivial ·) = [] := by
    rw [body, dropTrivialEnd_eq_nil_iff, filter_dropTrivialEnd]
  simp only [parent?, names_eq, List.append_eq_nil_iff, ← counted]
  cases pieces : body path.toList with
  | nil => by_cases dot : start path.toList = ['.'] <;> simp [dot]
  | cons piece rest => simp

/-- The pieces that are left when a path loses its last name stand at its beginning. -/
theorem prefix_split (cs : List Char) :
    dropTrivialEnd (body cs).dropLast <+: split (cs.drop (start cs).length) := by
  have trimmed : ∀ pieces, dropTrivialEnd pieces <+: pieces := dropTrivialEnd_append
  exact (trimmed _).trans ((List.dropLast_prefix _).trans (trimmed _))

/-- **Going up drops the last name.** -/
theorem names_of_parent? {path above : String} (up : parent? path = some above) :
    names above = (names path).dropLast := by
  rw [names_eq path]
  simp only [parent?] at up
  split at up
  · rename_i nothing
    split at up
    · rename_i dot
      obtain rfl := Option.some.inj up
      rw [if_pos dot, nothing]
      rfl
    · cases up
  · rename_i ne
    obtain rfl := Option.some.inj up
    replace ne : body path.toList ≠ [] := ne
    have last : isTrivial ((body path.toList).getLast ne) = false :=
      isTrivial_getLast_dropTrivialEnd _ ne
    have kept : (body path.toList).filter (!isTrivial ·) =
        (body path.toList).dropLast.filter (!isTrivial ·) ++ [(body path.toList).getLast ne] := by
      have whole := congrArg (List.filter (!isTrivial ·)) (List.dropLast_concat_getLast ne)
      rw [← whole, List.filter_append]
      simp [last]
    rw [names_start_append (prefix_split _) fun _ => isTrivial_of_mem_getLast?,
      filter_dropTrivialEnd, kept, ← List.append_assoc, List.dropLast_concat]
    simp only [start_eq_dot_iff]

/-- What is above a path begins at the root exactly if the path does. -/
theorem isAbsolute_of_parent? {path above : String} (up : parent? path = some above) :
    isAbsolute above = isAbsolute path := by
  rw [Bool.eq_iff_iff]
  simp only [isAbsolute, beq_iff_eq]
  simp only [parent?] at up
  split at up
  · split at up
    · rename_i dot
      obtain rfl := Option.some.inj up
      obtain ⟨rest, -, root⟩ | ⟨whole | ⟨rest, whole⟩, -⟩ | ⟨-, neither⟩ :=
        start_cases path.toList
      · simp [root] at dot
      · simp [whole]
      · simp [whole]
      · simp [neither] at dot
    · cases up
  · obtain rfl := Option.some.inj up
    rw [String.toList_ofList]
    have front : join (dropTrivialEnd (body path.toList).dropLast) <+:
        path.toList.drop (start path.toList).length := by
      obtain ⟨more, whole⟩ := prefix_split path.toList
      rw [← join_split (path.toList.drop _), ← whole]
      exact join_prefix_append _ more
    obtain ⟨rest, whole, root⟩ | ⟨whole | ⟨rest, whole⟩, dot⟩ | ⟨⟨noRoot, -⟩, neither⟩ :=
        start_cases path.toList
    · rw [root]
      exact iff_of_true rfl (by rw [whole]; rfl)
    · rw [dot]
      exact iff_of_false (by simp) (by simp [whole])
    · rw [dot]
      exact iff_of_false (by simp) (by simp [whole])
    · rw [neither] at front ⊢
      refine iff_of_false (fun root => noRoot ?_) noRoot
      obtain ⟨rest, first⟩ := List.head?_eq_some_iff.1 root
      obtain ⟨more, whole⟩ := front
      rw [List.nil_append] at first
      rw [first] at whole
      exact List.head?_eq_some_iff.2 ⟨_, whole.symm⟩

/-! ## Everything above a path -/

/-- What is reached from a path by going up `n` times. -/
def above? (path : String) : Nat → Option String
  | 0 => some path
  | n + 1 => (parent? path).bind (above? · n)

/-- **Paths above a path have the beginnings of its names.** -/
theorem names_of_above? {path above : String} {n : Nat} (up : above? path n = some above) :
    names above = (names path).take ((names path).length - n) := by
  induction n generalizing path with
  | zero =>
      obtain rfl := Option.some.inj up
      exact List.take_length.symm
  | succ n ih =>
      obtain ⟨next, first, later⟩ := Option.bind_eq_some_iff.1 up
      rw [ih later, names_of_parent? first, List.length_dropLast, List.dropLast_eq_take,
        List.take_take]
      congr 1
      omega

theorem isAbsolute_of_above? {path above : String} {n : Nat} (up : above? path n = some above) :
    isAbsolute above = isAbsolute path := by
  induction n generalizing path with
  | zero => rw [Option.some.inj up]
  | succ n ih =>
      obtain ⟨next, first, later⟩ := Option.bind_eq_some_iff.1 up
      rw [ih later, isAbsolute_of_parent? first]

/-- **As many paths lie above a path as it has names.** -/
theorem isSome_above?_iff {path : String} {n : Nat} :
    (above? path n).isSome = true ↔ n ≤ (names path).length := by
  induction n generalizing path with
  | zero => simp [above?]
  | succ n ih =>
      rw [above?]
      cases first : parent? path with
      | none => simp [parent?_eq_none_iff.1 first]
      | some next =>
          have ne : names path ≠ [] := fun nothing => by
            rw [parent?_eq_none_iff.2 nothing] at first
            cases first
          have positive := List.length_pos_iff.2 ne
          rw [Option.bind_some, ih, names_of_parent? first, List.length_dropLast]
          omega

/-- A path stands in front of everything above it. -/
theorem exists_ancestors_eq_cons (path : String) :
    ∃ above, ancestors path = path :: above := by
  rw [ancestors_eq]
  split
  · exact ⟨[], rfl⟩
  · exact ⟨_, rfl⟩

/-- The paths that are listed lie above each other. -/
theorem getElem?_ancestors (path : String) (n : Nat) :
    (ancestors path)[n]? = above? path n := by
  induction n generalizing path with
  | zero =>
      obtain ⟨above, listed⟩ := exists_ancestors_eq_cons path
      rw [listed]
      rfl
  | succ n ih =>
      rw [ancestors_eq, above?]
      cases parent? path with
      | none => rfl
      | some next => rw [List.getElem?_cons_succ, ih, Option.bind_some]

/-! ## Files in a directory -/

/-- The path of a name inside a directory ends in the name. -/
theorem exists_within_eq (directory name : String) :
    ∃ front, (within directory name).toList = front ++ name.toList := by
  unfold within
  split
  · exact ⟨[], rfl⟩
  · split
    · exact ⟨[], rfl⟩
    · exact ⟨directory.toList, String.toList_append⟩
    · exact ⟨(directory ++ "/").toList, String.toList_append⟩

/-- The pieces of the path of a file are those of its directory, without the empty one behind a
slash at the end, and the name of the file. -/
theorem exists_split_within (directory : String) {name : String} (noSlash : '/' ∉ name.toList) :
    ∃ pieces, split (within directory name).toList = pieces ++ [name.toList] ∧
      (split directory.toList = pieces ∨ split directory.toList = pieces ++ [[]]) := by
  have single : split name.toList = [name.toList] := split_eq_singleton noSlash
  have relative : ¬ isAbsolute name = true := by
    intro absolute
    rw [isAbsolute, beq_iff_eq] at absolute
    exact noSlash (List.mem_of_head? absolute)
  rw [within, if_neg relative]
  split
  · rename_i empty
    rw [List.getLast?_eq_none_iff] at empty
    exact ⟨[], single, .inr (by rw [empty]; rfl)⟩
  · rename_i slash
    obtain ⟨front, ends⟩ := List.getLast?_eq_some_iff.1 slash
    refine ⟨split front, ?_, .inr ?_⟩
    · rw [String.toList_append, ends, List.append_assoc, List.singleton_append,
        split_append_slash, single]
    · rw [ends, split_append_slash]
      rfl
  · refine ⟨split directory.toList, ?_, .inl rfl⟩
    rw [String.toList_append, String.toList_append, List.append_assoc, ← single]
    exact split_append_slash directory.toList name.toList

/-- What counts among the pieces of the path of a file is what counts of its directory, and the
name of the file. -/
theorem filter_split_within (directory : String) {name : String} (noSlash : '/' ∉ name.toList)
    (counts : isTrivial name.toList = false) :
    (split (within directory name).toList).filter (!isTrivial ·) =
      (split directory.toList).filter (!isTrivial ·) ++ [name.toList] := by
  obtain ⟨pieces, whole, front⟩ := exists_split_within directory noSlash
  have kept : [name.toList].filter (!isTrivial ·) = [name.toList] :=
    List.filter_cons_of_pos (by simp [counts])
  rw [whole, List.filter_append, kept]
  rcases front with same | same
  · rw [same]
  · rw [same, List.filter_append]
    simp [isTrivial]

/-- **A file in a directory has the names of the directory and its own.** -/
theorem names_within (directory : String) {name : String} (noSlash : '/' ∉ name.toList)
    (counts : isTrivial name.toList = false) :
    names (within directory name) = names directory ++ [name.toList] := by
  have notDot : name.toList ≠ ['.'] := by
    rintro dot
    simp [dot, isTrivial] at counts
  have begins : (split (within directory name).toList).head? = some ['.'] ↔
      (split directory.toList).head? = some ['.'] := by
    obtain ⟨pieces, whole, front⟩ := exists_split_within directory noSlash
    rw [whole]
    cases pieces with
    | nil => rcases front with same | same <;> simp [same, notDot]
    | cons piece pieces => rcases front with same | same <;> simp [same]
  simp only [names, begins, filter_split_within directory noSlash counts, List.append_assoc]

end ProtocolFakes.FilePath
