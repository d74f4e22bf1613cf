import Mathlib.Data.List.Forall2
import ProtocolFakes.Proofs.Selector.Acceptance
import ProtocolFakes.Proofs.SourceRange.Shift
import ProtocolFakes.Proofs.Text.Boundary
import ProtocolFakes.Proofs.Token.Partition
import ProtocolFakes.Protocol.Source

/-!
# The methods of a protocol

A protocol is read from the spans that the outline of a text gives for it.  Nothing is assumed
of how they are found, but that they cut no character and that the methods lie in the block
(`ProtocolBlock.Fits`).

The methods are read one after another and all of them have to read (`mapM_eq_ok_iff`,
`mapM_eq_error_iff`).  Whether one is optional is read from other tokens, those of the whole
block.  They come in order, so the sections that begin before the method are a front part of
all sections and the last of them is the one that it stands in (`isOptionalAt_iff`).

Main theorem: `readProtocol_members`.
-/

namespace ProtocolFakes

set_option autoImplicit false

open Text (byteLength)

/-! ## Reading one after another -/

section Traversal

variable {α β ε : Type} {read : α → Except ε β}

theorem mapM_cons_eq (read : α → Except ε β) (x : α) (xs : List α) :
    (x :: xs).mapM read =
      match read x with
      | .error e => .error e
      | .ok y =>
          match xs.mapM read with
          | .error e => .error e
          | .ok ys => .ok (y :: ys) := by
  rw [List.mapM_cons]
  cases read x with
  | error e => rfl
  | ok y => cases xs.mapM read <;> rfl

/-- All of a list reads when each of it reads. -/
theorem mapM_eq_ok_iff {xs : List α} {ys : List β} :
    xs.mapM read = .ok ys ↔ List.Forall₂ (fun x y => read x = .ok y) xs ys := by
  induction xs generalizing ys with
  | nil =>
      rw [List.forall₂_nil_left_iff]
      exact ⟨fun same => (Except.ok.inj same).symm, fun same => same ▸ rfl⟩
  | cons x xs ih =>
      rw [mapM_cons_eq, List.forall₂_cons_left_iff]
      constructor
      · intro all
        split at all
        · cases all
        · rename_i y first
          split at all
          · cases all
          · rename_i ys' others
            exact ⟨y, ys', first, ih.1 others, (Except.ok.inj all).symm⟩
      · rintro ⟨y, ys', first, others, rfl⟩
        rw [first, ih.2 others]

theorem exists_mapM_eq_ok_iff {xs : List α} :
    (∃ ys, xs.mapM read = .ok ys) ↔ ∀ x ∈ xs, ∃ y, read x = .ok y := by
  simp only [mapM_eq_ok_iff]
  induction xs with
  | nil => exact ⟨fun _ => nofun, fun _ => ⟨[], .nil⟩⟩
  | cons x xs ih =>
      rw [List.forall_mem_cons, ← ih]
      constructor
      · rintro ⟨ys, all⟩
        cases all with
        | cons first others => exact ⟨⟨_, first⟩, _, others⟩
      · rintro ⟨⟨y, first⟩, ys, others⟩
        exact ⟨y :: ys, .cons first others⟩

/-- The failure of a list is that of the first that does not read. -/
theorem mapM_eq_error_iff {xs : List α} {e : ε} :
    xs.mapM read = .error e ↔ ∃ before x after, xs = before ++ x :: after ∧
      (∀ y ∈ before, ∃ z, read y = .ok z) ∧ read x = .error e := by
  induction xs with
  | nil => simp [pure, Except.pure]
  | cons x xs ih =>
      rw [mapM_cons_eq]
      constructor
      · intro failed
        split at failed
        · rename_i e' first
          obtain rfl := Except.error.inj failed
          exact ⟨[], x, xs, rfl, nofun, first⟩
        · rename_i y first
          split at failed
          · rename_i e' others
            obtain rfl := Except.error.inj failed
            obtain ⟨before, x', after, rfl, reads, here⟩ := ih.1 others
            refine ⟨x :: before, x', after, rfl, ?_, here⟩
            rw [List.forall_mem_cons]
            exact ⟨⟨y, first⟩, reads⟩
          · cases failed
      · rintro ⟨before, x', after, split, reads, here⟩
        cases before with
        | nil =>
            obtain ⟨rfl, rfl⟩ := List.cons.inj split
            rw [here]
        | cons y before =>
            obtain ⟨rfl, rfl⟩ := List.cons.inj split
            obtain ⟨⟨z, first⟩, reads⟩ := List.forall_mem_cons.1 reads
            have others := ih.2 ⟨before, x', after, rfl, reads, here⟩
            rw [first, others]

end Traversal

/-! ## Sections -/

/-- What stands in front of a bound is a front part of a list in order. -/
theorem takeWhile_eq_filter {α : Type} {key : α → Nat} {xs : List α} {bound : Nat}
    (ordered : xs.Pairwise fun x y => key x ≤ key y) :
    xs.takeWhile (key · < bound) = xs.filter (key · < bound) := by
  induction ordered with
  | nil => rfl
  | @cons x xs later _ ih =>
      by_cases before : key x < bound
      · rw [List.takeWhile_cons_of_pos (by simpa using before),
          List.filter_cons_of_pos (by simpa using before), ih]
      · rw [List.takeWhile_cons_of_neg (by simpa using before),
          List.filter_cons_of_neg (by simpa using before), eq_comm, List.filter_eq_nil_iff]
        intro y member
        have := later y member
        simp
        omega

/-- The last section that begins before an offset is one of optional methods. -/
def InOptionalSection (tokens : List Token) (offset : Nat) : Prop :=
  ∃ before t after, tokens = before ++ t :: after ∧ t.isAtKeyword "@optional" = true ∧
    t.range.location < offset ∧
    ∀ u ∈ after, u.isAtKeyword "@optional" = true ∨ u.isAtKeyword "@required" = true →
      offset ≤ u.range.location

theorem Token.section?_eq_true_iff {t : Token} :
    t.section? = some true ↔ t.isAtKeyword "@optional" = true := by
  unfold Token.section?
  split
  · simp_all
  · split <;> simp_all

theorem Token.section?_eq_none_iff {t : Token} :
    t.section? = none ↔
      ¬ (t.isAtKeyword "@optional" = true ∨ t.isAtKeyword "@required" = true) := by
  unfold Token.section?
  split
  · simp_all
  · split <;> simp_all

/-- The last value that a list yields. -/
theorem getLast?_filterMap_eq_some_iff {α β : Type} {f : α → Option β} {xs : List α} {y : β} :
    (xs.filterMap f).getLast? = some y ↔
      ∃ before x after, xs = before ++ x :: after ∧ f x = some y ∧ ∀ z ∈ after, f z = none := by
  rw [List.getLast?_eq_some_iff]
  constructor
  · rintro ⟨ys, yields⟩
    obtain ⟨front, back, rfl, -, last⟩ := List.filterMap_eq_append_iff.1 yields
    obtain ⟨silent, x, after, rfl, -, here, none⟩ := List.filterMap_eq_cons_iff.1 last
    exact ⟨front ++ silent, x, after, by simp, here, List.filterMap_eq_nil_iff.1 none⟩
  · rintro ⟨before, x, after, rfl, here, none⟩
    refine ⟨before.filterMap f, ?_⟩
    rw [List.filterMap_append, List.filterMap_cons_some here, List.filterMap_eq_nil_iff.2 none]

/-- **Whether a method is optional** is said by the last section before it. -/
theorem isOptionalAt_iff {tokens : List Token} {offset : Nat}
    (ordered : tokens.Pairwise fun t u => t.range.location ≤ u.range.location) :
    isOptionalAt tokens offset = true ↔ InOptionalSection tokens offset := by
  -- Sections are cut off at the first one behind the offset.  In order, that leaves all of
  -- those in front of it.
  have inOrder : (tokens.filterMap fun t =>
      t.section?.map fun optional => (t.range.location, optional)).Pairwise
        fun x y => x.1 ≤ y.1 := by
    rw [List.pairwise_filterMap]
    refine ordered.imp ?_
    intro t u le x begins y begins'
    obtain ⟨_, -, rfl⟩ := Option.map_eq_some_iff.1 begins
    obtain ⟨_, -, rfl⟩ := Option.map_eq_some_iff.1 begins'
    exact le
  have asked : isOptionalAt tokens offset = true ↔ ∃ location,
      (tokens.filterMap fun t => (t.section?.map fun optional =>
        (t.range.location, optional)).filter (·.1 < offset)).getLast? = some (location, true) := by
    unfold isOptionalAt
    simp only [takeWhile_eq_filter inOrder, List.filter_filterMap]
    split
    · rename_i location optional last
      simp [last]
    · rename_i last
      simp [last]
  rw [asked]
  simp only [getLast?_filterMap_eq_some_iff]
  constructor
  · rintro ⟨location, before, t, after, rfl, here, later⟩
    rw [Option.filter_eq_some_iff, Option.map_eq_some_iff] at here
    obtain ⟨⟨_, begins, same⟩, earlier⟩ := here
    obtain ⟨rfl, rfl⟩ := Prod.mk.inj same
    refine ⟨before, t, after, rfl, Token.section?_eq_true_iff.1 begins, by simpa using earlier, ?_⟩
    intro u member keyword
    cases begins' : u.section? with
    | none => exact absurd keyword (Token.section?_eq_none_iff.1 begins')
    | some optional => simpa [begins', Option.filter] using later u member
  · rintro ⟨before, t, after, rfl, keyword, earlier, later⟩
    refine ⟨t.range.location, before, t, after, rfl, ?_, ?_⟩
    · rw [Token.section?_eq_true_iff.2 keyword]
      simpa [Option.filter] using earlier
    · intro u member
      cases begins : u.section? with
      | none => rfl
      | some optional =>
          have word : u.isAtKeyword "@optional" = true ∨ u.isAtKeyword "@required" = true := by
            by_contra none
            rw [Token.section?_eq_none_iff.2 none] at begins
            cases begins
          simpa [Option.filter] using later u member word

/-! ## Spans -/

section Span

variable {s : Span} {text : String} {base : Nat} {mid : List Char}
variable (cut : Text.sliceBytes? s.start s.stop text.toList = some mid)
variable (fits : base + byteLength text.toList ≤ maxOffset)
include cut fits

/-- A span that can be cut out of a text stands in the document where it stands in the text. -/
theorem Span.range_bounds :
    (s.range base).location = base + s.start ∧ (s.range base).stop = base + s.stop ∧
      base + s.start + byteLength mid = base + s.stop ∧ base + s.stop ≤ maxOffset := by
  obtain ⟨before, after, whole, start, stop⟩ := Text.exists_append_of_sliceBytes? cut
  rw [whole, Text.byteLength_append, Text.byteLength_append] at fits
  unfold Span.range
  rw [SourceRange.shift_ofBounds (by omega) (by omega),
    SourceRange.location_ofBounds (by omega), SourceRange.stop_ofBounds (by omega) (by omega)]
  omega

theorem Span.tokens_eq : s.tokens text base = tokenize (String.ofList mid) (base + s.start) := by
  unfold Span.tokens
  rw [cut, (Span.range_bounds cut fits).1]

/-- The tokens of a span stand in it. -/
theorem Span.bounds_of_mem_tokens {t : Token} (member : t ∈ s.tokens text base) :
    base + s.start ≤ t.range.location ∧ t.range.stop ≤ base + s.stop := by
  obtain ⟨-, -, stop, stopLe⟩ := Span.range_bounds cut fits
  rw [Span.tokens_eq cut fits] at member
  obtain ⟨lower, upper, -⟩ := bounds_of_mem_tokenize (by rw [String.toList_ofList]; omega) member
  rw [String.toList_ofList] at upper
  exact ⟨lower, by omega⟩

/-- The tokens of a span and the trivia between them are its text. -/
theorem Span.exists_partition_tokens : ∃ first later,
    Partition (String.ofList mid) (base + s.start) first later ∧
      later.map (·.1) = s.tokens text base ∧
      (s.tokens text base).Pairwise fun t u => t.range.location < u.range.location := by
  obtain ⟨-, -, stop, stopLe⟩ := Span.range_bounds cut fits
  have inside : base + s.start + byteLength (String.ofList mid).toList ≤ maxOffset := by
    rw [String.toList_ofList]
    omega
  obtain ⟨first, later, tokens, partition⟩ := exists_partition inside
  rw [Span.tokens_eq cut fits]
  exact ⟨first, later, partition, tokens, (pairwise_tokenize inside).imp fun apart => apart.1⟩

end Span

/-- Part of a text that is not there has no tokens. -/
theorem Span.exists_cut_of_ofTokens {s : Span} {text : String} {base : Nat} {kind : MethodKind}
    {selector : Selector} (read : Selector.ofTokens (s.tokens text base) = .ok (kind, selector)) :
    ∃ mid, Text.sliceBytes? s.start s.stop text.toList = some mid := by
  cases cut : Text.sliceBytes? s.start s.stop text.toList with
  | some mid => exact ⟨mid, rfl⟩
  | none =>
      rw [Span.tokens, cut] at read
      cases read

/-- A selector lies between the ends of the tokens that it is read from. -/
theorem Selector.bounds_of_ofTokens {tokens : List Token} {kind : MethodKind} {s : Selector}
    {start stop : Nat} (read : Selector.ofTokens tokens = .ok (kind, s))
    (inside : ∀ t ∈ tokens, start ≤ t.range.location ∧ t.range.stop ≤ stop) :
    start ≤ s.range.location ∧ s.range.stop ≤ stop := by
  obtain ⟨tree, trailer, readTree, -, built, -⟩ := Selector.ofTokens_eq_ok_iff.1 read
  obtain ⟨-, split⟩ := valid_of_readDeclaration readTree
  obtain ⟨rfl, -⟩ := DeclarationTree.selector_eq_ok_iff.1 built
  have inTree : ∀ r ∈ tree.tokens.map (·.range), start ≤ r.location ∧ r.stop ≤ stop := by
    intro r member
    obtain ⟨t, found, rfl⟩ := List.mem_map.1 member
    exact inside t (split ▸ List.mem_append_left _ found)
  obtain ⟨around, -⟩ := tree.envelopeOf?_tokens
  exact ⟨SourceRange.le_location_of_envelopeOf? around fun r member => (inTree r member).1,
    SourceRange.stop_le_of_envelopeOf? around fun r member => (inTree r member).2⟩

/-- A selector that is read from tokens none of which is empty is not empty. -/
theorem Selector.location_lt_stop_of_ofTokens {tokens : List Token} {kind : MethodKind}
    {s : Selector} (read : Selector.ofTokens tokens = .ok (kind, s))
    (positive : ∀ t ∈ tokens, t.range.location < t.range.stop) :
    s.range.location < s.range.stop := by
  obtain ⟨tree, trailer, readTree, -, built, -⟩ := Selector.ofTokens_eq_ok_iff.1 read
  obtain ⟨-, split⟩ := valid_of_readDeclaration readTree
  obtain ⟨rfl, -⟩ := DeclarationTree.selector_eq_ok_iff.1 built
  have opening : tree.returnOpen ∈ tree.tokens := by simp [DeclarationTree.tokens]
  obtain ⟨lower, upper⟩ :=
    SourceRange.encloses_iff.1 (DeclarationTree.encloses_of_mem_tokens opening)
  have between := positive _ (split ▸ List.mem_append_left _ opening)
  exact Nat.lt_of_le_of_lt lower (Nat.lt_of_lt_of_le between upper)

/-! ## Protocols -/

theorem Span.method_eq_ok_iff {s : Span} {text : String} {base : Nat} {m : DeclaredMethod} :
    s.method text base = .ok m ↔
      Selector.ofTokens (s.tokens text base) = .ok (m.kind, m.selector) ∧
        m.range = s.range base := by
  unfold Span.method
  cases read : Selector.ofTokens (s.tokens text base) with
  | error e => simp [bind, Except.bind]
  | ok result =>
      simp only [bind, Except.bind, pure, Except.pure, Except.ok.injEq, DeclaredMethod.ext_iff,
        Prod.ext_iff]
      exact ⟨fun ⟨kind, selector, range⟩ => ⟨⟨kind, selector⟩, range.symm⟩,
        fun ⟨⟨kind, selector⟩, range⟩ => ⟨kind, selector, range.symm⟩⟩

theorem Span.exists_method_eq_ok_iff {s : Span} {text : String} {base : Nat} :
    (∃ m, s.method text base = .ok m) ↔
      ∃ kind selector, Selector.ofTokens (s.tokens text base) = .ok (kind, selector) := by
  simp only [Span.method_eq_ok_iff]
  constructor
  · rintro ⟨m, read, -⟩
    exact ⟨m.kind, m.selector, read⟩
  · rintro ⟨kind, selector, read⟩
    exact ⟨⟨kind, selector, s.range base⟩, read, rfl⟩

theorem Span.method_eq_error_iff {s : Span} {text : String} {base : Nat} {e : ParseError} :
    s.method text base = .error e ↔ Selector.ofTokens (s.tokens text base) = .error e := by
  unfold Span.method
  cases Selector.ofTokens (s.tokens text base) <;> simp [bind, Except.bind, pure, Except.pure]

/-- The spans of a block cut no character of a text, and its methods stand in it. -/
structure ProtocolBlock.Fits (block : ProtocolBlock) (text : String) : Prop where
  cuts : ∀ s ∈ block.span :: block.methods,
    ∃ chars, Text.sliceBytes? s.start s.stop text.toList = some chars
  within : ∀ m ∈ block.methods, block.span.start ≤ m.start ∧ m.stop ≤ block.span.stop

/-- What a block declares: as many methods as it has spans for, each read from its own span,
and optional as the sections of the block have it. -/
structure ProtocolBlock.Declares (block : ProtocolBlock) (text : String) (base : Nat)
    (p : Protocol) : Prop where
  name : p.name = block.name
  location : p.range.location = base + block.span.start
  stop : p.range.stop = base + block.span.stop
  methods : List.Forall₂
    (fun (m : Span) (method : ProtocolMethod) =>
      Selector.ofTokens (m.tokens text base) = .ok (method.kind, method.selector) ∧
        p.range.encloses method.selector.range = true ∧
        (method.optional = true ↔
          InOptionalSection (block.span.tokens text base) (base + m.start)))
    block.methods p.methods

namespace Outline

/-- A protocol is read when its methods are. -/
theorem readBlock_eq (block : ProtocolBlock) (text : String) (base : Nat) :
    readBlock block text base =
      (block.methods.mapM (Span.method · text base)).map fun declared =>
        { name := block.name
          conformances := conformancesOf (block.span.tokens text base)
          methods := declared.map fun m =>
            { kind := m.kind, selector := m.selector,
              optional := isOptionalAt (block.span.tokens text base) m.range.location }
          range := block.span.range base } := by
  unfold readBlock
  cases block.methods.mapM (Span.method · text base) <;> rfl

section Block

variable {o : Outline} {block : ProtocolBlock} {text : String} {base : Nat}
variable (first : o.firstProtocol? = some block)
include first

theorem readProtocol_eq_ok_iff {p : Protocol} :
    o.readProtocol text base = .ok p ↔ readBlock block text base = .ok p := by
  simp only [readProtocol, first]
  exact mapError_eq_ok_iff

theorem readProtocol_eq_error_iff {e : Failure} :
    o.readProtocol text base = .error e ↔
      ∃ cause, block.methods.mapM (Span.method · text base) = .error cause ∧
        e = .parse cause := by
  simp only [readProtocol, first, readBlock_eq, mapError_eq_error_iff]
  cases block.methods.mapM (Span.method · text base) <;> simp [Except.map, eq_comm]

end Block

/-- What is read of a block is what it declares. -/
theorem declares_of_readBlock {block : ProtocolBlock} {text : String} {base : Nat}
    {p : Protocol} (fits : block.Fits text) (inside : base + byteLength text.toList ≤ maxOffset)
    (read : readBlock block text base = .ok p) : block.Declares text base p := by
  obtain ⟨chars, cut⟩ := fits.cuts _ (List.mem_cons_self ..)
  obtain ⟨location, stop, -, -⟩ := Span.range_bounds cut inside
  obtain ⟨-, -, -, -, ordered⟩ := Span.exists_partition_tokens cut inside
  rw [readBlock_eq] at read
  cases all : block.methods.mapM (Span.method · text base) with
  | error e => rw [all] at read; cases read
  | ok declared =>
      rw [all] at read
      obtain rfl := Except.ok.inj read
      refine ⟨rfl, location, stop, ?_⟩
      rw [List.forall₂_map_right_iff, List.forall₂_iff_zip]
      have each := List.forall₂_iff_zip.1 (mapM_eq_ok_iff.1 all)
      refine ⟨each.1, ?_⟩
      intro m method member
      obtain ⟨readHere, range⟩ := Span.method_eq_ok_iff.1 (each.2 member)
      have found : m ∈ block.methods := (List.of_mem_zip member).1
      obtain ⟨chars', cut'⟩ := fits.cuts m (List.mem_cons_of_mem _ found)
      obtain ⟨startLe, stopLe⟩ := fits.within m found
      refine ⟨readHere, ?_, ?_⟩
      · obtain ⟨lower, upper⟩ := Selector.bounds_of_ofTokens readHere fun t member =>
          Span.bounds_of_mem_tokens cut' inside member
        rw [← Nat.add_le_add_iff_left (n := base)] at startLe stopLe
        refine SourceRange.encloses_iff.2 ⟨?_, ?_⟩
        · exact Nat.le_trans (Nat.le_of_eq location) (Nat.le_trans startLe lower)
        · exact Nat.le_trans upper (Nat.le_trans stopLe (Nat.le_of_eq stop.symm))
      · rw [range, (Span.range_bounds cut' inside).1]
        exact isOptionalAt_iff (ordered.imp Nat.le_of_lt)

/-- **Reading a protocol is complete, ordered and atomic.** Take an outline whose first
protocol is a block of spans that cut no character, the methods inside the block, in a text
that ends at an offset.

* The protocol is read exactly when the tokens of each method declare one.
* It then has these methods, one for each span and in the order of the spans.  The range of
  the protocol encloses the ranges of their selectors, and a method is optional exactly when
  the last section in front of its span is one of optional methods.
* Otherwise nothing is answered but the defect of the first method that does not read.

The tokens of a span are those of its own text at the place where it stands: with the trivia
between them they make up that text, so a keyword in a comment or in a preprocessor line is
none of them. -/
theorem readProtocol_members {o : Outline} {block : ProtocolBlock} {text : String} {base : Nat}
    (first : o.firstProtocol? = some block) (fits : block.Fits text)
    (inside : base + byteLength text.toList ≤ maxOffset) :
    ((∃ p, o.readProtocol text base = .ok p) ↔ ∀ m ∈ block.methods,
      ∃ kind selector, Selector.ofTokens (m.tokens text base) = .ok (kind, selector)) ∧
    (∀ p, o.readProtocol text base = .ok p → block.Declares text base p) ∧
    (∀ e, o.readProtocol text base = .error e ↔ ∃ before m after cause,
      block.methods = before ++ m :: after ∧
      (∀ s ∈ before, ∃ kind selector,
        Selector.ofTokens (s.tokens text base) = .ok (kind, selector)) ∧
      Selector.ofTokens (m.tokens text base) = .error cause ∧ e = .parse cause) ∧
    ∀ s ∈ block.span :: block.methods, ∃ chars trivia tokens,
      Text.sliceBytes? s.start s.stop text.toList = some chars ∧
      Partition (String.ofList chars) (base + s.start) trivia tokens ∧
      tokens.map (·.1) = s.tokens text base ∧
      s.tokens text base = tokenize (String.ofList chars) (base + s.start) := by
  refine ⟨?_, ?_, ?_, ?_⟩
  · simp only [readProtocol_eq_ok_iff first, ← Span.exists_method_eq_ok_iff]
    rw [← exists_mapM_eq_ok_iff, readBlock_eq]
    cases block.methods.mapM (Span.method · text base) <;> simp [Except.map]
  · intro p read
    exact declares_of_readBlock fits inside ((readProtocol_eq_ok_iff first).1 read)
  · intro e
    simp only [readProtocol_eq_error_iff first, mapM_eq_error_iff, Span.exists_method_eq_ok_iff,
      Span.method_eq_error_iff]
    constructor
    · rintro ⟨cause, ⟨before, m, after, split, reads, here⟩, rfl⟩
      exact ⟨before, m, after, cause, split, reads, here, rfl⟩
    · rintro ⟨before, m, after, cause, split, reads, here, rfl⟩
      exact ⟨cause, ⟨before, m, after, split, reads, here⟩, rfl⟩
  · intro s member
    obtain ⟨chars, cut⟩ := fits.cuts s member
    obtain ⟨trivia, tokens, partition, listed, -⟩ := Span.exists_partition_tokens cut inside
    exact ⟨chars, trivia, tokens, cut, partition, listed, Span.tokens_eq cut inside⟩

/-- A protocol with a keyword in a comment and one that begins a section. -/
def sectionedSource : String :=
  "@protocol P\n- (void)a; // @optional\n+ (id)b;\n@optional\n- (int)c;\n@end\n"

def sectionedBlock : ProtocolBlock :=
  ⟨"P", ⟨0, 69⟩, [⟨12, 22⟩, ⟨36, 44⟩, ⟨55, 64⟩]⟩

theorem readProtocol_members_sectioned :
    ∃ p, (Outline.ofSource sectionedSource).readProtocol sectionedSource 7 = .ok p ∧
      p.methods.map (fun m => (m.selector.name, m.optional)) =
        [("a", false), ("b", false), ("c", true)] ∧
      sectionedBlock.Declares sectionedSource 7 p := by
  have first : (Outline.ofSource sectionedSource).firstProtocol? = some sectionedBlock := by
    decide +kernel
  have cuts : ∀ s ∈ sectionedBlock.span :: sectionedBlock.methods,
      (Text.sliceBytes? s.start s.stop sectionedSource.toList).isSome = true := by
    decide +kernel
  have fits : sectionedBlock.Fits sectionedSource :=
    ⟨fun s member => Option.isSome_iff_exists.1 (cuts s member), by decide⟩
  obtain ⟨-, declares, -, -⟩ :=
    readProtocol_members first fits (show 7 + _ ≤ maxOffset by decide +kernel)
  have named : ((Outline.ofSource sectionedSource).readProtocol sectionedSource 7).toOption.map
      (fun p => p.methods.map fun m => (m.selector.name, m.optional)) =
        some [("a", false), ("b", false), ("c", true)] := by
    decide +kernel
  cases read : (Outline.ofSource sectionedSource).readProtocol sectionedSource 7 with
  | error e => rw [read] at named; cases named
  | ok p =>
      rw [read] at named
      exact ⟨p, rfl, Option.some.inj named, declares p read⟩

end Outline

end ProtocolFakes
