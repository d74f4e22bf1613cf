import ProtocolFakes.Proofs.Selector.EditStep
import ProtocolFakes.Selector.Render

/-!
# Edits as operations on a list

A selector keeps its components in one list and its parameters in another.  Which parameter
belongs to a component can be found by walking along both lists, as `entries` does, or by
counting the components in front of it, as `parameterAt?` does.  The list that counting gives,
`pairing`, is the list that walking gives (`pairing_eq_entries`), and it is what a declaration
shows (`declaration_eq`).

On that list an edit does what its name says (`Rearranges`): it takes one entry out, exchanges
two, changes one keyword or puts one more in.  It refuses just what `Refuses` lists.

Main theorem: `apply_on_pairing`.
-/

namespace ProtocolFakes.Selector

set_option autoImplicit false

/-! ## Two ways to find a parameter -/

/-- Each component beside the parameter that counting finds for its index. -/
def pairing (s : Selector) : List Entry := s.components.mapIdx fun i c => (c, s.parameterAt? i)

/-- Walking along both lists pairs a component with the parameter behind those of the
components in front of it. -/
theorem getElem?_pairUp (cs : List SelectorComponent) (ps : List Parameter) (i : Nat) :
    (pairUp cs ps)[i]? = cs[i]?.map fun c =>
      (c, if c.takesArgument then ps[(cs.take i).countP (·.takesArgument)]? else none) := by
  induction cs generalizing ps i with
  | nil => rfl
  | cons c cs ih =>
      rw [pairUp_cons]
      cases i with
      | zero => by_cases takes : c.takesArgument = true <;> simp [takes, List.head?_eq_getElem?]
      | succ i =>
          by_cases takes : c.takesArgument = true
          · simp only [if_pos takes, List.getElem?_cons_succ, ih, List.take_succ_cons,
              List.countP_cons_of_pos takes, List.getElem?_tail]
          · simp only [if_neg takes, List.getElem?_cons_succ, ih, List.take_succ_cons,
              List.countP_cons_of_neg takes]

theorem parameterAt?_eq {s : Selector} {i : Nat} {c : SelectorComponent}
    (found : s.components[i]? = some c) :
    s.parameterAt? i =
      if c.takesArgument then s.parameters[(s.components.take i).countP (·.takesArgument)]?
      else none := by
  rw [parameterAt?, found]
  rfl

theorem parameterAt?_eq_none {s : Selector} {i : Nat} (outside : s.components[i]? = none) :
    s.parameterAt? i = none := by
  rw [parameterAt?, outside]
  rfl

/-- What walking finds at an index is what counting finds for it. -/
theorem getElem?_entries (s : Selector) (i : Nat) :
    s.entries[i]? = s.components[i]?.map fun c => (c, s.parameterAt? i) := by
  rw [entries, getElem?_pairUp]
  cases found : s.components[i]? with
  | none => rfl
  | some c => rw [Option.map_some, Option.map_some, parameterAt?_eq found]

/-- **Walking and counting find the same parameters.** -/
theorem pairing_eq_entries (s : Selector) : s.pairing = s.entries := by
  refine List.ext_getElem? fun i => ?_
  rw [pairing, List.getElem?_mapIdx, getElem?_entries]

theorem parameterAt?_eq_some_iff {s : Selector} {i : Nat} {p : Parameter} :
    s.parameterAt? i = some p ↔ ∃ c, s.entries[i]? = some (c, some p) := by
  rw [getElem?_entries]
  cases found : s.components[i]? with
  | none => simp [parameterAt?_eq_none found]
  | some c => simp

@[simp] theorem length_pairing (s : Selector) : s.pairing.length = s.components.length :=
  List.length_mapIdx

/-- A declaration shows each component with the parameter that counting finds. -/
theorem declaration_eq (s : Selector) (kind : MethodKind) :
    s.declaration kind = toString kind ++ " (" ++ s.returnType ++ ")" ++
      " ".intercalate (s.pairing.map declareEntry) := by
  rw [pairing_eq_entries]
  rfl

/-! ## Refusals -/

/-- Why an edit does not apply to a selector. -/
inductive Refuses (s : Selector) : SelectorEdit → EditError → Prop where
  | delete {i : Nat} (outside : s.components.length ≤ i) :
      Refuses s (.delete i) (.indexOutOfBounds i s.components.length)
  | last {i : Nat} (inRange : i < s.components.length) (single : s.components.length = 1) :
      Refuses s (.delete i) .lastComponent
  | insert {i : Nat} (behind : s.components.length < i) :
      Refuses s (.insert i) (.indexOutOfBounds i s.components.length)
  | swap {i j : Nat} (outside : s.components.length ≤ i) :
      Refuses s (.swap i j) (.indexOutOfBounds i s.components.length)
  | other {i j : Nat} (inRange : i < s.components.length) (outside : s.components.length ≤ j) :
      Refuses s (.swap i j) (.indexOutOfBounds j s.components.length)
  | rename {i : Nat} {keyword : String} (outside : s.components.length ≤ i) :
      Refuses s (.rename i keyword) (.indexOutOfBounds i s.components.length)
  | bare {i : Nat} {c : SelectorComponent} (found : s.components[i]? = some c)
      (bare : c.takesArgument = false) : Refuses s (.rename i "") (.invalidKeyword "")
  | noWord {i : Nat} {keyword : String} (inRange : i < s.components.length)
      (some : keyword ≠ "") (noWord : isIdentifierWord keyword.toList = false) :
      Refuses s (.rename i keyword) (.invalidKeyword keyword)

theorem checkIndex_eq_error_iff {s : Selector} {i : Nat} {defect : EditError} :
    s.checkIndex i = .error defect ↔
      s.components.length ≤ i ∧ defect = .indexOutOfBounds i s.components.length := by
  unfold checkIndex
  split
  · rename_i inRange
    simp [Nat.not_le.2 inRange]
  · rename_i outside
    simp [Nat.not_lt.1 outside, eq_comm]

theorem deleteAt_eq_error_iff {s : Selector} {i : Nat} {defect : EditError} :
    s.deleteAt i = .error defect ↔ Refuses s (.delete i) defect := by
  unfold deleteAt
  constructor
  · intro failed
    cases check : s.checkIndex i with
    | error cause =>
        rw [check] at failed
        obtain ⟨outside, rfl⟩ := checkIndex_eq_error_iff.1 check
        cases failed
        exact .delete outside
    | ok _ =>
        rw [check] at failed
        by_cases single : s.components.length = 1
        · simp only [bind, Except.bind, single, if_true, Except.error.injEq] at failed
          exact failed ▸ .last (checkIndex_eq_ok_iff.1 check) single
        · simp [bind, Except.bind, single, pure, Except.pure] at failed
  · intro refused
    cases refused with
    | delete outside => rw [checkIndex_eq_error_iff.2 ⟨outside, rfl⟩]; rfl
    | last inRange single => rw [checkIndex_eq_ok_iff.2 inRange]; simp [bind, Except.bind, single]

theorem insertAt_eq_error_iff {s : Selector} {i : Nat} {defect : EditError} :
    s.insertAt i = .error defect ↔ Refuses s (.insert i) defect := by
  unfold insertAt
  constructor
  · intro failed
    split at failed
    · rename_i behind
      cases failed
      exact .insert behind
    · cases failed
  · rintro (_ | _ | behind)
    rw [if_pos behind]

theorem swapAt_eq_error_iff {s : Selector} {i j : Nat} {defect : EditError} :
    s.swapAt i j = .error defect ↔ Refuses s (.swap i j) defect := by
  unfold swapAt
  constructor
  · intro failed
    cases check : s.checkIndex i with
    | error cause =>
        rw [check] at failed
        obtain ⟨outside, rfl⟩ := checkIndex_eq_error_iff.1 check
        cases failed
        exact .swap outside
    | ok _ =>
        rw [check] at failed
        cases checkOther : s.checkIndex j with
        | error cause =>
            rw [checkOther] at failed
            obtain ⟨outside, rfl⟩ := checkIndex_eq_error_iff.1 checkOther
            cases failed
            exact .other (checkIndex_eq_ok_iff.1 check) outside
        | ok _ =>
            rw [checkOther] at failed
            cases failed
  · intro refused
    cases refused with
    | swap outside => rw [checkIndex_eq_error_iff.2 ⟨outside, rfl⟩]; rfl
    | other inRange outside =>
        rw [checkIndex_eq_ok_iff.2 inRange, checkIndex_eq_error_iff.2 ⟨outside, rfl⟩]
        rfl

/-- A keyword is refused when it is empty on a bare component, or no identifier. -/
theorem allowsKeyword_eq_false_iff {c : SelectorComponent} {keyword : String} :
    allowsKeyword c keyword = false ↔
      keyword = "" ∧ c.takesArgument = false ∨
        keyword ≠ "" ∧ isIdentifierWord keyword.toList = false := by
  unfold allowsKeyword
  by_cases empty : keyword = ""
  · simp [empty]
  · simp [empty]

theorem renameAt_eq_error_iff {s : Selector} {i : Nat} {keyword : String} {defect : EditError} :
    s.renameAt i keyword = .error defect ↔ Refuses s (.rename i keyword) defect := by
  unfold renameAt
  constructor
  · intro failed
    split at failed
    · rename_i outside
      cases failed
      exact .rename (List.getElem?_eq_none_iff.1 outside)
    · rename_i c found
      split at failed
      · cases failed
      · rename_i refused
        cases failed
        rcases allowsKeyword_eq_false_iff.1 (Bool.eq_false_iff.2 refused) with
          ⟨rfl, bare⟩ | ⟨some, noWord⟩
        · exact .bare found bare
        · exact .noWord (List.getElem?_eq_some_iff.1 found).1 some noWord
  · intro refused
    cases refused with
    | rename outside => rw [List.getElem?_eq_none_iff.2 outside]
    | bare found bare =>
        have refused := allowsKeyword_eq_false_iff.2 (.inl ⟨rfl, bare⟩)
        simp [found, refused]
    | noWord inRange some noWord =>
        have refused := allowsKeyword_eq_false_iff (c := s.components[i]).2 (.inr ⟨some, noWord⟩)
        simp [List.getElem?_eq_getElem inRange, refused]

/-- **An edit fails for one of the listed reasons, and for no other.** -/
theorem apply_eq_error_iff {s : Selector} {edit : SelectorEdit} {defect : EditError} :
    s.apply edit = .error defect ↔ Refuses s edit defect := by
  cases edit with
  | delete i => exact deleteAt_eq_error_iff
  | insert i => exact insertAt_eq_error_iff
  | swap i j => exact swapAt_eq_error_iff
  | rename i keyword => exact renameAt_eq_error_iff

/-! ## What is left of the list -/

/-- What an insertion leaves of an entry that was there: the entry itself, or a bare component
with a placeholder for its parameter. -/
inductive Filled : Entry → Entry → Prop where
  | kept (c : SelectorComponent) (p : Parameter) : Filled (c, some p) (c, some p)
  | bare (c : SelectorComponent) (name : String) : Filled (c, none) (placeholderEntry c name)

/-- What an edit does to the list of the components with their parameters. -/
inductive Rearranges (s e : Selector) : SelectorEdit → Prop where
  | delete {i : Nat} (removed : e.pairing = s.pairing.eraseIdx i) : Rearranges s e (.delete i)
  | insert {i : Nat} {old : List Entry} {name : String}
      (filled : List.Forall₂ Filled s.pairing old)
      (added : e.pairing = old.insertIdx i
        (⟨"", true, .emptyAt (s.insertionPoint i)⟩,
          some ⟨"id", name, .emptyAt (s.insertionPoint i)⟩)) : Rearranges s e (.insert i)
  | swap {i j : Nat}
      (exchanged : ∀ k, e.pairing[k]? =
        if k = i then s.pairing[j]? else if k = j then s.pairing[i]? else s.pairing[k]?) :
      Rearranges s e (.swap i j)
  | rename {i : Nat} {keyword : String}
      (renamed : e.pairing = s.pairing.modify i fun (c, p) => ({ c with keyword }, p)) :
      Rearranges s e (.rename i keyword)

theorem getElem?_exchange {α : Type} {l : List α} {i j : Nat} (inRange : i < l.length)
    (otherInRange : j < l.length) (k : Nat) :
    (exchange l i j)[k]? = if k = i then l[j]? else if k = j then l[i]? else l[k]? := by
  rw [exchange, List.getElem?_eq_getElem inRange, List.getElem?_eq_getElem otherInRange]
  simp only [List.getElem?_set, List.length_set, inRange, otherInRange, if_true]
  by_cases atI : k = i
  · subst atI
    by_cases same : j = k <;> simp [same]
  · by_cases atJ : k = j
    · subst atJ
      simp [atI]
    · simp [Ne.symm atI, Ne.symm atJ, atI, atJ]

theorem forall₂_fillPlaceholders (used : List String) (position : Nat) (es : List Entry) :
    List.Forall₂ Filled es (fillPlaceholders used position es) := by
  fun_induction fillPlaceholders used position es with
  | case1 => exact .nil
  | case2 used position c p es ih => exact .cons (.kept c p) ih
  | case3 used position c es name ih => exact .cons (.bare c name) ih

/-- Filling a list with one more entry fills the list and that entry. -/
theorem exists_fillPlaceholders_insertIdx (used : List String) (position : Nat)
    {es : List Entry} {i : Nat} (inRange : i ≤ es.length) (c : SelectorComponent) :
    ∃ old name, List.Forall₂ Filled es old ∧
      fillPlaceholders used position (es.insertIdx i (c, none)) =
        old.insertIdx i (placeholderEntry c name) := by
  induction es generalizing used position i with
  | nil =>
      obtain rfl : i = 0 := Nat.le_zero.1 inRange
      exact ⟨[], _, .nil, rfl⟩
  | cons e es ih =>
      cases i with
      | zero => exact ⟨_, _, forall₂_fillPlaceholders .., rfl⟩
      | succ i =>
          have inRange' : i ≤ es.length := Nat.le_of_succ_le_succ inRange
          obtain ⟨d, _ | p⟩ := e
          · obtain ⟨old, name, filled, same⟩ :=
              ih (firstFree used "arg" position :: used) (position + 1) inRange'
            refine ⟨_ :: old, name, .cons (.bare d (firstFree used "arg" position)) filled, ?_⟩
            rw [List.insertIdx_succ_cons, fillPlaceholders, same, List.insertIdx_succ_cons]
            rfl
          · obtain ⟨old, name, filled, same⟩ := ih used (position + 1) inRange'
            refine ⟨_ :: old, name, .cons (.kept d p) filled, ?_⟩
            rw [List.insertIdx_succ_cons, fillPlaceholders, same, List.insertIdx_succ_cons]

/-- In an edited selector, walking finds the parameters that the edit put there. -/
theorem WellFormed.entries_of_step {s : Selector} (formed : s.WellFormed) {edit : SelectorEdit}
    {es : List Entry} (step : EditStep s edit es) : (s.withEntries es).entries = es :=
  entries_withEntries s fun _ member => (formed.sound_of_origin (step.origin member)).paired

theorem WellFormed.rearranges {s e : Selector} (formed : s.WellFormed) {edit : SelectorEdit}
    (applied : s.apply edit = .ok e) : Rearranges s e edit := by
  obtain ⟨es, step, rfl⟩ := apply_eq_ok_iff.1 applied
  have left : (s.withEntries es).pairing = es := by
    rw [pairing_eq_entries, formed.entries_of_step step]
  have old := pairing_eq_entries s
  cases step with
  | delete inRange several => exact .delete (by rw [left, old])
  | @insert i inRange =>
      obtain ⟨filledOld, name, filled, same⟩ := exists_fillPlaceholders_insertIdx
        (s.parameters.map (·.name)) 0 (length_entries s ▸ inRange) (s.insertedComponent i)
      exact .insert (old ▸ filled) (left.trans same)
  | swap inRange otherInRange =>
      rw [← length_entries] at inRange otherInRange
      exact .swap fun k => by rw [left, old, getElem?_exchange inRange otherInRange]
  | rename found allowed => exact .rename (by rw [left, old])

/-- **Edits are the operations on a list that they are named for**, and they keep each
component with its parameter.

* An edit of a well-formed selector fails exactly for the reasons of `Refuses`, and with
  what is said there.
* Otherwise it makes of the list of components and parameters what `Rearranges` says.
* The parameter that belongs to a component is the same whether it is found by walking or
  by counting, and the declaration shows that one. -/
theorem apply_on_pairing {s : Selector} (formed : s.WellFormed) :
    (∀ edit defect, s.apply edit = .error defect ↔ Refuses s edit defect) ∧
    (∀ edit e, s.apply edit = .ok e → Rearranges s e edit) ∧
    ∀ t : Selector,
      (∀ i, t.entries[i]? = t.components[i]?.map fun c => (c, t.parameterAt? i)) ∧
      ∀ kind, t.declaration kind = toString kind ++ " (" ++ t.returnType ++ ")" ++
        " ".intercalate (t.pairing.map declareEntry) := by
  exact ⟨fun _ _ => apply_eq_error_iff, fun _ _ => formed.rearranges,
    fun t => ⟨getElem?_entries t, declaration_eq t⟩⟩

/-- A bare keyword gets a placeholder as soon as it has a neighbour, and cannot do without a
name while it has none. -/
theorem apply_on_pairing_reset :
    ∃ s e : Selector,
      ofFields [⟨"reset", false, .clamped 8 5⟩] [] "void" (.clamped 0 13) = .ok s ∧
      s.apply (.rename 0 "") = .error (.invalidKeyword "") ∧ s.apply (.insert 1) = .ok e ∧
      Rearranges s e (.insert 1) ∧
      e.pairing = [(⟨"reset", true, .clamped 8 5⟩, some ⟨"id", "arg0", .emptyAt 13⟩),
        (⟨"", true, .emptyAt 13⟩, some ⟨"id", "arg1", .emptyAt 13⟩)] := by
  have made : ofFields [⟨"reset", false, .clamped 8 5⟩] [] "void" (.clamped 0 13) = .ok _ := rfl
  have inserted : apply ⟨[⟨"reset", false, .clamped 8 5⟩], [], "void", .clamped 0 13⟩ (.insert 1) =
      .ok _ := rfl
  obtain ⟨refuses, rearranges, -⟩ := apply_on_pairing (ofFields_eq_ok_iff.1 made).2
  exact ⟨_, _, made, (refuses _ _).2 (.bare rfl rfl), inserted, rearranges _ _ inserted, by decide⟩

end ProtocolFakes.Selector
