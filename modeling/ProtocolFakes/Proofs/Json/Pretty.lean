import ProtocolFakes.Proofs.Json.Scalar

/-!
# The pretty layout reads back

A text spells a value when it is read as that value wherever it stands (`Spells`): whatever
is behind it, if that does not go on with a number, and however deep values may nest, if no
less than its length.  Items and members are read up to the sign that closes them, so they
spell a list only together with it (`SpellsItems`, `SpellsMembers`).  Blanks may stand around
every part.

Each of the three is closed under what the writer does.  What is written of a value that
records can hold (`Plain`) therefore spells it on every level, and the whole text reads as
that value again.

Main theorem: `read?_pretty`.
-/

namespace ProtocolFakes.Json

set_option autoImplicit false

/-! ## Blanks -/

/-- A text of blanks. -/
def Blank (gap : List Char) : Prop := ∀ c ∈ gap, isSpace c = true

theorem blank_newLine (level : Nat) : Blank (newLine level) := by
  intro c member
  rcases List.mem_cons.1 member with rfl | indent
  · rfl
  · obtain rfl := List.eq_of_mem_replicate indent
    rfl

theorem blank_nil : Blank [] := nofun

theorem Blank.skipSpaces_append {gap : List Char} (blank : Blank gap) (cs : List Char) :
    skipSpaces (gap ++ cs) = skipSpaces cs :=
  List.dropWhile_append_of_pos blank

theorem skipSpaces_cons {c : Char} (graphic : isSpace c = false) (cs : List Char) :
    skipSpaces (c :: cs) = c :: cs := by
  simp [skipSpaces, graphic]

/-- Blanks in front of a sign end a number, as the sign does. -/
theorem Blank.endsNumber_append {gap : List Char} (blank : Blank gap) {rest : List Char}
    (ends : EndsNumber rest) : EndsNumber (gap ++ rest) := by
  cases gap with
  | nil => exact ends
  | cons c gap =>
      have space := blank c (List.mem_cons_self ..)
      simp only [isSpace, Bool.or_eq_true, beq_iff_eq] at space
      rw [List.cons_append]
      refine endsNumber_cons ?_
      rcases space with ((rfl | rfl) | rfl) | rfl <;> decide

/-! ## Where no value begins -/

theorem readNumber_eq_none {c : Char} (notDigit : c.isDigit = false) (notMinus : c ≠ '-')
    (cs : List Char) : readNumber (c :: cs) = none := by
  unfold readNumber
  split
  rename_i sign cs' signed
  split at signed
  · exact absurd (List.cons.inj ‹_›).1 notMinus
  · obtain ⟨rfl, rfl⟩ := Prod.mk.inj signed
    have noDigits : readDigits (c :: cs) = none := by simp [readDigits, notDigit]
    simp [readWhole, noDigits]

/-- A value begins neither with a blank nor with the sign that closes an array. -/
theorem exists_cons_of_readValue {depth : Nat} {cs rest : List Char} {v : Json}
    (read : readValue depth cs = some (v, rest)) :
    ∃ c tail, cs = c :: tail ∧ isSpace c = false ∧ c ≠ ']' := by
  cases depth with
  | zero => cases read
  | succ depth =>
      cases cs with
      | nil => cases read
      | cons c tail =>
          -- Any of these goes to the reader of numbers, which takes none of them.
          have nowhere : ∀ d ∈ [' ', '\t', '\n', '\r', ']'], c ≠ d := by
            simp only [List.forall_mem_cons]
            refine ⟨?_, ?_, ?_, ?_, ?_, nofun⟩
            all_goals
              rintro rfl
              rw [readValue_number depth tail (by decide),
                readNumber_eq_none (by decide) (by decide)] at read
              all_goals cases read
          simp only [List.forall_mem_cons] at nowhere
          obtain ⟨space, tab, line, carriage, close, -⟩ := nowhere
          exact ⟨c, tail, rfl, by simp [isSpace, space, tab, line, carriage], close⟩

/-! ## What spells a value -/

/-- A text is read as a value wherever it stands. -/
def Spells (v : Json) (cs : List Char) : Prop :=
  ∀ (depth : Nat) (rest : List Char), cs.length ≤ depth → EndsNumber rest →
    readValue depth (cs ++ rest) = some (v, rest)

/-- A text is read as items up to the end of their array. -/
def SpellsItems (items : List Json) (cs : List Char) : Prop :=
  ∀ (depth : Nat) (rest : List Char), cs.length < depth →
    readItems depth (skipSpaces (cs ++ ']' :: rest)) = some (items, rest)

/-- A text is read as members up to the end of their object. -/
def SpellsMembers (members : List (Option String × Json)) (cs : List Char) : Prop :=
  ∀ (depth : Nat) (rest : List Char), cs.length < depth →
    readMembers depth (skipSpaces (cs ++ '\x7d' :: rest)) = some (members, rest)

/-- No blanks are skipped in front of a value. -/
theorem Spells.skipSpaces_append {v : Json} {cs : List Char} (spells : Spells v cs)
    (rest : List Char) : skipSpaces (cs ++ rest) = cs ++ rest := by
  obtain ⟨c, tail, first, graphic, -⟩ :=
    exists_cons_of_readValue (spells cs.length [] (Nat.le_refl _) .nil)
  rw [List.append_nil] at first
  rw [first]
  exact skipSpaces_cons graphic _

/-- To spell a value, a text has to be read from its first character on. -/
theorem spells_cons {v : Json} {c : Char} {cs : List Char}
    (reads : ∀ (depth : Nat) (rest : List Char), cs.length ≤ depth → EndsNumber rest →
      readValue (depth + 1) (c :: (cs ++ rest)) = some (v, rest)) : Spells v (c :: cs) := by
  intro depth rest deep ends
  cases depth with
  | zero => cases deep
  | succ depth => exact reads depth rest (Nat.le_of_succ_le_succ deep) ends

/-! ## Scalars -/

theorem spells_null : Spells .null "null".toList := by
  change Spells .null ['n', 'u', 'l', 'l']
  exact spells_cons fun _ _ _ _ => rfl

theorem spells_bool (b : Bool) : Spells (.bool b) (if b then "true" else "false").toList := by
  cases b with
  | true =>
      change Spells (.bool true) ['t', 'r', 'u', 'e']
      exact spells_cons fun _ _ _ _ => rfl
  | false =>
      change Spells (.bool false) ['f', 'a', 'l', 's', 'e']
      exact spells_cons fun _ _ _ _ => rfl

theorem spells_nat (n : Nat) : Spells (.nat n) (toString n).toList := by
  have number := @readNumber_digits n
  rw [Nat.toString_eq_ofList_toDigits, String.toList_ofList] at *
  cases digits : Nat.toDigits 10 n with
  | nil => exact absurd digits Nat.toDigits_ne_nil
  | cons d ds =>
      rw [digits] at number
      refine spells_cons fun depth rest _ ends => ?_
      -- No other value begins with a digit.
      have digit : d.isDigit = true :=
        Nat.isDigit_of_mem_toDigits (b := 10) (n := n) (by omega) (by omega) (by simp [digits])
      have other : d ∉ ['n', 't', 'f', '"', '[', '\x7b'] := by
        intro begins
        simp only [List.mem_cons, List.not_mem_nil, or_false] at begins
        rcases begins with rfl | rfl | rfl | rfl | rfl | rfl <;> cases digit
      rw [readValue_number depth _ other, ← List.cons_append, number ends]
      rfl

theorem spells_text (s : String) : Spells (.text s) (writeString (some s)) := by
  rw [writeString, quote, Option.getD_some, List.cons_append]
  refine spells_cons fun depth rest _ _ => ?_
  rw [readValue_quote, List.append_assoc]
  exact congrArg _ (readString_quote s rest)

/-! ## Arrays -/

theorem spells_array_nil : Spells (.array []) ['[', ']'] := spells_cons fun _ _ _ _ => rfl

theorem readItems_close (depth : Nat) (cs : List Char) : readItems depth (']' :: cs) = none := by
  cases depth with
  | zero => rfl
  | succ depth =>
      rw [readItems_succ]
      cases read : readValue depth (']' :: cs) with
      | none => rfl
      | some result =>
          obtain ⟨c, tail, first, -, notClose⟩ := exists_cons_of_readValue read
          exact absurd (List.cons.inj first).1.symm notClose

section Items

variable {v : Json} {items : List Json} {before cs after others : List Char}

/-- Items and the sign that closes them are an array. -/
theorem SpellsItems.spells_array (spelled : SpellsItems items cs) :
    Spells (.array items) ('[' :: (cs ++ [']'])) := by
  refine spells_cons fun depth rest deep _ => ?_
  rw [List.length_append] at deep
  have read := spelled depth rest deep
  rw [List.append_assoc, List.singleton_append, readValue_array]
  split
  · rename_i closed
    rw [closed, readItems_close] at read
    cases read
  · rw [read]
    rfl

/-- A value between blanks, up to the sign behind it. -/
theorem Spells.readValue_eq (blank : Blank before) (spells : Spells v cs) (blank' : Blank after)
    {sign : Char} (isSign : sign ∈ [',', ']', '\x7d']) {depth : Nat} (deep : cs.length ≤ depth)
    (rest : List Char) :
    readValue depth (skipSpaces (before ++ (cs ++ (after ++ sign :: rest)))) =
        some (v, after ++ sign :: rest) ∧
      skipSpaces (after ++ sign :: rest) = sign :: rest := by
  have signs : ∀ sign ∈ [',', ']', '\x7d'], isSpace sign = false ∧ sign.isDigit = false ∧
      sign ≠ '.' ∧ sign ≠ 'e' ∧ sign ≠ 'E' := by
    simp only [List.forall_mem_cons]
    exact ⟨by decide, by decide, by decide, nofun⟩
  obtain ⟨graphic, ends⟩ := signs sign isSign
  refine ⟨?_, ?_⟩
  · rw [blank.skipSpaces_append, spells.skipSpaces_append]
    exact spells depth _ deep (blank'.endsNumber_append (endsNumber_cons ends))
  · rw [blank'.skipSpaces_append, skipSpaces_cons graphic]

/-- A value spells itself as the last item. -/
theorem Spells.spellsItems (blank : Blank before) (spells : Spells v cs) (blank' : Blank after) :
    SpellsItems [v] (before ++ (cs ++ after)) := by
  intro depth rest deep
  cases depth with
  | zero => cases deep
  | succ depth =>
      simp only [List.length_append] at deep
      obtain ⟨here, behind⟩ := spells.readValue_eq blank blank' (show ']' ∈ _ by decide)
        (show cs.length ≤ depth by omega) rest
      simp only [List.append_assoc, readItems_succ, here, Option.bind_some, behind]

/-- Items go on behind a comma. -/
theorem SpellsItems.cons (blank : Blank before) (spells : Spells v cs) (blank' : Blank after)
    (spelled : SpellsItems items others) :
    SpellsItems (v :: items) (before ++ (cs ++ (after ++ ',' :: others))) := by
  intro depth rest deep
  cases depth with
  | zero => cases deep
  | succ depth =>
      simp only [List.length_append, List.length_cons] at deep
      obtain ⟨here, behind⟩ := spells.readValue_eq blank blank' (show ',' ∈ _ by decide)
        (show cs.length ≤ depth by omega) (others ++ ']' :: rest)
      have later := spelled depth rest (by omega)
      simp only [List.append_assoc, List.cons_append, readItems_succ, here, Option.bind_some,
        behind, later]

end Items

/-! ## Objects -/

theorem spells_object_nil : Spells (.object []) ['\x7b', '\x7d'] :=
  spells_cons fun _ _ _ _ => rfl

theorem readMembers_close (depth : Nat) (cs : List Char) :
    readMembers depth ('\x7d' :: cs) = none := by
  cases depth <;> rfl

section Members

variable {v : Json} {members : List (Option String × Json)}
variable {before between cs after others : List Char}

/-- Members and the sign that closes them are an object. -/
theorem SpellsMembers.spells_object (spelled : SpellsMembers members cs) :
    Spells (.object members) ('\x7b' :: (cs ++ ['\x7d'])) := by
  refine spells_cons fun depth rest deep _ => ?_
  rw [List.length_append] at deep
  have read := spelled depth rest deep
  rw [List.append_assoc, List.singleton_append, readValue_object]
  split
  · rename_i closed
    rw [closed, readMembers_close] at read
    cases read
  · rw [read]
    rfl

/-- A name and the colon behind it, at the beginning of the members. -/
theorem readMembers_name (blank : Blank before) (name : String) (depth : Nat) (cs : List Char) :
    readMembers (depth + 1) (skipSpaces (before ++ (writeString (some name) ++ ':' :: cs))) =
      (readValue depth (skipSpaces cs)).bind fun (value, cs) =>
        match skipSpaces cs with
        | '\x7d' :: rest => some ([(some name, value)], rest)
        | ',' :: cs =>
            (readMembers depth (skipSpaces cs)).bind fun (members, rest) =>
              some ((some name, value) :: members, rest)
        | _ => none := by
  have string : skipSpaces (writeString (some name) ++ ':' :: cs) =
      '"' :: (name.toList.flatMap escapeChar ++ '"' :: ':' :: cs) := by
    rw [writeString, quote, Option.getD_some, List.cons_append, List.cons_append,
      skipSpaces_cons (by decide), List.append_assoc]
    rfl
  rewrite [blank.skipSpaces_append, string, readMembers_quote, readString_quote]
  rfl

/-- A name and a value spell themselves as the last member. -/
theorem Spells.spellsMembers (name : String) (blank : Blank before) (blank' : Blank between)
    (spells : Spells v cs) (blank'' : Blank after) :
    SpellsMembers [(some name, v)]
      (before ++ (writeString (some name) ++ ':' :: (between ++ (cs ++ after)))) := by
  intro depth rest deep
  cases depth with
  | zero => cases deep
  | succ depth =>
      simp only [List.length_append, List.length_cons] at deep
      obtain ⟨here, behind⟩ := spells.readValue_eq blank' blank'' (show '\x7d' ∈ _ by decide)
        (show cs.length ≤ depth by omega) rest
      simp only [List.append_assoc, List.cons_append, readMembers_name blank, here, behind,
        Option.bind_some]

/-- Members go on behind a comma. -/
theorem SpellsMembers.cons (name : String) (blank : Blank before) (blank' : Blank between)
    (spells : Spells v cs) (blank'' : Blank after) (spelled : SpellsMembers members others) :
    SpellsMembers ((some name, v) :: members)
      (before ++ (writeString (some name) ++
        ':' :: (between ++ (cs ++ (after ++ ',' :: others))))) := by
  intro depth rest deep
  cases depth with
  | zero => cases deep
  | succ depth =>
      simp only [List.length_append, List.length_cons] at deep
      obtain ⟨here, behind⟩ := spells.readValue_eq blank' blank'' (show ',' ∈ _ by decide)
        (show cs.length ≤ depth by omega) (others ++ '\x7d' :: rest)
      have later := spelled depth rest (by omega)
      simp only [List.append_assoc, List.cons_append, readMembers_name blank, here, behind, later,
        Option.bind_some]

end Members

/-! ## What is written -/

/-- A value whose numbers are natural and whose strings are texts. -/
inductive Plain : Json → Prop where
  | null : Plain .null
  | bool (b : Bool) : Plain (.bool b)
  | nat (n : Nat) : Plain (.nat n)
  | text (s : String) : Plain (.text s)
  | array {items : List Json} (each : ∀ v ∈ items, Plain v) : Plain (.array items)
  | record {members : List (String × Json)} (each : ∀ m ∈ members, Plain m.2) :
      Plain (.record members)

theorem spellsItems_writePrettyItems {items : List Json} {gap : List Char} (ne : items ≠ [])
    (each : ∀ v ∈ items, ∀ level, Spells v (writePretty level v)) (blank : Blank gap)
    (level : Nat) : SpellsItems items (writePrettyItems level items ++ gap) := by
  induction items with
  | nil => exact absurd rfl ne
  | cons v items ih =>
      obtain ⟨here, others⟩ := List.forall_mem_cons.1 each
      -- Behind the last item comes the gap, behind any other a comma.
      cases items with
      | nil =>
          rw [writePrettyItems_singleton, List.append_assoc]
          exact (here level).spellsItems (blank_newLine level) blank
      | cons w items =>
          have later := ih (List.cons_ne_nil w items) others
          rw [writePrettyItems_cons, List.append_assoc, List.append_assoc, List.cons_append]
          exact later.cons (blank_newLine level) (here level) blank_nil

theorem spellsMembers_writePrettyMembers {members : List (String × Json)} {gap : List Char}
    (ne : members ≠ []) (each : ∀ m ∈ members, ∀ level, Spells m.2 (writePretty level m.2))
    (blank : Blank gap) (level : Nat) :
    SpellsMembers (members.map fun (name, value) => (some name, value))
      (writePrettyMembers level (members.map fun (name, value) => (some name, value)) ++ gap) := by
  have colon : Blank [' '] := by simp [Blank, isSpace]
  induction members with
  | nil => exact absurd rfl ne
  | cons m members ih =>
      obtain ⟨here, others⟩ := List.forall_mem_cons.1 each
      cases members with
      | nil =>
          have last := (here level).spellsMembers m.1 (blank_newLine level) colon blank
          simpa only [List.map_cons, List.map_nil, writePrettyMembers_singleton, List.append_assoc,
            List.cons_append, List.nil_append] using last
      | cons m' members =>
          have later := ih (List.cons_ne_nil m' members) others
          have all := later.cons m.1 (blank_newLine level) colon (here level) blank_nil
          simpa only [List.map_cons, writePrettyMembers_cons, List.append_assoc, List.cons_append,
            List.nil_append] using all

/-- **What is written spells what it is written of**, on every level. -/
theorem Plain.spells_writePretty {v : Json} (plain : Plain v) (level : Nat) :
    Spells v (writePretty level v) := by
  induction plain generalizing level with
  | null => exact spells_null
  | bool b => exact spells_bool b
  | nat n => exact spells_nat n
  | text s => exact spells_text s
  | @array items _ ih =>
      cases items with
      | nil => exact spells_array_nil
      | cons v items =>
          have items := spellsItems_writePrettyItems (List.cons_ne_nil v items) ih
            (blank_newLine level) (level + 1)
          rw [writePretty_array, List.cons_append, List.cons_append]
          exact items.spells_array
  | @record members _ ih =>
      cases members with
      | nil => exact spells_object_nil
      | cons m members =>
          have members := spellsMembers_writePrettyMembers (List.cons_ne_nil m members) ih
            (blank_newLine level) (level + 1)
          rw [Json.record, List.map_cons, writePretty_object, List.cons_append, List.cons_append]
          exact members.spells_object

/-- A text that spells a value is read as that value when it stands alone. -/
theorem Spells.read?_eq {v : Json} {cs : List Char} (spells : Spells v cs) :
    read? (String.ofList cs) = some v := by
  have front := spells.skipSpaces_append []
  have read := spells (2 * cs.length + 2) [] (by omega) .nil
  rw [List.append_nil] at front read
  rw [read?, String.toList_ofList, front, read]
  rfl

/-- **A value reads back from its text.** -/
theorem read?_pretty {v : Json} (plain : Plain v) : read? v.pretty = some v :=
  (plain.spells_writePretty 0).read?_eq

end ProtocolFakes.Json
