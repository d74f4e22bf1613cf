import ProtocolFakes.Proofs.Fake.Header
import ProtocolFakes.Proofs.Fake.Stem
import ProtocolFakes.Proofs.Selector.WriteBack
import Mathlib.Data.List.Pairwise

/-!
# When recorded names clash

Stems are given out once, but a name is a stem with something behind it: the words for
the count of calls and for the value to return, or the word for an argument with the
capitalized name of a parameter.  So distinct stems do not make distinct names.  Two
names of one method are the same if two of its parameters have the same name in
capitals, and two names of different methods are the same if the name of a parameter
of one of them continues into the stem of the other (`MethodPlan.Overlaps`).

Nothing else makes names clash: `nodup_names_iff`.  The names of parameters being
distinct is not enough: `recorded_names_may_clash`.
-/

namespace ProtocolFakes

set_option autoImplicit false

/-! ## Behind the stem -/

/-- What stands behind a stem in the name of a property. -/
inductive Ending : List Char → Prop where
  | callCount : Ending "CallCount".toList
  | argument (parameter : List Char) : Ending ("Arg".toList ++ parameter)
  | returns : Ending "Returns".toList

/-- **An ending inside another stands behind the word for an argument.** The word for a
count of calls and that for a returned value have no other ending in them. -/
theorem Ending.inside {front outer inner : List Char} (whole : Ending outer) (part : Ending inner)
    (split : outer = front ++ inner) (ne : front ≠ []) :
    ∃ word, front = "Arg".toList ++ word := by
  have shorter : inner.length < outer.length := by
    rw [split, List.length_append]
    have := List.length_pos_of_ne_nil ne
    omega
  have subset : inner ⊆ outer := by
    rw [split]
    exact List.subset_append_right ..
  cases whole with
  | callCount =>
      cases part with
      | callCount => exact absurd shorter (by decide)
      | argument parameter => exact absurd (subset (List.mem_cons_self ..)) (by decide)
      | returns => exact absurd (subset (List.mem_cons_self ..)) (by decide)
  | returns =>
      cases part with
      | callCount => exact absurd (subset (List.mem_cons_self ..)) (by decide)
      | argument parameter => exact absurd (subset (List.mem_cons_self ..)) (by decide)
      | returns => exact absurd shorter (by decide)
  | argument parameter =>
      -- The inner ending begins with a capital, so not within the word for an argument.
      match front, ne, split with
      | [_], _, split => cases part <;> simp at split
      | [_, _], _, split => cases part <;> simp at split
      | a :: b :: c :: word, _, split =>
          obtain ⟨rfl, rfl, rfl, -⟩ : 'A' = a ∧ 'r' = b ∧ 'g' = c ∧ parameter = word ++ inner := by
            simpa using split
          exact ⟨word, rfl⟩

namespace MethodPlan

/-- What stands behind the stem in the recorded names of a method. -/
def endings (plan : MethodPlan) : List String :=
  ["CallCount"] ++ plan.method.selector.parameters.map ("Arg" ++ capitalized ·.name) ++
    (if storageOf plan.method.selector.returnType = .void then [] else ["Returns"])

/-- Every recorded name of a method is its stem with an ending. -/
theorem recordedNames_eq {plan : MethodPlan} {stem : String} (found : plan.stem = some stem) :
    plan.recordedNames = plan.endings.map (stem ++ ·) := by
  unfold recordedNames endings
  rw [found]
  dsimp only
  split <;> simp [callCountName, argumentName, returnsName, String.append_assoc]

theorem mem_endings_iff {plan : MethodPlan} {ending : String} :
    ending ∈ plan.endings ↔ ending = "CallCount" ∨
      (∃ q ∈ plan.method.selector.parameters, ending = "Arg" ++ capitalized q.name) ∨
      storageOf plan.method.selector.returnType ≠ .void ∧ ending = "Returns" := by
  unfold endings
  split <;> simp_all [eq_comm]

theorem ending_of_mem_endings {plan : MethodPlan} {ending : String}
    (member : ending ∈ plan.endings) : Ending ending.toList := by
  rcases mem_endings_iff.1 member with rfl | ⟨q, -, rfl⟩ | ⟨-, rfl⟩
  · exact .callCount
  · rw [String.toList_append]
    exact .argument _
  · exact .returns

/-- The endings of a method are distinct exactly if the capitalized names of its
parameters are. -/
theorem nodup_endings_iff (plan : MethodPlan) :
    plan.endings.Nodup ↔ (plan.method.selector.parameters.map (capitalized ·.name)).Nodup := by
  have behind : Function.Injective ("Arg" ++ ·) := fun _ _ => (String.append_right_inj "Arg").1
  have arguments : plan.method.selector.parameters.map ("Arg" ++ capitalized ·.name) =
      (plan.method.selector.parameters.map (capitalized ·.name)).map ("Arg" ++ ·) := by
    rw [List.map_map]
    rfl
  have counted (name : String) : "Arg" ++ name ≠ "CallCount" := by
    simp [← String.toList_inj]
  have returned (name : String) : "Arg" ++ name ≠ "Returns" := by
    simp [← String.toList_inj]
  have returns : (if storageOf plan.method.selector.returnType = .void then []
      else ["Returns"]).Nodup := by
    split <;> simp
  rw [endings, arguments, List.singleton_append, List.cons_append, List.nodup_cons,
    List.nodup_append, List.nodup_map_iff behind]
  refine ⟨fun distinct => distinct.2.1, fun distinct => ⟨?_, distinct, returns, ?_⟩⟩
  · split <;> simp [counted]
  · split <;> simp [returned]

/-! ## Names of two methods -/

/-- A method overlaps another if the stem of the other is its own stem, the word for an
argument and the beginning of the name of one of its parameters, of which the rest is
what the other has behind its stem. -/
def Overlaps (a b : MethodPlan) : Prop :=
  ∃ stem word, a.stem = some stem ∧ b.stem = some (stem ++ "Arg" ++ word) ∧
    ∃ q ∈ a.method.selector.parameters, ∃ ending ∈ b.endings,
      capitalized q.name = word ++ ending

/-- A method that overlaps another records under a name of it. -/
theorem Overlaps.not_disjoint {a b : MethodPlan} (overlaps : a.Overlaps b) :
    ¬ a.recordedNames.Disjoint b.recordedNames := by
  obtain ⟨stem, word, found, continued, q, member, ending, behind, same⟩ := overlaps
  rw [recordedNames_eq found, recordedNames_eq continued]
  intro disjoint
  refine disjoint (List.mem_map_of_mem (mem_endings_iff.2 (.inr (.inl ⟨q, member, rfl⟩)))) ?_
  rw [same, ← String.append_assoc, ← String.append_assoc]
  exact List.mem_map_of_mem behind

/-- A method overlaps another if it has a name of the other and the stem of the other is
longer. -/
theorem overlaps_of_append {a b : MethodPlan} {stem longer ending other : String}
    {rest : List Char} (found : a.stem = some stem) (continued : b.stem = some longer)
    (here : ending ∈ a.endings) (there : other ∈ b.endings)
    (stems : longer.toList = stem.toList ++ rest) (endings : ending.toList = rest ++ other.toList)
    (ne : stem ≠ longer) : a.Overlaps b := by
  have some : rest ≠ [] := by
    rintro rfl
    exact ne (String.toList_inj.1 (by rw [stems, List.append_nil]))
  obtain ⟨word, rfl⟩ :=
    (ending_of_mem_endings here).inside (ending_of_mem_endings there) endings some
  have argument : ∃ q ∈ a.method.selector.parameters, ending = "Arg" ++ capitalized q.name := by
    rcases mem_endings_iff.1 here with rfl | argument | ⟨-, rfl⟩
    · exact absurd endings (by simp)
    · exact argument
    · exact absurd endings (by simp)
  obtain ⟨q, member, rfl⟩ := argument
  refine ⟨stem, String.ofList word, found, ?_, q, member, other, there, ?_⟩
  · rw [continued]
    exact congrArg _ (String.toList_inj.1 (by simp [stems]))
  · exact String.toList_inj.1 (by simpa using endings)

/-- **Two methods with different stems share no name exactly if neither overlaps the
other.** -/
theorem disjoint_recordedNames_iff {a b : MethodPlan}
    (distinct : ∀ stem ∈ a.stem, stem ∉ b.stem) :
    a.recordedNames.Disjoint b.recordedNames ↔ ¬ a.Overlaps b ∧ ¬ b.Overlaps a := by
  refine ⟨fun disjoint => ⟨fun overlaps => overlaps.not_disjoint disjoint,
    fun overlaps => overlaps.not_disjoint fun _ here there => disjoint there here⟩, ?_⟩
  rintro ⟨forward, backward⟩ name here there
  cases found : a.stem with
  | none => simp [recordedNames, found] at here
  | some stem =>
      cases other : b.stem with
      | none => simp [recordedNames, other] at there
      | some stem' =>
          have ne : stem ≠ stem' := by
            rintro rfl
            exact distinct stem found other
          rw [recordedNames_eq found] at here
          rw [recordedNames_eq other] at there
          obtain ⟨ending, inside, rfl⟩ := List.mem_map.1 here
          obtain ⟨ending', inside', same⟩ := List.mem_map.1 there
          have split : stem.toList ++ ending.toList = stem'.toList ++ ending'.toList := by
            rw [← String.toList_append, ← String.toList_append, same]
          rcases List.append_eq_append_iff.1 split with
            ⟨rest, stems, endings⟩ | ⟨rest, stems, endings⟩
          · exact forward (overlaps_of_append found other inside inside' stems endings ne)
          · exact backward (overlaps_of_append other found inside' inside stems endings ne.symm)

/-- A stem is not longer than itself, so no method overlaps itself. -/
theorem not_overlaps_self (plan : MethodPlan) : ¬ plan.Overlaps plan := by
  rintro ⟨stem, word, found, continued, -⟩
  have same := congrArg String.length (Option.some.inj (found.symm.trans continued))
  have word : "Arg".length = 3 := by decide
  rw [String.length_append, String.length_append] at same
  omega

/-- The names of a method are distinct exactly if it records none or the capitalized names
of its parameters are. -/
theorem nodup_recordedNames_iff (plan : MethodPlan) :
    plan.recordedNames.Nodup ↔ (plan.stem.isSome →
      (plan.method.selector.parameters.map (capitalized ·.name)).Nodup) := by
  cases found : plan.stem with
  | none => simp [recordedNames, found]
  | some stem =>
      have behind : Function.Injective (stem ++ ·) := fun _ _ => (String.append_right_inj stem).1
      rw [recordedNames_eq found, List.nodup_map_iff behind, nodup_endings_iff]
      simp

end MethodPlan

/-! ## Names of a protocol -/

/-- No two methods share a name exactly if none overlaps another. -/
theorem pairwise_disjoint_recordedNames_iff (p : Protocol) :
    (p.plan.Pairwise fun a b => a.recordedNames.Disjoint b.recordedNames) ↔
      ∀ a ∈ p.plan, ∀ b ∈ p.plan, ¬ a.Overlaps b := by
  constructor
  · intro disjoint a here b there
    have apart : p.plan.Pairwise fun a b => ¬ a.Overlaps b ∧ ¬ b.Overlaps a := by
      refine (disjoint.and (pairwise_stem_ne p)).imp ?_
      rintro a b ⟨disjoint, distinct⟩
      exact (MethodPlan.disjoint_recordedNames_iff distinct).1 disjoint
    have symmetric : Std.Symm fun a b : MethodPlan => ¬ a.Overlaps b ∧ ¬ b.Overlaps a :=
      ⟨fun _ _ both => both.symm⟩
    have itself : ∀ plan ∈ p.plan, ¬ plan.Overlaps plan ∧ ¬ plan.Overlaps plan :=
      fun plan _ => ⟨plan.not_overlaps_self, plan.not_overlaps_self⟩
    exact (List.Pairwise.forall_of_forall itself apart here there).1
  · intro apart
    refine (pairwise_stem_ne p).imp_of_mem fun here there distinct => ?_
    exact (MethodPlan.disjoint_recordedNames_iff distinct).2
      ⟨apart _ here _ there, apart _ there _ here⟩

/-- **When the properties of a fake have distinct names.** The header declares the
properties of the plan; their names are distinct exactly if in each instance method the
names of the parameters are still distinct when they are capitalized, and no method
overlaps another. -/
theorem nodup_names_iff (config : FakeConfig) (p : Protocol) (protocolHeader : String) :
    (headerLines config p (config.classPrefix ++ p.name) protocolHeader).filter isPropertyLine =
        (p.plan.flatMap (·.properties)).map (·.line config.assumeNonnull) ∧
      (((p.plan.flatMap (·.properties)).map (·.name)).Nodup ↔
        (∀ m ∈ p.methods, m.kind = .instanceMethod →
          (m.selector.parameters.map (capitalized ·.name)).Nodup) ∧
        ∀ a ∈ p.plan, ∀ b ∈ p.plan, ¬ a.Overlaps b) := by
  refine ⟨filter_isPropertyLine_headerLines .., ?_⟩
  rw [List.map_flatMap, List.flatMap_congr fun plan _ => plan.map_name_properties,
    List.nodup_flatMap]
  refine and_congr ?_ (pairwise_disjoint_recordedNames_iff p)
  rw [← p.map_method_plan, List.forall_mem_map]
  refine forall₂_congr fun plan member => ?_
  rw [plan.nodup_recordedNames_iff, isSome_stem_iff member]

/-- A method whose two parameters have names that differ in the case of their first
letter. -/
def fooBarSource : String := "- (void)foo:(id)name bar:(id)Name;"

/-- The selector of that method. -/
def fooBarSelector : Selector :=
  ⟨[⟨"foo", true, .clamped 8 12⟩, ⟨"bar", true, .clamped 21 12⟩],
    [⟨"id", "name", .clamped 12 8⟩, ⟨"id", "Name", .clamped 25 8⟩], "void", .clamped 0 33⟩

/-- Distinct names of parameters are not enough: two names that are the same when they are
capitalized make one property twice. -/
theorem recorded_names_may_clash :
    ¬ ∀ p : Protocol,
      (∀ m ∈ p.methods, ∃ source,
        Selector.ofTokens (tokenize source 0) = .ok (m.kind, m.selector)) →
      (∀ m ∈ p.methods, (m.selector.parameters.map (·.name)).Nodup) →
      ((p.plan.flatMap (·.properties)).map (·.name)).Nodup := by
  intro everyProtocol
  have read : Selector.ofTokens (tokenize fooBarSource 0) =
      .ok (.instanceMethod, fooBarSelector) := by
    decide +kernel
  have names := everyProtocol
    ⟨"P", [], [⟨.instanceMethod, fooBarSelector, false⟩], .clamped 0 0⟩
    (List.forall_mem_singleton.2 ⟨fooBarSource, read⟩) (List.forall_mem_singleton.2 (by decide))
  revert names
  decide +kernel

end ProtocolFakes
