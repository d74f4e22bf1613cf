import ProtocolFakes.Fake.Plan
import ProtocolFakes.Proofs.FreshName

/-!
# Stems of the methods of a fake

A stem is given out once (`nodup_allocateStems`).  The plan of a protocol has one entry
for each of its methods, in order; those of instance methods have the stems that the
selectors of the instance methods are given in turn, and those of class methods have
none.
-/

namespace ProtocolFakes

set_option autoImplicit false

/-! ## Allocation -/

/-- A stem that is given out is not in use. -/
theorem freeStem_not_mem (used : List String) (stem : String) : freeStem used stem ∉ used := by
  unfold freeStem
  split
  · exact firstFree_not_mem used stem 2
  · rename_i free
    simpa using free

/-- No stem that is given out was in use before. -/
theorem not_mem_of_mem_allocateStems {used : List String} {ss : List Selector} {stem : String}
    (member : stem ∈ allocateStems used ss) : stem ∉ used := by
  induction ss generalizing used with
  | nil => cases member
  | cons s ss ih =>
      rcases List.mem_cons.1 member with rfl | later
      · exact freeStem_not_mem used s.stem
      · exact fun inUse => ih later (List.mem_cons_of_mem _ inUse)

/-- **No stem is given out twice.** -/
theorem nodup_allocateStems (used : List String) (ss : List Selector) :
    (allocateStems used ss).Nodup := by
  induction ss generalizing used with
  | nil => exact List.nodup_nil
  | cons s ss ih =>
      refine List.nodup_cons.2 ⟨?_, ih _⟩
      intro again
      exact not_mem_of_mem_allocateStems again (List.mem_cons_self ..)

/-! ## The plan -/

/-- There is a plan for each method, in order. -/
theorem map_method_planFrom (used : List String) (ms : List ProtocolMethod) :
    (planFrom used ms).map (·.method) = ms := by
  fun_induction planFrom used ms with
  | case1 => rfl
  | case2 used m ms kind stem ih => rw [List.map_cons, ih]
  | case3 used m ms kind ih => rw [List.map_cons, ih]

/-- **The plan of a protocol has its methods**, in order. -/
theorem Protocol.map_method_plan (p : Protocol) : p.plan.map (·.method) = p.methods :=
  map_method_planFrom [] p.methods

/-- The stems of a plan are those given to the selectors of the instance methods. -/
theorem filterMap_stem_planFrom (used : List String) (ms : List ProtocolMethod) :
    (planFrom used ms).filterMap (·.stem) =
      allocateStems used ((ms.filter (·.kind = .instanceMethod)).map (·.selector)) := by
  fun_induction planFrom used ms with
  | case1 => rfl
  | case2 used m ms kind stem ih => simp [kind, ih, allocateStems, stem]
  | case3 used m ms kind ih => simp [kind, ih]

/-- A plan has a stem exactly if its method is one of instances. -/
theorem isSome_stem_iff {used : List String} {ms : List ProtocolMethod} {plan : MethodPlan}
    (member : plan ∈ planFrom used ms) :
    plan.stem.isSome ↔ plan.method.kind = .instanceMethod := by
  fun_induction planFrom used ms with
  | case1 => cases member
  | case2 used m ms kind stem ih =>
      rcases List.mem_cons.1 member with rfl | later
      · simp [kind]
      · exact ih later
  | case3 used m ms kind ih =>
      rcases List.mem_cons.1 member with rfl | later
      · simp [kind]
      · exact ih later

/-- Two plans with stems at different places have different stems. -/
theorem pairwise_stem_ne (p : Protocol) :
    p.plan.Pairwise fun a b => ∀ stem ∈ a.stem, stem ∉ b.stem := by
  have distinct := nodup_allocateStems []
    ((p.methods.filter (·.kind = .instanceMethod)).map (·.selector))
  rw [← filterMap_stem_planFrom, List.Nodup, List.pairwise_filterMap] at distinct
  refine distinct.imp ?_
  intro a b different stem here there
  exact different stem here stem there rfl

end ProtocolFakes
