import ProtocolFakes.Proofs.Selector.EditStep
import ProtocolFakes.Proofs.Selector.Reading
import ProtocolFakes.Selector.Record

/-!
# Reachable selectors

A selector comes into being in three ways: from fields, from a record and from
the tokens of a declaration.  All three pass through the checks of
`Selector.ofFields`, so every selector starts well formed (`Built.wellFormed`).
Edits do not ask those checks again.  They need not: what they leave passes them
(`wellFormed_of_run`).
-/

namespace ProtocolFakes.Selector

set_option autoImplicit false

/-- A selector as it comes into being. -/
inductive Built (s : Selector) : Prop where
  | fields {components : List SelectorComponent} {parameters : List Parameter}
      {returnType : String} {range : SourceRange}
      (accepted : ofFields components parameters returnType range = .ok s) : Built s
  | record {v : Json} (accepted : ofJson? v = some (.ok s)) : Built s
  | source {tokens : List Token} {kind : MethodKind}
      (accepted : ofTokens tokens = .ok (kind, s)) : Built s

/-- A record leads through the checks. -/
theorem exists_ofFields_of_ofJson? {v : Json} {s : Selector} (accepted : ofJson? v = some (.ok s)) :
    ∃ components parameters returnType range,
      ofFields components parameters returnType range = .ok s := by
  unfold ofJson? at accepted
  obtain ⟨fields, -, accepted⟩ := Option.bind_eq_some_iff.1 accepted
  split at accepted
  · obtain ⟨components, -, accepted⟩ := Option.bind_eq_some_iff.1 accepted
    obtain ⟨parameters, -, accepted⟩ := Option.bind_eq_some_iff.1 accepted
    obtain ⟨returnType, -, accepted⟩ := Option.bind_eq_some_iff.1 accepted
    obtain ⟨range, -, accepted⟩ := Option.bind_eq_some_iff.1 accepted
    exact ⟨components, parameters, returnType, range, Option.some.inj accepted⟩
  · cases accepted

/-- **A selector starts well formed**, whichever way it came into being. -/
theorem Built.wellFormed {s : Selector} (built : Built s) : s.WellFormed := by
  cases built with
  | fields accepted => exact (ofFields_eq_ok_iff.1 accepted).2
  | record accepted =>
      obtain ⟨_, _, _, _, accepted⟩ := exists_ofFields_of_ofJson? accepted
      exact (ofFields_eq_ok_iff.1 accepted).2
  | source accepted =>
      obtain ⟨tree, _, _, _, accepted, _⟩ := ofTokens_eq_ok_iff.1 accepted
      exact (ofFields_eq_ok_iff.1 accepted).2

/-- **Every reachable selector is well formed.** The selector that a run of edits
leaves passes every check that it would have had to pass as a new one, and it
still has the return type and the range that the run started from. -/
theorem wellFormed_of_run {s e : Selector} {edits : List SelectorEdit} (built : Built s)
    (run : s.applyAll edits = .ok e) :
    e.WellFormed ∧ ofFields e.components e.parameters e.returnType e.range = .ok e ∧
      e.returnType = s.returnType ∧ e.range = s.range := by
  have formed : e.WellFormed := built.wellFormed.applyAll run
  exact ⟨formed, ofFields_eq_ok_iff.2 ⟨rfl, formed⟩, applyAll_keeps run⟩

/-- A bare keyword that becomes an argument, is moved and loses its neighbour. -/
theorem wellFormed_of_run_reset :
    ∃ s e : Selector,
      ofFields [⟨"reset", false, .clamped 8 5⟩] [] "void" (.clamped 0 13) = .ok s ∧
        s.applyAll [.insert 1, .rename 1 "to", .swap 0 1, .insert 0, .delete 2] = .ok e ∧
        e.components.map (·.spelling) = [":", "to:"] ∧ e.WellFormed := by
  have made : ofFields [⟨"reset", false, .clamped 8 5⟩] [] "void" (.clamped 0 13) = .ok _ := rfl
  have run : applyAll ⟨[⟨"reset", false, .clamped 8 5⟩], [], "void", .clamped 0 13⟩
      [.insert 1, .rename 1 "to", .swap 0 1, .insert 0, .delete 2] = .ok _ := rfl
  exact ⟨_, _, made, run, by decide, (wellFormed_of_run (.fields made) run).1⟩

end ProtocolFakes.Selector
