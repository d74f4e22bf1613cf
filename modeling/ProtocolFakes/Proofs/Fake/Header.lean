import ProtocolFakes.Fake

/-!
# The properties in the header of a fake

A line of the header declares a property exactly if a plan of the protocol asks for
one: the frame of the header, from its imports to its last line, has no line that
begins like the declaration of a property (`filter_isPropertyLine_headerLines`).  In
the line that declares a property its name stands in one place, which is decided by
the type alone (`RecordingProperty.exists_line_eq`).  The names of a method's properties
are listed by `MethodPlan.recordedNames`.
-/

namespace ProtocolFakes

set_option autoImplicit false

/-! ## The line of a property -/

/-- What the declaration of a property begins with. -/
def propertyKeyword : String := "@property "

/-- Whether a line declares a property. -/
def isPropertyLine (line : String) : Bool := propertyKeyword.toList.isPrefixOf line.toList

theorem isPropertyLine_append (rest : String) :
    isPropertyLine (propertyKeyword ++ rest) = true := by
  rw [isPropertyLine, String.toList_append, List.isPrefixOf_iff_prefix]
  exact List.prefix_append ..

/-- A line that begins with a word other than the keyword does not declare a property. -/
theorem isPropertyLine_append_eq_false {word : String} (rest : String)
    (other : isPropertyLine word = false)
    (longer : word.toList.isPrefixOf propertyKeyword.toList = false) :
    isPropertyLine (word ++ rest) = false := by
  rw [isPropertyLine, ← Bool.not_eq_true, List.isPrefixOf_iff_prefix] at *
  rw [String.toList_append]
  intro declares
  exact (List.prefix_or_prefix_of_prefix declares (List.prefix_append ..)).elim other longer

/-- A name stands in one place of its declarator, which is decided by the type. -/
theorem exists_declarator_eq (spelling : List Char) :
    ∃ front back, ∀ name, declarator spelling name = front ++ name ++ back := by
  have plain : ∃ front back, ∀ name : List Char,
      (if spelling.getLast? = some '*' then spelling ++ name else spelling ++ ' ' :: name) =
        front ++ name ++ back := by
    split
    · exact ⟨spelling, [], fun name => by simp⟩
    · exact ⟨spelling ++ [' '], [], fun name => by simp⟩
  unfold declarator
  cases Text.splitAtFirst? "(^".toList spelling with
  | none => exact plain
  | some parts =>
      obtain ⟨before, after⟩ := parts
      cases closing : Text.splitAtFirst? [')'] after with
      | none => simpa only [closing] using plain
      | some ends =>
          obtain ⟨qualifiers, rest⟩ := ends
          simp only [closing]
          -- The name stands behind the caret, or behind the qualifiers that are there.
          by_cases bare : (Text.trim qualifiers).isEmpty
          · exact ⟨before ++ "(^".toList, ')' :: rest, fun name => by simp [bare]⟩
          · exact ⟨before ++ "(^".toList ++ (Text.trim qualifiers ++ [' ']), ')' :: rest,
              fun name => by simp [bare]⟩

namespace RecordingProperty

/-- **The line of a property holds its name in one place**, and what stands before and
behind it follows from the type and from who sets the property. -/
theorem exists_line_eq (assumeNonnull : Bool) (typeName : String) (isReadonly : Bool) :
    ∃ front back, ∀ name, line assumeNonnull ⟨typeName, name, isReadonly⟩ =
      propertyKeyword ++ front ++ name ++ back := by
  obtain ⟨front, back, inserted⟩ := exists_declarator_eq (propertySpelling typeName.toList)
  refine ⟨"(" ++ ", ".intercalate (attributes assumeNonnull ⟨typeName, "", isReadonly⟩) ++ ") " ++
    String.ofList front, String.ofList back ++ ";", fun name => ?_⟩
  have opening : "@property (" = propertyKeyword ++ "(" := by decide
  simp only [line, inserted, opening, String.ofList_append, String.ofList_toList,
    String.append_assoc]
  rfl

theorem isPropertyLine_line (assumeNonnull : Bool) (p : RecordingProperty) :
    isPropertyLine (p.line assumeNonnull) = true := by
  obtain ⟨front, back, same⟩ := exists_line_eq assumeNonnull p.typeName p.isReadonly
  rw [show p.line assumeNonnull = _ from same p.name, String.append_assoc, String.append_assoc]
  exact isPropertyLine_append _

end RecordingProperty

/-! ## Names -/

namespace MethodPlan

/-- The names under which a method records: the count of its calls, its arguments in
order, and what it returns unless that is nothing. -/
def recordedNames (plan : MethodPlan) : List String :=
  match plan.stem with
  | none => []
  | some stem =>
      [callCountName stem] ++ plan.method.selector.parameters.map (argumentName stem ·.name) ++
        (if storageOf plan.method.selector.returnType = .void then [] else [returnsName stem])

/-- The properties of a method are declared under the names under which it records. -/
theorem map_name_properties (plan : MethodPlan) :
    plan.properties.map (·.name) = plan.recordedNames := by
  unfold properties recordedNames
  cases plan.stem with
  | none => rfl
  | some stem =>
      dsimp only
      split <;> simp

end MethodPlan

/-! ## The lines of the header -/

/-- The lines of a method that declare properties are those of its properties. -/
theorem MethodPlan.filter_isPropertyLine_headerLines (assumeNonnull : Bool) (plan : MethodPlan) :
    (plan.headerLines assumeNonnull).filter isPropertyLine =
      plan.properties.map (·.line assumeNonnull) := by
  cases stem : plan.stem with
  | none => simp [headerLines, properties, stem]
  | some s =>
      have blank : isPropertyLine "" = false := by decide
      have all : ∀ line ∈ plan.properties.map (·.line assumeNonnull),
          isPropertyLine line = true := by
        simp only [List.mem_map]
        rintro line ⟨property, -, rfl⟩
        exact property.isPropertyLine_line assumeNonnull
      rw [headerLines, stem, List.filter_cons_of_neg (by simp [blank]),
        List.filter_eq_self.2 all]

/-- **The header declares the properties of the plan and no other**, in order. -/
theorem filter_isPropertyLine_headerLines (config : FakeConfig) (p : Protocol)
    (className protocolHeader : String) :
    (headerLines config p className protocolHeader).filter isPropertyLine =
      (p.plan.flatMap (·.properties)).map (·.line config.assumeNonnull) := by
  have imports (line : String) : isPropertyLine ("#import " ++ line) = false :=
    isPropertyLine_append_eq_false line (by decide) (by decide)
  have interface (line : String) : isPropertyLine ("@interface " ++ line) = false :=
    isPropertyLine_append_eq_false line (by decide) (by decide)
  have imported (lines : List String) :
      (lines.map ("#import " ++ ·)).filter isPropertyLine = [] := by
    simp [List.filter_eq_nil_iff, imports]
  have opening : (if config.assumeNonnull then ["NS_ASSUME_NONNULL_BEGIN", ""] else []).filter
      isPropertyLine = [] := by
    split <;> decide
  have closing : (if config.assumeNonnull then ["", "NS_ASSUME_NONNULL_END"] else []).filter
      isPropertyLine = [] := by
    split <;> decide
  have methods : (p.plan.flatMap (·.headerLines config.assumeNonnull)).filter isPropertyLine =
      (p.plan.flatMap (·.properties)).map (·.line config.assumeNonnull) := by
    simp only [List.filter_flatMap, List.map_flatMap,
      MethodPlan.filter_isPropertyLine_headerLines]
  have first : ["#import <Foundation/Foundation.h>", "#import \"" ++ protocolHeader ++ "\""].filter
      isPropertyLine = [] := by
    have header : isPropertyLine ("#import \"" ++ (protocolHeader ++ "\"")) = false :=
      isPropertyLine_append_eq_false _ (by decide) (by decide)
    have foundation : isPropertyLine "#import <Foundation/Foundation.h>" = false := by decide
    simp only [String.append_assoc, List.filter_cons, header, foundation]
    rfl
  have named : ["@interface " ++ className ++ " : " ++ config.superclass ++ " <" ++ p.name ++
      ">"].filter isPropertyLine = [] := by
    simp only [String.append_assoc, List.filter_cons, interface]
    rfl
  simp only [headerLines, List.filter_append, first, imported, opening, closing, methods, named,
    show [""].filter isPropertyLine = [] by decide,
    show ["", "@end"].filter isPropertyLine = [] by decide, List.nil_append, List.append_nil]

end ProtocolFakes
