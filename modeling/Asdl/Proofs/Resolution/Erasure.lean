/-
Compiling does not look at ranges.

A range is copied into the fault that concerns its part and goes nowhere else,
so two descriptions that agree but for their ranges have the same tree, and the
same faults but for the ranges in them.  A description that was read, written
down and read again agrees with itself in this way: writing it down changes
nothing that compiling can tell.
-/

import Asdl.Proofs.Module.RoundTrip
import Asdl.Proofs.Resolution.Repetition

namespace Asdl

open Resolved (DefinitionId)

def SemanticFault.eraseSpans : SemanticFault → SemanticFault
  | duplicateConstructor sum name _ _ =>
      duplicateConstructor sum name .zero .zero
  | undefinedType definition name _ => undefinedType definition name .zero

def StructuralFault.eraseSpans : StructuralFault → StructuralFault
  | duplicateDefinition name _ previous? =>
      duplicateDefinition name .zero (previous?.map fun _ => .zero)
  | slotCount definition slot expected found =>
      slotCount definition slot expected found
  | shapeMismatch definition => shapeMismatch definition

def Compilation.eraseSpans (compilation : Compilation) : Compilation :=
  { tree := compilation.tree
    faults := compilation.faults.map SemanticFault.eraseSpans }

section Linked

variable (lookup? : String → Option DefinitionId)

theorem Field.map_linked_eraseSpans (fields : List Field) :
    (fields.map eraseSpans).map (linked lookup?) =
      fields.map (linked lookup?) := by
  rw [List.map_map]
  rfl

theorem Constructor.linked_eraseSpans (owner : DefinitionId)
    (constructor : Constructor) :
    constructor.eraseSpans.linked lookup? owner =
      constructor.linked lookup? owner := by
  simp only [linked, eraseSpans, Field.map_linked_eraseSpans]

theorem Body.linked_eraseSpans (owner : DefinitionId) (body : Body) :
    body.eraseSpans.linked lookup? owner = body.linked lookup? owner := by
  cases body with
  | product members =>
      simp only [eraseSpans, linked, Field.map_linked_eraseSpans]
  | sum constructors =>
      have sameConstructors :
          Constructor.linked lookup? owner ∘ Constructor.eraseSpans =
            Constructor.linked lookup? owner :=
        funext (Constructor.linked_eraseSpans lookup? owner)
      simp only [eraseSpans, linked, List.map_map, sameConstructors]

theorem Definition.linked_eraseSpans (index : Nat) (definition : Definition) :
    definition.eraseSpans.linked lookup? index =
      definition.linked lookup? index := by
  simp only [linked, eraseSpans, Field.map_linked_eraseSpans,
    Body.linked_eraseSpans]

theorem Field.faults_eraseSpans (definition : String) (field : Field) :
    field.eraseSpans.faults lookup? definition =
      (field.faults lookup? definition).map SemanticFault.eraseSpans := by
  unfold Field.faults Field.eraseSpans
  cases lookup? field.typeName with
  | none => rfl
  | some id => rfl

theorem Field.flatMap_faults_eraseSpans (definition : String)
    (fields : List Field) :
    (fields.map eraseSpans).flatMap (faults lookup? definition) =
      (fields.flatMap (faults lookup? definition)).map
        SemanticFault.eraseSpans := by
  simp only [List.flatMap_map, List.map_flatMap, Field.faults_eraseSpans]

private theorem Constructor.repeatedFaults_eraseSpans (sum : String)
    (earlier : List Constructor) (constructor : Constructor) :
    Constructor.repeatedFaults sum (earlier.map eraseSpans)
        constructor.eraseSpans =
      (Constructor.repeatedFaults sum earlier constructor).map
        SemanticFault.eraseSpans := by
  have found :
      (earlier.map eraseSpans).find?
          (fun other => other.name == constructor.name) =
        (earlier.find? fun other => other.name == constructor.name).map
          eraseSpans :=
    List.find?_map
  simp only [Constructor.repeatedFaults]
  rw [show constructor.eraseSpans.name = constructor.name from rfl, found]
  cases earlier.find? fun other => other.name == constructor.name with
  | none => rfl
  | some first => rfl

private theorem Constructor.listFaults_eraseSpans (sum : String)
    (earlier constructors : List Constructor) :
    listFaults lookup? sum (earlier.map eraseSpans)
        (constructors.map eraseSpans) =
      (listFaults lookup? sum earlier constructors).map
        SemanticFault.eraseSpans := by
  induction constructors generalizing earlier with
  | nil => rfl
  | cons constructor rest ih =>
      have later := ih (earlier ++ [constructor])
      rw [List.map_append, List.map_singleton] at later
      rw [List.map_cons, listFaults, listFaults, later,
        repeatedFaults_eraseSpans, List.map_append, List.map_append,
        ← Field.flatMap_faults_eraseSpans]
      rfl

theorem Definition.faults_eraseSpans (definition : Definition) :
    definition.eraseSpans.faults lookup? =
      (definition.faults lookup?).map SemanticFault.eraseSpans := by
  obtain ⟨name, body, attributes, nameSpan, span⟩ := definition
  simp only [faults, eraseSpans, List.map_append,
    Field.flatMap_faults_eraseSpans]
  congr 1
  cases body with
  | product members => exact Field.flatMap_faults_eraseSpans lookup? _ _
  | sum constructors =>
      exact Constructor.listFaults_eraseSpans lookup? name [] constructors

end Linked

/-! ### Both passes -/

theorem Definition.map_name_eraseSpans (definitions : List Definition) :
    (definitions.map eraseSpans).map name = definitions.map name := by
  rw [List.map_map]
  rfl

private theorem Definition.mapIdx_linked_eraseSpans
    (lookup? : String → Option DefinitionId) (definitions : List Definition) :
    (definitions.map eraseSpans).mapIdx (linked lookup?) =
      definitions.mapIdx (linked lookup?) := by
  apply List.ext_getElem?
  intro index
  rw [List.getElem?_mapIdx, List.getElem?_mapIdx, List.getElem?_map,
    Option.map_map]
  exact
    congrArg (Option.map · definitions[index]?)
      (funext (linked_eraseSpans lookup? index))

theorem Module.linked_eraseSpans (module : Module) :
    module.eraseSpans.linked = module.linked.eraseSpans := by
  have sameIdentity :
      Definition.listIdentity? (module.definitions.map Definition.eraseSpans) =
        Definition.listIdentity? module.definitions := by
    funext name
    simp only [Definition.listIdentity?, Definition.map_name_eraseSpans]
  simp only [Module.linked, Module.eraseSpans, Compilation.eraseSpans,
    sameIdentity, Definition.listScope, Definition.map_name_eraseSpans,
    List.flatMap_map, List.map_flatMap, Definition.mapIdx_linked_eraseSpans,
    Definition.faults_eraseSpans]

def Definition.FirstRepetition.eraseSpans {definitions : List Definition}
    (repetition : FirstRepetition definitions) :
    FirstRepetition (definitions.map Definition.eraseSpans) :=
  { front := repetition.front.map Definition.eraseSpans
    first := repetition.first.eraseSpans
    middle := repetition.middle.map Definition.eraseSpans
    later := repetition.later.eraseSpans
    behind := repetition.behind.map Definition.eraseSpans
    split := by
      have whole := congrArg (List.map Definition.eraseSpans) repetition.split
      rwa [List.map_append, List.map_append, List.map_cons,
        List.map_cons] at whole
    distinct := by
      have same :=
        Definition.map_name_eraseSpans
          (repetition.front ++ repetition.first :: repetition.middle)
      rw [List.map_append, List.map_cons] at same
      rw [same]
      exact repetition.distinct
    sameName := repetition.sameName }

theorem compile_eraseSpans (module : Module) :
    compile module.eraseSpans =
      ((compile module).map Compilation.eraseSpans).mapError
        StructuralFault.eraseSpans := by
  cases compiled : compile module with
  | ok compilation =>
      obtain ⟨distinct, rfl⟩ := (compile_eq_ok_iff _ _).mp compiled
      refine (compile_eq_ok_iff _ _).mpr ⟨?_, module.linked_eraseSpans.symm⟩
      rw [Module.eraseSpans, Definition.map_name_eraseSpans]
      exact distinct
  | error fault =>
      obtain ⟨repetition, rfl⟩ := (compile_eq_error_iff _ _).mp compiled
      exact (compile_eq_error_iff _ _).mpr ⟨repetition.eraseSpans, rfl⟩

/-- Refused with the same fault up to ranges, or compiled to the same tree with
the same faults up to ranges. -/
inductive SameOutcome :
    Except StructuralFault Compilation →
      Except StructuralFault Compilation → Prop
  | refused {left right : StructuralFault}
      (fault : left.eraseSpans = right.eraseSpans) :
      SameOutcome (.error left) (.error right)
  | compiled {left right : Compilation} (tree : left.tree = right.tree)
      (faults :
        left.faults.map SemanticFault.eraseSpans =
          right.faults.map SemanticFault.eraseSpans) :
      SameOutcome (.ok left) (.ok right)

theorem sameOutcome_of_eraseSpans_eq {left right : Module}
    (same : left.eraseSpans = right.eraseSpans) :
    SameOutcome (compile left) (compile right) := by
  have erased := compile_eraseSpans left
  rw [same, compile_eraseSpans right] at erased
  cases leftCompiled : compile left with
  | error leftFault =>
      cases rightCompiled : compile right with
      | error rightFault =>
          rw [leftCompiled, rightCompiled] at erased
          exact .refused (Except.error.inj erased).symm
      | ok rightCompilation =>
          rw [leftCompiled, rightCompiled] at erased
          cases erased
  | ok leftCompilation =>
      cases rightCompiled : compile right with
      | error rightFault =>
          rw [leftCompiled, rightCompiled] at erased
          cases erased
      | ok rightCompilation =>
          rw [leftCompiled, rightCompiled] at erased
          have sameCompilation := Except.ok.inj erased
          exact
            .compiled (congrArg Compilation.tree sameCompilation).symm
              (congrArg Compilation.faults sameCompilation).symm

theorem Field.listSource_eraseSpans (fields : List Field) :
    listSource (fields.map eraseSpans) = listSource fields := by
  rw [listSource, List.map_map]
  rfl

theorem Constructor.source_eraseSpans (constructor : Constructor) :
    constructor.eraseSpans.source = constructor.source := by
  simp only [source, eraseSpans, List.isEmpty_map,
    Field.listSource_eraseSpans]

theorem Body.source_eraseSpans (body : Body) :
    body.eraseSpans.source = body.source := by
  cases body with
  | product members => exact Field.listSource_eraseSpans members
  | sum constructors =>
      have sameConstructors :
          Constructor.source ∘ Constructor.eraseSpans = Constructor.source :=
        funext Constructor.source_eraseSpans
      simp only [eraseSpans, source, List.map_map, sameConstructors]

theorem Definition.source_eraseSpans (definition : Definition) :
    definition.eraseSpans.source = definition.source := by
  simp only [source, eraseSpans, List.isEmpty_map,
    Field.listSource_eraseSpans, Body.source_eraseSpans]

theorem Module.source_eraseSpans (module : Module) :
    module.eraseSpans.source = module.source := by
  simp only [source, eraseSpans, List.map_map, Function.comp_def,
    Definition.source_eraseSpans]

/-- Descriptions that agree but for their ranges have the same outcome.  So a
description that was read from a source is read again from its own text, writes
the same text again, and has the same outcome. -/
theorem sameOutcome_of_rewritten :
    (∀ left right : Module, left.eraseSpans = right.eraseSpans →
      SameOutcome (compile left) (compile right)) ∧
      ∀ (source : String) (module : Module),
        Module.parse source = .ok module →
          ∃ again, Module.parse module.source = .ok again ∧
            again.source = module.source ∧
            SameOutcome (compile module) (compile again) := by
  refine ⟨fun left right same => sameOutcome_of_eraseSpans_eq same, ?_⟩
  intro source module parsed
  obtain ⟨again, parsedAgain, same⟩ :=
    (Module.printable_of_parse parsed).exists_parse
  refine ⟨again, parsedAgain, ?_, sameOutcome_of_eraseSpans_eq same.symm⟩
  rw [← Module.source_eraseSpans again, same, Module.source_eraseSpans]

/-- Little layout, a comment with a character of two bytes, a constructor that
comes twice and a type that nobody defines. -/
def Module.crampedText : String :=
  "module M -- ü\n\x7b a=B|B(c*) \x7d"

def Module.cramped : Module :=
  { name := "M"
    definitions :=
      [{ name := "a"
         body :=
           .sum
             [{ name := "B"
                members := []
                span := ⟨19, 20⟩ },
              { name := "B"
                members :=
                  [{ typeName := "c"
                     cardinality := .sequence
                     name? := none
                     span := ⟨23, 25⟩ }]
                span := ⟨21, 26⟩ }]
         attributes := []
         nameSpan := ⟨17, 18⟩
         span := ⟨17, 26⟩ }]
    span := ⟨0, 28⟩ }

theorem sameOutcome_cramped :
    SameOutcome (compile Module.cramped) (compile Module.cramped.eraseSpans) ∧
      Module.parse Module.crampedText = .ok Module.cramped ∧
      ∃ again,
        Module.parse "module M \x7b\n    a = B | B(c*)\n\x7d\n" =
            .ok again ∧
          again.source = Module.cramped.source ∧
          SameOutcome (compile Module.cramped) (compile again) := by
  have parsed : Module.parse Module.crampedText = .ok Module.cramped := by
    decide +kernel
  have written :
      Module.cramped.source = "module M \x7b\n    a = B | B(c*)\n\x7d\n" := by
    decide +kernel
  have erased :
      Module.cramped.eraseSpans = Module.cramped.eraseSpans.eraseSpans :=
    rfl
  obtain ⟨spanBlind, rewritten⟩ := sameOutcome_of_rewritten
  obtain ⟨again, parsedAgain, rest⟩ := rewritten _ _ parsed
  rw [written] at parsedAgain
  exact ⟨spanBlind _ _ erased, parsed, again, parsedAgain, rest⟩

end Asdl
