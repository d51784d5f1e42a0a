/-
What compiling reports about a module, in which order, and what a clean report
means.

The reports are said here without a scope and without the order of the passes:
a type is undefined when neither a definition nor a built-in type has its name,
and a constructor is a repetition when its name stands among the constructors
in front of it.  A field of the tree points at the stand-in exactly when its
type was reported.
-/

import Mathlib.Data.List.Nodup
import Asdl.Proofs.Resolution.Compiled
import Asdl.Tree.Site

namespace Asdl

open Resolved (DefinitionId)

/-- A definition of the module or a built-in type has the name. -/
def Module.Knows (module : Module) (name : String) : Prop :=
  name ∈ module.definitions.map Definition.name ∨
    name ∈ Resolved.Builtin.names

instance (module : Module) (name : String) : Decidable (module.Knows name) :=
  inferInstanceAs (Decidable (_ ∨ _))

/-- One report for each field whose type is unknown. -/
def Module.undefinedTypes (module : Module) (definition : String)
    (fields : List Field) : List SemanticFault :=
  (fields.filter fun field => ¬ module.Knows field.typeName).map fun field =>
    .undefinedType definition field.typeName field.span

/-- The report for the constructor at a place of a sum, if a constructor in
front of it has its name.  It points back to the first one of the name. -/
def Constructor.repetition (sum : String) (constructors : List Constructor)
    (index : Nat) (constructor : Constructor) : List SemanticFault :=
  if constructor.name ∈ (constructors.take index).map Constructor.name then
    (constructors.find? fun other =>
        other.name == constructor.name).toList.map fun first =>
      .duplicateConstructor sum constructor.name constructor.span first.span
  else
    []

/-- Everything to report about one definition: first its attributes, and then
its members, or its constructors with their members in turn. -/
def Module.reports (module : Module) (definition : Definition) :
    List SemanticFault :=
  module.undefinedTypes definition.name definition.attributes ++
    match definition.body with
    | .product members => module.undefinedTypes definition.name members
    | .sum constructors =>
        (constructors.mapIdx fun index constructor =>
          Constructor.repetition definition.name constructors index
              constructor ++
            module.undefinedTypes definition.name
              constructor.members).flatten

section Reports

variable (module : Module)

theorem Module.listIdentity?_eq_none_iff (name : String) :
    Definition.listIdentity? module.definitions name = none ↔
      ¬ module.Knows name := by
  rw [Definition.listIdentity?, Option.or_eq_none_iff, Option.map_eq_none_iff,
    Option.map_eq_none_iff, List.idxOf?_eq_none_iff, List.idxOf?_eq_none_iff,
    Module.Knows, not_or]

theorem Module.flatMap_faults (definition : String) (fields : List Field) :
    fields.flatMap
        (Field.faults (Definition.listIdentity? module.definitions)
          definition) =
      module.undefinedTypes definition fields := by
  induction fields with
  | nil => rfl
  | cons field rest ih =>
      have unknown := module.listIdentity?_eq_none_iff field.typeName
      rw [List.flatMap_cons, ih]
      unfold Field.faults Module.undefinedTypes
      cases found :
          Definition.listIdentity? module.definitions field.typeName with
      | none =>
          have absent := unknown.mp found
          simp only [List.filter_cons, absent, not_false_eq_true, decide_true,
            if_true, List.map_cons, List.singleton_append]
      | some id =>
          have known : module.Knows field.typeName := by
            by_contra absent
            rw [unknown.mpr absent] at found
            cases found
          simp only [List.filter_cons, known, not_true_eq_false, decide_false,
            Bool.false_eq_true, if_false, List.nil_append]

theorem Constructor.repeatedFaults_eq_nil_iff (sum : String)
    (earlier : List Constructor) (constructor : Constructor) :
    Constructor.repeatedFaults sum earlier constructor = [] ↔
      constructor.name ∉ earlier.map Constructor.name := by
  unfold Constructor.repeatedFaults
  rw [List.mem_map]
  cases found :
      earlier.find? fun other => other.name == constructor.name with
  | some first =>
      have named : first.name = constructor.name := by
        simpa using List.find?_some found
      have repeated : ∃ other ∈ earlier, other.name = constructor.name :=
        ⟨first, List.mem_of_find?_eq_some found, named⟩
      simp [repeated]
  | none =>
      simpa using List.find?_eq_none.mp found

/-- The first constructor of a name among all is the first among the earlier
ones, if it is there at all. -/
theorem Constructor.repeatedFaults_eq (sum : String)
    (earlier : List Constructor) (constructor : Constructor)
    (rest : List Constructor) :
    Constructor.repeatedFaults sum earlier constructor =
      Constructor.repetition sum (earlier ++ constructor :: rest)
        earlier.length constructor := by
  have fresh := repeatedFaults_eq_nil_iff sum earlier constructor
  unfold Constructor.repetition
  rw [List.take_left, List.find?_append]
  by_cases repeated : constructor.name ∈ earlier.map Constructor.name
  · rw [if_pos repeated]
    unfold Constructor.repeatedFaults at fresh ⊢
    cases found :
        earlier.find? fun other => other.name == constructor.name with
    | some first => rfl
    | none =>
        rw [found] at fresh
        exact absurd repeated (fresh.mp rfl)
  · rw [if_neg repeated, fresh.mpr repeated]

private theorem Constructor.listFaults_eq (sum : String)
    (earlier constructors : List Constructor) :
    Constructor.listFaults (Definition.listIdentity? module.definitions) sum
        earlier constructors =
      (constructors.mapIdx fun index constructor =>
        Constructor.repetition sum (earlier ++ constructors)
            (earlier.length + index) constructor ++
          module.undefinedTypes sum constructor.members).flatten := by
  induction constructors generalizing earlier with
  | nil => rfl
  | cons constructor rest ih =>
      have place (index : Nat) :
          (earlier ++ [constructor]).length + index =
            earlier.length + (index + 1) := by
        rw [List.length_append, List.length_singleton]
        omega
      have behind := ih (earlier ++ [constructor])
      simp only [place, List.append_assoc, List.singleton_append] at behind
      rw [Constructor.listFaults, behind, Module.flatMap_faults,
        Constructor.repeatedFaults_eq sum earlier constructor rest,
        List.mapIdx_cons, List.flatten_cons, Nat.add_zero]

theorem Definition.faults_eq_reports (definition : Definition) :
    definition.faults (Definition.listIdentity? module.definitions) =
      module.reports definition := by
  rw [Definition.faults, Module.flatMap_faults, Module.reports]
  cases definition.body with
  | product members => rw [Body.faults, Module.flatMap_faults]
  | sum constructors =>
      rw [Body.faults, Constructor.listFaults_eq]
      simp only [List.nil_append, List.length_nil, Nat.zero_add]

end Reports

/-! ### Clean modules -/

def Body.constructors : Body → List Constructor
  | sum constructors => constructors
  | product _ => []

def Body.fields : Body → List Field
  | product members => members
  | sum constructors => constructors.flatMap Constructor.members

def Definition.fields (definition : Definition) : List Field :=
  definition.attributes ++ definition.body.fields

/-- No two constructors of the body have the same name. -/
def Body.DistinctConstructors : Body → Prop
  | product _ => True
  | sum constructors => (constructors.map Constructor.name).Nodup

private theorem Module.undefinedTypes_append (module : Module)
    (definition : String)
    (left right : List Field) :
    module.undefinedTypes definition (left ++ right) =
      module.undefinedTypes definition left ++
        module.undefinedTypes definition right := by
  simp only [Module.undefinedTypes, List.filter_append, List.map_append]

private theorem Module.undefinedTypes_flatMap (module : Module)
    (definition : String)
    (constructors : List Constructor) :
    module.undefinedTypes definition
        (constructors.flatMap Constructor.members) =
      constructors.flatMap fun constructor =>
        module.undefinedTypes definition constructor.members := by
  simp only [Module.undefinedTypes, List.filter_flatMap, List.map_flatMap]

theorem Module.undefinedTypes_eq_nil_iff (module : Module)
    (definition : String) (fields : List Field) :
    module.undefinedTypes definition fields = [] ↔
      ∀ field ∈ fields, module.Knows field.typeName := by
  simp [Module.undefinedTypes]

private theorem Constructor.listFaults_eq_nil_iff (module : Module)
    (sum : String)
    (earlier constructors : List Constructor) :
    Constructor.listFaults (Definition.listIdentity? module.definitions) sum
        earlier constructors = [] ↔
      (∀ constructor ∈ constructors, ∀ field ∈ constructor.members,
        module.Knows field.typeName) ∧
        (∀ constructor ∈ constructors,
          constructor.name ∉ earlier.map Constructor.name) ∧
        (constructors.map Constructor.name).Nodup := by
  induction constructors generalizing earlier with
  | nil => simp [Constructor.listFaults]
  | cons constructor rest ih =>
      rw [Constructor.listFaults, List.append_eq_nil_iff,
        List.append_eq_nil_iff, repeatedFaults_eq_nil_iff,
        Module.flatMap_faults, Module.undefinedTypes_eq_nil_iff, ih]
      simp only [List.map_append, List.map_cons, List.map_nil,
        List.mem_append, List.mem_singleton, not_or, List.forall_mem_cons,
        List.nodup_cons, List.mem_map, not_exists, not_and]
      constructor
      · rintro ⟨⟨new, known⟩, restKnown, restNew, distinct⟩
        exact
          ⟨⟨known, restKnown⟩,
            ⟨new, fun other member => (restNew other member).1⟩,
            fun other member => (restNew other member).2, distinct⟩
      · rintro ⟨⟨known, restKnown⟩, ⟨new, restNew⟩, other, distinct⟩
        exact
          ⟨⟨new, known⟩, restKnown,
            fun later member => ⟨restNew later member, other later member⟩,
            distinct⟩

private theorem Definition.faults_eq_nil_iff (module : Module)
    (definition : Definition) :
    definition.faults (Definition.listIdentity? module.definitions) = [] ↔
      (∀ field ∈ definition.fields, module.Knows field.typeName) ∧
        definition.body.DistinctConstructors := by
  rw [Definition.faults, List.append_eq_nil_iff, Module.flatMap_faults,
    Module.undefinedTypes_eq_nil_iff, Definition.fields,
    List.forall_mem_append, and_assoc]
  refine and_congr_right fun _ => ?_
  cases definition.body with
  | product members =>
      rw [Body.faults, Module.flatMap_faults,
        Module.undefinedTypes_eq_nil_iff]
      simp [Body.fields, Body.DistinctConstructors]
  | sum constructors =>
      rw [Body.faults, Constructor.listFaults_eq_nil_iff]
      simp only [Body.fields, Body.DistinctConstructors,
        List.forall_mem_flatMap, List.map_nil, List.not_mem_nil,
        not_false_eq_true, implies_true, true_and]

/-! ### Fields of the tree and fields of the description -/

def Definition.constructor? (definition : Definition) (index : Nat) :
    Option Constructor :=
  match definition.body with
  | .sum constructors => constructors[index]?
  | .product _ => none

def Definition.member? (definition : Definition) (index : Nat) :
    Option Field :=
  match definition.body with
  | .sum _ => none
  | .product members => members[index]?

def Module.definition? (module : Module) (id : DefinitionId) :
    Option Definition :=
  match id.module with
  | .user => module.definitions[id.index]?
  | .builtin => none

/-- The field of the description at a site of its tree, and the definition
around it. -/
def Module.field? (module : Module) : Site → Option (Definition × Field)
  | .constructorMember id constructor index => do
      let definition ← module.definition? id
      let found ← definition.constructor? constructor
      found.members[index]?.map (definition, ·)
  | .productMember id index => do
      let definition ← module.definition? id
      (definition.member? index).map (definition, ·)
  | .attribute id index => do
      let definition ← module.definition? id
      definition.attributes[index]?.map (definition, ·)
  | .module _ | .definition _ | .constructor _ _ => none

section Linked

variable (lookup? : String → Option DefinitionId)

theorem Field.getElem?_full_linked (fields : List Field) (place : Nat) :
    (Resolved.Slots.full (fields.map (Field.linked lookup?))).get? place =
      fields[place]?.map (Field.linked lookup?) :=
  List.getElem?_map

private theorem Definition.member?_linked (index place : Nat)
    (definition : Definition) :
    (definition.linked lookup? index).member? place =
      (definition.member? place).map (Field.linked lookup?) := by
  unfold Definition.linked Definition.member?
  cases definition.body with
  | product members => exact Field.getElem?_full_linked lookup? members place
  | sum constructors => rfl

theorem Definition.constructor?_linked (index place : Nat)
    (definition : Definition) :
    (definition.linked lookup? index).constructor? place =
      (definition.constructor? place).map
        (Constructor.linked lookup? (.user index)) := by
  unfold Definition.linked Definition.constructor?
  cases definition.body with
  | product members => rfl
  | sum constructors => exact List.getElem?_map

end Linked

/-- What is read from the definition at an identity is read from the
description, as long as nothing is read from a built-in type. -/
theorem Module.bind_definition?_linked {α : Type} (module : Module)
    (id : DefinitionId) {readTree : Resolved.Definition → Option α}
    {read : Definition → Option α}
    (builtin : ∀ name, readTree (Resolved.Builtin.definition name) = none)
    (same : ∀ index definition,
      readTree
          (Definition.linked (Definition.listIdentity? module.definitions)
            index definition) =
        read definition) :
    (module.linked.tree.definition? id).bind readTree =
      (module.definition? id).bind read := by
  obtain ⟨owner, index⟩ := id
  cases owner with
  | user =>
      have linked :
          module.linked.tree.definition? ⟨.user, index⟩ =
            (module.definition? ⟨.user, index⟩).map
              (Definition.linked
                (Definition.listIdentity? module.definitions) index) :=
        List.getElem?_mapIdx
      rw [linked, Option.bind_map]
      exact congrArg _ (funext (same index))
  | builtin =>
      refine Option.bind_eq_none_iff.mpr ?_
      intro definition found
      obtain ⟨declared, rfl⟩ := Tree.exists_of_definition?_builtin rfl found
      exact builtin declared

theorem Module.field?_linked (module : Module) (site : Site) :
    module.linked.tree.field? site =
      (module.field? site).map fun found =>
        found.2.linked (Definition.listIdentity? module.definitions) := by
  match site with
  | .module _ | .definition _ | .constructor _ _ => rfl
  | .attribute id place =>
      refine
        (module.bind_definition?_linked id (fun _ => rfl) ?_).trans
          Option.map_bind.symm
      intro index definition
      rw [Function.comp_apply, Option.map_map]
      exact Field.getElem?_full_linked _ definition.attributes place
  | .productMember id place =>
      refine
        (module.bind_definition?_linked id (fun _ => rfl) ?_).trans
          Option.map_bind.symm
      intro index definition
      rw [Function.comp_apply, Option.map_map]
      exact Definition.member?_linked _ index place definition
  | .constructorMember id constructor place =>
      refine
        (Option.bind_assoc _ _ _).trans
          ((module.bind_definition?_linked id (fun _ => rfl) ?_).trans
            Option.map_bind.symm)
      intro index definition
      rw [Definition.constructor?_linked, Option.bind_map, Function.comp_apply]
      refine Eq.trans ?_ Option.map_bind.symm
      congr 1
      funext found
      rw [Function.comp_apply, Function.comp_apply, Option.map_map]
      exact Field.getElem?_full_linked _ found.members place

theorem Module.mem_of_definition? {module : Module} {id : DefinitionId}
    {definition : Definition}
    (found : module.definition? id = some definition) :
    definition ∈ module.definitions := by
  unfold Module.definition? at found
  split at found
  · exact List.mem_of_getElem? found
  · cases found

private theorem Definition.mem_fields_of_member? {definition : Definition}
    {place : Nat} {field : Field}
    (found : definition.member? place = some field) :
    field ∈ definition.fields := by
  unfold Definition.member? at found
  rw [Definition.fields]
  cases body : definition.body with
  | sum constructors =>
      rw [body] at found
      cases found
  | product members =>
      rw [body] at found
      exact List.mem_append_right _ (List.mem_of_getElem? found)

private theorem Definition.mem_fields_of_constructor? {definition : Definition}
    {place : Nat} {constructor : Constructor} {field : Field}
    (found : definition.constructor? place = some constructor)
    (member : field ∈ constructor.members) : field ∈ definition.fields := by
  unfold Definition.constructor? at found
  rw [Definition.fields]
  cases body : definition.body with
  | sum constructors =>
      rw [body] at found
      apply List.mem_append_right
      exact List.mem_flatMap.mpr
        ⟨constructor, List.mem_of_getElem? found, member⟩
  | product members =>
      rw [body] at found
      cases found

private theorem Module.mem_of_field? {module : Module} {site : Site}
    {definition : Definition} {field : Field}
    (found : module.field? site = some (definition, field)) :
    definition ∈ module.definitions ∧ field ∈ definition.fields := by
  match site with
  | .module _ | .definition _ | .constructor _ _ => cases found
  | .attribute id place =>
      obtain ⟨owner, isOwner, inOwner⟩ := Option.bind_eq_some_iff.mp found
      obtain ⟨_, placed, same⟩ := Option.map_eq_some_iff.mp inOwner
      cases same
      exact ⟨Module.mem_of_definition? isOwner,
        List.mem_append_left _ (List.mem_of_getElem? placed)⟩
  | .productMember id place =>
      obtain ⟨owner, isOwner, inOwner⟩ := Option.bind_eq_some_iff.mp found
      obtain ⟨_, placed, same⟩ := Option.map_eq_some_iff.mp inOwner
      cases same
      exact ⟨Module.mem_of_definition? isOwner,
        Definition.mem_fields_of_member? placed⟩
  | .constructorMember id constructor place =>
      obtain ⟨owner, isOwner, inOwner⟩ := Option.bind_eq_some_iff.mp found
      obtain ⟨around, isAround, inAround⟩ :=
        Option.bind_eq_some_iff.mp inOwner
      obtain ⟨_, placed, same⟩ := Option.map_eq_some_iff.mp inAround
      cases same
      exact ⟨Module.mem_of_definition? isOwner,
        Definition.mem_fields_of_constructor? isAround
          (List.mem_of_getElem? placed)⟩

/-- The stand-in has no name, so only a type without an identity gets it. -/
theorem Module.type_linked_eq_unresolved_iff (module : Module)
    (field : Field) :
    (field.linked (Definition.listIdentity? module.definitions)).type =
        Resolved.Builtin.unresolved ↔
      ¬ module.Knows field.typeName := by
  rw [← Module.listIdentity?_eq_none_iff, Field.linked]
  cases found :
      Definition.listIdentity? module.definitions field.typeName with
  | none => simp
  | some id =>
      have other : id ≠ Resolved.Builtin.unresolved := by
        rw [Resolved.Builtin.unresolved_eq]
        rintro rfl
        rw [Definition.listIdentity?, Option.or_eq_some_iff] at found
        rcases found with own | ⟨_, listed⟩
        · obtain ⟨index, _, same⟩ := Option.map_eq_some_iff.mp own
          cases same
        · obtain ⟨index, placed, same⟩ := Option.map_eq_some_iff.mp listed
          obtain ⟨inside, _⟩ := List.idxOf?_eq_some_iff.mp placed
          cases same
          exact absurd inside (Nat.lt_irrefl _)
      simp [other]

private theorem Constructor.undefinedType_not_mem_repetition (sum : String)
    (constructors : List Constructor) (index : Nat)
    (constructor : Constructor) (definition name : String) (span : Span) :
    SemanticFault.undefinedType definition name span ∉
      Constructor.repetition sum constructors index constructor := by
  unfold Constructor.repetition
  split
  · intro member
    obtain ⟨first, _, same⟩ := List.mem_map.mp member
    cases same
  · exact List.not_mem_nil

theorem Module.undefinedType_mem_reports_iff (module : Module)
    (definition : Definition) (owner name : String) (span : Span) :
    SemanticFault.undefinedType owner name span ∈ module.reports definition ↔
      SemanticFault.undefinedType owner name span ∈
        module.undefinedTypes definition.name definition.fields := by
  rw [Module.reports, Definition.fields, Module.undefinedTypes_append,
    List.mem_append, List.mem_append]
  refine or_congr_right ?_
  cases definition.body with
  | product members => rfl
  | sum constructors =>
      have notRepetition :=
        Constructor.undefinedType_not_mem_repetition definition.name
          constructors
      simp only [Body.fields, Module.undefinedTypes_flatMap,
        List.mem_flatMap, List.mem_flatten, List.mem_mapIdx]
      constructor
      · rintro ⟨_, ⟨index, inside, rfl⟩, member⟩
        refine ⟨constructors[index], List.getElem_mem inside, ?_⟩
        exact (List.mem_append.mp member).resolve_left
          (notRepetition _ _ _ _ _)
      · rintro ⟨constructor, isConstructor, member⟩
        obtain ⟨index, inside, rfl⟩ := List.mem_iff_getElem.mp isConstructor
        exact ⟨_, ⟨index, inside, rfl⟩, List.mem_append_right _ member⟩

/-- A report names its own field up to fields of the same type, which are
unknown together. -/
theorem Module.undefinedType_mem_iff (module : Module)
    {definition : Definition} {field : Field}
    (isDefinition : definition ∈ module.definitions)
    (isField : field ∈ definition.fields) :
    SemanticFault.undefinedType definition.name field.typeName field.span ∈
        module.definitions.flatMap module.reports ↔
      ¬ module.Knows field.typeName := by
  rw [List.mem_flatMap]
  constructor
  · rintro ⟨other, _, reported⟩
    rw [Module.undefinedType_mem_reports_iff] at reported
    obtain ⟨same, isUnknown, named⟩ := List.mem_map.mp reported
    injection named with _ sameType _
    rw [← sameType]
    simpa using (List.mem_filter.mp isUnknown).2
  · intro unknown
    refine ⟨definition, isDefinition, ?_⟩
    rw [Module.undefinedType_mem_reports_iff]
    refine List.mem_map.mpr ⟨field, List.mem_filter.mpr ⟨isField, ?_⟩, rfl⟩
    simpa using unknown

theorem Module.faults_linked (module : Module) :
    module.linked.faults = module.definitions.flatMap module.reports := by
  have eachReported :
      Definition.faults (Definition.listIdentity? module.definitions) =
        module.reports :=
    funext (Definition.faults_eq_reports module)
  rw [← eachReported]
  rfl

theorem Module.isClean_linked_iff (module : Module) :
    module.linked.isClean = true ↔
      ∀ definition ∈ module.definitions,
        (∀ field ∈ definition.fields, module.Knows field.typeName) ∧
          definition.body.DistinctConstructors := by
  rw [Compilation.isClean, List.isEmpty_iff, Module.linked,
    List.flatMap_eq_nil_iff]
  simp only [Definition.faults_eq_nil_iff]

/-- Compiling reports what there is to report about each definition in turn.  A
field of the tree points at the stand-in exactly when its type is reported, and
nothing is reported exactly when all types are known and the constructors of
each sum have distinct names. -/
theorem reports_of_compile {module : Module} {compilation : Compilation}
    (compiled : compile module = .ok compilation) :
    compilation.faults = module.definitions.flatMap module.reports ∧
      (∀ site resolved, compilation.tree.field? site = some resolved →
        ∃ definition field, module.field? site = some (definition, field) ∧
          (resolved.type = Resolved.Builtin.unresolved ↔
            SemanticFault.undefinedType definition.name field.typeName
                field.span ∈ compilation.faults)) ∧
      (compilation.isClean = true ↔
        ∀ definition ∈ module.definitions,
          (∀ field ∈ definition.fields, module.Knows field.typeName) ∧
            definition.body.DistinctConstructors) := by
  obtain ⟨_, rfl⟩ := (compile_eq_ok_iff module compilation).mp compiled
  refine ⟨module.faults_linked, ?_, module.isClean_linked_iff⟩
  intro site resolved found
  rw [Module.field?_linked] at found
  obtain ⟨⟨definition, field⟩, isField, rfl⟩ :=
    Option.map_eq_some_iff.mp found
  obtain ⟨isDefinition, inDefinition⟩ := Module.mem_of_field? isField
  refine ⟨definition, field, isField, ?_⟩
  rw [Module.type_linked_eq_unresolved_iff, Module.faults_linked,
    Module.undefinedType_mem_iff module isDefinition inDefinition]

/-- Three constructors of one name, and unknown types among the attributes, in
a repeated constructor and in a product. -/
def Module.faulty : Module :=
  let field (typeName : String) (start : Nat) : Field :=
    { typeName := typeName
      cardinality := .single
      name? := none
      span := .point start }
  let constructor (start : Nat) (members : List Field) : Constructor :=
    { name := "Leaf"
      members := members
      span := .point start }
  { name := "Faulty"
    definitions :=
      [{ name := "tree"
         body :=
           .sum
             [constructor 10 [field "tree" 11],
               constructor 20 [field "twig" 21, field "int" 22],
               constructor 30 []]
         attributes := [field "pair" 40, field "root" 41]
         nameSpan := .point 1
         span := .point 2 },
       { name := "pair"
         body := .product [field "twig" 50]
         attributes := []
         nameSpan := .point 3
         span := .point 4 }]
    span := .zero }

theorem reports_faulty :
    ∃ compilation, compile Module.faulty = .ok compilation ∧
      compilation.faults =
        [.undefinedType "tree" "root" (.point 41),
          .duplicateConstructor "tree" "Leaf" (.point 20) (.point 10),
          .undefinedType "tree" "twig" (.point 21),
          .duplicateConstructor "tree" "Leaf" (.point 30) (.point 10),
          .undefinedType "pair" "twig" (.point 50)] ∧
      ¬ compilation.isClean = true := by
  have compiled : compile Module.faulty = .ok Module.faulty.linked :=
    (compile_eq_ok_iff _ _).mpr ⟨by decide, rfl⟩
  obtain ⟨reported, _, _⟩ := reports_of_compile compiled
  refine ⟨_, compiled, ?_, ?_⟩
  · rw [reported]
    decide
  · rw [Compilation.isClean, reported]
    decide

end Asdl
