/-
Compiling only compares names.

Names of a description may be spelled otherwise, as long as different names stay
different and the built-in types keep theirs.  Compiling the respelled
description is then compiling the description and respelling the names in what
comes out: no other spelling means anything to either pass, not even that of
the stand-in.
-/

import Asdl.Proofs.Resolution.Renumbering

namespace Asdl

open Resolved (DefinitionId)

section Respell

variable (spell : String → String)

def Field.respell (field : Field) : Field :=
  { field with
    typeName := spell field.typeName
    name? := field.name?.map spell }

def Constructor.respell (constructor : Constructor) : Constructor :=
  { constructor with
    name := spell constructor.name
    members := constructor.members.map (Field.respell spell) }

def Body.respell : Body → Body
  | sum constructors => sum (constructors.map (Constructor.respell spell))
  | product members => product (members.map (Field.respell spell))

def Definition.respell (definition : Definition) : Definition :=
  { definition with
    name := spell definition.name
    body := definition.body.respell spell
    attributes := definition.attributes.map (Field.respell spell) }

/-- Every name spelled otherwise, with the ranges as they are. -/
def Module.respell (module : Module) : Module :=
  { module with
    name := spell module.name
    definitions := module.definitions.map (Definition.respell spell) }

def Name.respell (name : Name) : Name :=
  { declared := spell name.declared
    rendering? := name.rendering?.map spell }

namespace Resolved

def Field.respell (field : Field) : Field :=
  { field with name? := field.name?.map (Name.respell spell) }

def Constructor.respell (constructor : Constructor) : Constructor :=
  { constructor with
    name := constructor.name.respell spell
    members := constructor.members.map (Field.respell spell) }

def Body.respell : Body → Body
  | sum constructors => sum (constructors.map (Constructor.respell spell))
  | product members => product (members.map (Field.respell spell))

def Definition.respell (definition : Definition) : Definition :=
  { definition with
    name := definition.name.respell spell
    attributes := definition.attributes.map (Field.respell spell)
    body := definition.body.respell spell }

end Resolved

def Symbol.respell {α : Type} (symbol : Symbol α) : Symbol α :=
  { symbol with name := spell symbol.name }

def Table.respell {α : Type} (table : Table α) : Table α :=
  { symbols := table.symbols.map (Symbol.respell spell) }

def Scope.respell {α : Type} (scope : Scope α) : Scope α :=
  { table := scope.table.respell spell
    outer := scope.outer.map (Table.respell spell) }

/-- Every name of the tree spelled otherwise, also those by which definitions
are looked up; all identities stay. -/
def Tree.respell (tree : Tree) : Tree :=
  { root :=
      { id := tree.root.id
        name := tree.root.name.respell spell
        scope := tree.root.scope.respell spell
        definitions :=
          tree.root.definitions.map (Resolved.Definition.respell spell) } }

def SemanticFault.respell : SemanticFault → SemanticFault
  | duplicateConstructor sum name span previous =>
      duplicateConstructor (spell sum) (spell name) span previous
  | undefinedType definition name span =>
      undefinedType (spell definition) (spell name) span

def StructuralFault.respell : StructuralFault → StructuralFault
  | duplicateDefinition name span previous? =>
      duplicateDefinition (spell name) span previous?
  | slotCount definition slot expected found =>
      slotCount (spell definition) slot expected found
  | shapeMismatch definition => shapeMismatch (spell definition)

def Compilation.respell (compilation : Compilation) : Compilation :=
  { tree := compilation.tree.respell spell
    faults := compilation.faults.map (SemanticFault.respell spell) }

end Respell

section Linked

variable {spell : String → String}
  {lookup? respelled? : String → Option DefinitionId}
  (agrees : ∀ name, respelled? (spell name) = lookup? name)

include agrees

theorem Field.linked_respell (field : Field) :
    (field.respell spell).linked respelled? =
      (field.linked lookup?).respell spell := by
  simp only [linked, respell, Resolved.Field.respell, agrees, Option.map_map]
  rfl

theorem Field.full_linked_respell (fields : List Field) :
    Resolved.Slots.full
        ((fields.map (respell spell)).map (linked respelled?)) =
      (Resolved.Slots.full (fields.map (linked lookup?))).map
        (Resolved.Field.respell spell) := by
  rw [Resolved.Slots.map_full, List.map_map, List.map_map]
  exact
    congrArg (fun link => Resolved.Slots.full (fields.map link))
      (funext (Field.linked_respell agrees))

theorem Constructor.linked_respell (owner : DefinitionId)
    (constructor : Constructor) :
    (constructor.respell spell).linked respelled? owner =
      (constructor.linked lookup? owner).respell spell := by
  simp only [linked, respell, Resolved.Constructor.respell,
    Field.full_linked_respell agrees]
  rfl

theorem Body.linked_respell (owner : DefinitionId) (body : Body) :
    (body.respell spell).linked respelled? owner =
      (body.linked lookup? owner).respell spell := by
  cases body with
  | product members =>
      simp only [respell, linked, Resolved.Body.respell,
        Field.full_linked_respell agrees]
  | sum constructors =>
      have sameConstructors :
          Constructor.linked respelled? owner ∘ Constructor.respell spell =
            Resolved.Constructor.respell spell ∘
              Constructor.linked lookup? owner :=
        funext (Constructor.linked_respell agrees owner)
      simp only [respell, linked, Resolved.Body.respell,
        Resolved.Slots.map_full, List.map_map, sameConstructors]

theorem Definition.linked_respell (index : Nat) (definition : Definition) :
    (definition.respell spell).linked respelled? index =
      (definition.linked lookup? index).respell spell := by
  simp only [linked, respell, Resolved.Definition.respell,
    Field.full_linked_respell agrees, Body.linked_respell agrees]
  rfl

theorem Field.faults_respell (definition : String) (field : Field) :
    (field.respell spell).faults respelled? (spell definition) =
      (field.faults lookup? definition).map
        (SemanticFault.respell spell) := by
  simp only [faults, respell, agrees]
  cases lookup? field.typeName with
  | none => rfl
  | some id => rfl

theorem Field.flatMap_faults_respell (definition : String)
    (fields : List Field) :
    (fields.map (respell spell)).flatMap
        (faults respelled? (spell definition)) =
      (fields.flatMap (faults lookup? definition)).map
        (SemanticFault.respell spell) := by
  simp only [List.flatMap_map, List.map_flatMap, Field.faults_respell agrees]

end Linked

section Injective

variable {spell : String → String} (injective : Function.Injective spell)

include injective

theorem beq_respell (left right : String) :
    (spell left == spell right) = (left == right) := by
  by_cases same : left = right
  · rw [same, beq_self_eq_true, beq_self_eq_true]
  · have different : ¬ spell left = spell right := fun equal =>
      same (injective equal)
    rw [beq_eq_false_iff_ne.mpr same, beq_eq_false_iff_ne.mpr different]

theorem idxOf?_respell (names : List String) (name : String) :
    (names.map spell).idxOf? (spell name) = names.idxOf? name := by
  induction names with
  | nil => rfl
  | cons first rest ih =>
      rw [List.map_cons, List.idxOf?_cons, List.idxOf?_cons,
        beq_respell injective, ih]

private theorem Constructor.repeatedFaults_respell (sum : String)
    (earlier : List Constructor) (constructor : Constructor) :
    Constructor.repeatedFaults (spell sum) (earlier.map (respell spell))
        (constructor.respell spell) =
      (Constructor.repeatedFaults sum earlier constructor).map
        (SemanticFault.respell spell) := by
  have sameTest :
      (fun other : Constructor => other.name == spell constructor.name) ∘
          respell spell =
        fun other => other.name == constructor.name :=
    funext fun other => beq_respell injective other.name constructor.name
  simp only [Constructor.repeatedFaults]
  rw [show (constructor.respell spell).name = spell constructor.name from rfl,
    List.find?_map, sameTest]
  cases earlier.find? fun other => other.name == constructor.name with
  | none => rfl
  | some first => rfl

private theorem Constructor.listFaults_respell
    {lookup? respelled? : String → Option DefinitionId}
    (agrees : ∀ name, respelled? (spell name) = lookup? name) (sum : String)
    (earlier constructors : List Constructor) :
    listFaults respelled? (spell sum) (earlier.map (respell spell))
        (constructors.map (respell spell)) =
      (listFaults lookup? sum earlier constructors).map
        (SemanticFault.respell spell) := by
  induction constructors generalizing earlier with
  | nil => rfl
  | cons constructor rest ih =>
      have later := ih (earlier ++ [constructor])
      rw [List.map_append, List.map_singleton] at later
      have members :=
        Field.flatMap_faults_respell agrees sum constructor.members
      rw [List.map_cons, listFaults, listFaults, later,
        repeatedFaults_respell injective, List.map_append,
        List.map_append, ← members]
      rfl

theorem Definition.faults_respell
    {lookup? respelled? : String → Option DefinitionId}
    (agrees : ∀ name, respelled? (spell name) = lookup? name)
    (definition : Definition) :
    (definition.respell spell).faults respelled? =
      (definition.faults lookup?).map (SemanticFault.respell spell) := by
  obtain ⟨name, body, attributes, nameSpan, span⟩ := definition
  simp only [faults, respell, List.map_append,
    Field.flatMap_faults_respell agrees]
  congr 1
  cases body with
  | product members => exact Field.flatMap_faults_respell agrees _ _
  | sum constructors =>
      exact
        Constructor.listFaults_respell injective agrees name [] constructors

end Injective

/-! ### Both passes -/

theorem Definition.map_name_respell (spell : String → String)
    (definitions : List Definition) :
    (definitions.map (respell spell)).map name =
      (definitions.map name).map spell := by
  rw [List.map_map, List.map_map]
  rfl

private theorem Table.respell_numbered {α : Type} (spell : String → String)
    (identify : Nat → α) (names : List String) :
    (numbered identify names).respell spell =
      numbered identify (names.map spell) := by
  simp only [respell, numbered, List.mapIdx_eq_zipIdx_map, List.zipIdx_map,
    List.map_map]
  rfl

private theorem Definition.mapIdx_linked_respell {spell : String → String}
    {lookup? respelled? : String → Option DefinitionId}
    (agrees : ∀ name, respelled? (spell name) = lookup? name)
    (definitions : List Definition) :
    (definitions.map (respell spell)).mapIdx (linked respelled?) =
      (definitions.mapIdx (linked lookup?)).map
        (Resolved.Definition.respell spell) := by
  apply List.ext_getElem?
  intro index
  rw [List.getElem?_mapIdx, List.getElem?_map, List.getElem?_map,
    List.getElem?_mapIdx, Option.map_map, Option.map_map]
  exact
    congrArg (Option.map · definitions[index]?)
      (funext (linked_respell agrees index))

section Compile

variable {spell : String → String} (injective : Function.Injective spell)
  (builtin : ∀ name ∈ Resolved.Builtin.names, spell name = name)

include builtin in
theorem map_builtin_names :
    Resolved.Builtin.names.map spell = Resolved.Builtin.names := by
  calc Resolved.Builtin.names.map spell
    _ = Resolved.Builtin.names.map id := List.map_congr_left builtin
    _ = Resolved.Builtin.names := List.map_id _

include injective builtin in
private theorem Definition.listIdentity?_respell (definitions : List Definition)
    (name : String) :
    listIdentity? (definitions.map (respell spell)) (spell name) =
      listIdentity? definitions name := by
  have sameBuiltin :
      Resolved.Builtin.names.idxOf? (spell name) =
        Resolved.Builtin.names.idxOf? name := by
    have same := idxOf?_respell injective Resolved.Builtin.names name
    rwa [map_builtin_names builtin] at same
  rw [listIdentity?, listIdentity?, map_name_respell,
    idxOf?_respell injective, sameBuiltin]

include builtin in
private theorem Definition.listScope_respell (definitions : List Definition) :
    listScope (definitions.map (respell spell)) =
      (listScope definitions).respell spell := by
  simp only [listScope, Scope.respell, map_name_respell,
    Resolved.Builtin.scope_eq, Table.respell_numbered, List.map_cons,
    List.map_nil, map_builtin_names builtin]

include injective builtin in
theorem Module.linked_respell (module : Module) :
    (module.respell spell).linked = module.linked.respell spell := by
  have agrees :=
    Definition.listIdentity?_respell injective builtin module.definitions
  simp only [Module.linked, Module.respell, Compilation.respell, Tree.respell,
    Definition.listScope_respell builtin, List.flatMap_map, List.map_flatMap,
    Definition.mapIdx_linked_respell agrees,
    Definition.faults_respell injective agrees]
  rfl

def Definition.FirstRepetition.respell {definitions : List Definition}
    (injective : Function.Injective spell)
    (repetition : FirstRepetition definitions) :
    FirstRepetition (definitions.map (Definition.respell spell)) :=
  { front := repetition.front.map (Definition.respell spell)
    first := repetition.first.respell spell
    middle := repetition.middle.map (Definition.respell spell)
    later := repetition.later.respell spell
    behind := repetition.behind.map (Definition.respell spell)
    split := by
      have whole :=
        congrArg (List.map (Definition.respell spell)) repetition.split
      rwa [List.map_append, List.map_append, List.map_cons,
        List.map_cons] at whole
    distinct := by
      have names :=
        Definition.map_name_respell spell
          (repetition.front ++ repetition.first :: repetition.middle)
      rw [List.map_append, List.map_cons] at names
      rw [names]
      exact repetition.distinct.map injective
    sameName := congrArg spell repetition.sameName }

/-- Compiling a description under other spellings is compiling it and spelling
the names in the outcome otherwise.  Nothing else in the outcome changes. -/
theorem compile_respell (injective : Function.Injective spell)
    (builtin : ∀ name ∈ Resolved.Builtin.names, spell name = name)
    (module : Module) :
    compile (module.respell spell) =
      ((compile module).map (Compilation.respell spell)).mapError
        (StructuralFault.respell spell) := by
  cases compiled : compile module with
  | ok compilation =>
      obtain ⟨distinct, rfl⟩ := (compile_eq_ok_iff _ _).mp compiled
      refine
        (compile_eq_ok_iff _ _).mpr
          ⟨?_, (module.linked_respell injective builtin).symm⟩
      rw [Module.respell, Definition.map_name_respell]
      exact distinct.map injective
  | error fault =>
      obtain ⟨repetition, rfl⟩ := (compile_eq_error_iff _ _).mp compiled
      exact
        (compile_eq_error_iff _ _).mpr ⟨repetition.respell injective, rfl⟩

end Compile

/-- A type takes the spelling of the stand-in, and the other way round.  The
stand-in is still what unknown types point at, and a repeated definition is
still refused. -/
theorem compile_respell_standIn :
    let spell := Equiv.swap "expr" Resolved.Builtin.unresolvedName
    (Function.Injective spell ∧
        ∀ name ∈ Resolved.Builtin.names, spell name = name) ∧
      compile (Module.shadowing.respell spell) =
        .ok (Module.shadowing.linked.respell spell) ∧
      (Module.shadowing.respell spell).linked.faults =
        [.duplicateConstructor "<unresolved>" "Number" .zero .zero,
          .undefinedType "int" "nowhere" .zero] ∧
      compile (Module.repeating.respell spell) =
        .error (.duplicateDefinition "<unresolved>" .zero (some .zero)) := by
  intro spell
  have injective : Function.Injective spell := spell.injective
  have builtin : ∀ name ∈ Resolved.Builtin.names, spell name = name := by
    decide
  have compiled : compile Module.shadowing = .ok Module.shadowing.linked :=
    (compile_eq_ok_iff _ _).mpr ⟨by decide, rfl⟩
  have refused :
      compile Module.repeating =
        .error (.duplicateDefinition "expr" .zero (some .zero)) := by
    decide
  have respelled := compile_respell injective builtin Module.shadowing
  have respelledToo := compile_respell injective builtin Module.repeating
  rw [compiled] at respelled
  rw [refused] at respelledToo
  refine ⟨⟨injective, builtin⟩, respelled, ?_, ?_⟩
  · decide
  · rw [respelledToo]
    decide

end Asdl
