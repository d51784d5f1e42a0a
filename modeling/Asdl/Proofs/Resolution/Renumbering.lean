/-
The order of declaration and what it decides.

By the time that the second pass looks up a name, every name of the module is
known, so a definition at another place is the same definition with another
number.  Reordering a module moves its definitions, moves every identity that
points at one of them, and moves what is reported about each of them; the
built-in types stay where they are.
-/

import Mathlib.Data.List.FinRange
import Asdl.Proofs.Resolution.Repetition
import Asdl.Proofs.Resolution.Reports

namespace Asdl

open Resolved (DefinitionId)

namespace Resolved

def Slots.map {α β : Type} (change : α → β) (slots : Slots α) : Slots β :=
  { capacity := slots.capacity
    items := slots.items.map change
    length_le := by
      rw [List.length_map]
      exact slots.length_le }

theorem Slots.map_full {α β : Type} (change : α → β) (items : List α) :
    (full items).map change = full (items.map change) := by
  simp only [map, full, List.length_map]

section MapIds

variable (change : DefinitionId → DefinitionId)

def Field.mapIds (field : Field) : Field :=
  { field with type := change field.type }

def Constructor.mapIds (constructor : Constructor) : Constructor :=
  { constructor with
    owner := change constructor.owner
    members := constructor.members.map (Field.mapIds change) }

def Body.mapIds : Body → Body
  | sum constructors => sum (constructors.map (Constructor.mapIds change))
  | product members => product (members.map (Field.mapIds change))

/-- The definition with every type of a field and every owner of a constructor
changed, and nothing else. -/
def Definition.mapIds (definition : Definition) : Definition :=
  { definition with
    attributes := definition.attributes.map (Field.mapIds change)
    body := definition.body.mapIds change }

end MapIds

end Resolved

section Linked

variable {change : DefinitionId → DefinitionId}
  {lookup? moved? : String → Option DefinitionId}
  (standIn : change Resolved.Builtin.unresolved = Resolved.Builtin.unresolved)
  (moves : ∀ name, moved? name = (lookup? name).map change)

include standIn moves

theorem Field.mapIds_linked (field : Field) :
    (field.linked lookup?).mapIds change = field.linked moved? := by
  simp only [linked, Resolved.Field.mapIds, moves]
  cases lookup? field.typeName with
  | none => simp only [Option.getD_none, Option.map_none, standIn]
  | some id => rfl

theorem Field.map_mapIds_linked (fields : List Field) :
    (Resolved.Slots.full (fields.map (Field.linked lookup?))).map
        (Resolved.Field.mapIds change) =
      .full (fields.map (Field.linked moved?)) := by
  rw [Resolved.Slots.map_full, List.map_map]
  exact
    congrArg (fun link => Resolved.Slots.full (fields.map link))
      (funext (Field.mapIds_linked standIn moves))

theorem Constructor.mapIds_linked (owner : DefinitionId)
    (constructor : Constructor) :
    (constructor.linked lookup? owner).mapIds change =
      constructor.linked moved? (change owner) := by
  simp only [linked, Resolved.Constructor.mapIds,
    Field.map_mapIds_linked standIn moves]

theorem Definition.mapIds_linked {index place : Nat}
    (placed : change (.user index) = .user place) (definition : Definition) :
    (definition.linked lookup? index).mapIds change =
      definition.linked moved? place := by
  obtain ⟨name, body, attributes, nameSpan, span⟩ := definition
  simp only [linked, Resolved.Definition.mapIds,
    Field.map_mapIds_linked standIn moves]
  cases body with
  | product members =>
      simp only [Body.linked, Resolved.Body.mapIds,
        Field.map_mapIds_linked standIn moves]
  | sum constructors =>
      have sameConstructors :
          Resolved.Constructor.mapIds change ∘
              Constructor.linked lookup? (.user index) =
            Constructor.linked moved? (.user place) := by
        funext constructor
        rw [Function.comp_apply, Constructor.mapIds_linked standIn moves,
          placed]
      simp only [Body.linked, Resolved.Body.mapIds, Resolved.Slots.map_full,
        List.map_map, sameConstructors]

end Linked

/-! ### Reordered modules -/

section Reorder

variable (module : Module)
  (order : Equiv.Perm (Fin module.definitions.length))

/-- The definition at each index goes to the place that the order gives it. -/
def Module.reorder : Module :=
  { module with
    definitions :=
      List.ofFn fun place => module.definitions.get (order.symm place) }

private theorem Module.length_reorder :
    (module.reorder order).definitions.length = module.definitions.length :=
  List.length_ofFn

theorem Module.getElem?_reorder
    (index : Fin module.definitions.length) :
    (module.reorder order).definitions[(order index).val]? =
      some (module.definitions.get index) := by
  rw [reorder, List.getElem?_ofFn, dif_pos (order index).isLt]
  simp only [Fin.eta, Equiv.symm_apply_apply]

theorem Module.perm_reorder :
    (module.reorder order).definitions.Perm module.definitions := by
  have permuted :=
    Equiv.Perm.ofFn_comp_perm order.symm module.definitions.get
  rw [List.ofFn_get] at permuted
  exact permuted

theorem Module.nodup_reorder_iff :
    ((module.reorder order).definitions.map Definition.name).Nodup ↔
      (module.definitions.map Definition.name).Nodup :=
  ((module.perm_reorder order).map Definition.name).nodup_iff

end Reorder

/-- An identity of the module goes where the order puts its definition; built-in
identities stay. -/
def Resolved.DefinitionId.moved {count : Nat} (order : Equiv.Perm (Fin count))
    (id : DefinitionId) : DefinitionId :=
  match id.module with
  | .builtin => id
  | .user =>
      if inside : id.index < count then
        .user (order ⟨id.index, inside⟩)
      else
        id

theorem Resolved.DefinitionId.moved_user {count : Nat}
    (order : Equiv.Perm (Fin count)) (index : Fin count) :
    (DefinitionId.user index).moved order = .user (order index) :=
  dif_pos index.isLt

private theorem Module.listIdentity?_reorder (module : Module)
    (order : Equiv.Perm (Fin module.definitions.length))
    (distinct : (module.definitions.map Definition.name).Nodup)
    (name : String) :
    Definition.listIdentity? (module.reorder order).definitions name =
      (Definition.listIdentity? module.definitions name).map
        (DefinitionId.moved order) := by
  by_cases known : ∃ index, (module.definitions.get index).name = name
  · obtain ⟨index, rfl⟩ := known
    have here :
        module.definitions[index.val]? =
          some (module.definitions.get index) :=
      List.getElem?_eq_getElem index.isLt
    rw [Definition.listIdentity?_of_getElem?
        ((module.nodup_reorder_iff order).mpr distinct)
        (module.getElem?_reorder order index),
      Definition.listIdentity?_of_getElem? distinct here, Option.map_some,
      Resolved.DefinitionId.moved_user]
  · have absent :
        ∀ definition ∈ module.definitions, definition.name ≠ name := by
      intro definition member same
      obtain ⟨index, rfl⟩ := List.get_of_mem member
      exact known ⟨index, same⟩
    have absentReordered :
        ∀ definition ∈ (module.reorder order).definitions,
          definition.name ≠ name := by
      intro definition member
      exact absent definition ((module.perm_reorder order).mem_iff.mp member)
    rw [Definition.listIdentity?_of_forall_ne absent,
      Definition.listIdentity?_of_forall_ne absentReordered, Option.map_map]
    rfl

private theorem Module.reports_congr {left right : Module}
    (same : ∀ name, left.Knows name ↔ right.Knows name) :
    left.reports = right.reports := by
  have sameTypes : left.undefinedTypes = right.undefinedTypes := by
    funext definition fields
    simp only [Module.undefinedTypes, same]
  funext definition
  simp only [Module.reports, sameTypes]

private theorem Module.reports_reorder (module : Module)
    (order : Equiv.Perm (Fin module.definitions.length)) :
    (module.reorder order).reports = module.reports := by
  apply Module.reports_congr
  intro name
  have sameNames :=
    ((module.perm_reorder order).map Definition.name).mem_iff (a := name)
  exact or_congr sameNames Iff.rfl

def Symbol.mapDefinition {α β : Type} (change : α → β) (symbol : Symbol α) :
    Symbol β :=
  { name := symbol.name
    definition? := symbol.definition?.map change }

/-- The definitions of the second tree are those of the first one at other
places, and every identity goes with the definition it points at. -/
structure Tree.Moves {count : Nat} (order : Equiv.Perm (Fin count))
    (tree moved : Tree) : Prop where
  id : moved.root.id = tree.root.id
  name : moved.root.name = tree.root.name
  length : tree.root.definitions.length = count
  length_moved : moved.root.definitions.length = count
  definitions :
    ∀ index : Fin count,
      moved.root.definitions[(order index).val]? =
        tree.root.definitions[index.val]?.map
          (Resolved.Definition.mapIds (DefinitionId.moved order))
  symbols :
    ∀ index : Fin count,
      moved.root.scope.symbols[(order index).val]? =
        tree.root.scope.symbols[index.val]?.map
          (Symbol.mapDefinition (DefinitionId.moved order))
  lookup :
    ∀ name, moved.lookup? name =
      (tree.lookup? name).map (DefinitionId.moved order)

private theorem Module.moves_linked (module : Module)
    (order : Equiv.Perm (Fin module.definitions.length))
    (distinct : (module.definitions.map Definition.name).Nodup) :
    module.linked.tree.Moves order (module.reorder order).linked.tree := by
  have identities := module.listIdentity?_reorder order distinct
  refine
    { id := rfl
      name := rfl
      length := List.length_mapIdx
      length_moved := List.length_mapIdx.trans (module.length_reorder order)
      definitions := ?_
      symbols := ?_
      lookup := ?_ }
  · intro index
    have placed := Resolved.DefinitionId.moved_user order index
    simp only [Module.linked, List.getElem?_mapIdx, module.getElem?_reorder,
      List.getElem?_eq_getElem index.isLt, Option.map_some, List.get_eq_getElem]
    rw [Definition.mapIds_linked rfl identities placed]
  · intro index
    simp only [Module.linked, Scope.symbols, Definition.listScope,
      Table.numbered, List.getElem?_mapIdx, List.getElem?_map,
      module.getElem?_reorder, List.getElem?_eq_getElem index.isLt,
      Option.map_some, List.get_eq_getElem, Symbol.mapDefinition,
      Resolved.DefinitionId.moved_user]
  · intro name
    rw [Module.lookup?_linked, Module.lookup?_linked, identities]

private theorem exists_duplicateDefinition {module : Module}
    (repeats : ¬ (module.definitions.map Definition.name).Nodup) :
    ∃ name span previous?,
      compile module = .error (.duplicateDefinition name span previous?) := by
  cases compiled : compile module with
  | ok compilation =>
      exact absurd ((compile_eq_ok_iff _ _).mp compiled).1 repeats
  | error fault =>
      obtain ⟨repetition, rfl⟩ := (compile_eq_error_iff _ _).mp compiled
      exact ⟨_, _, _, rfl⟩

/-- A module and any reordering of it compile to trees that differ by the places
of their definitions, and each definition takes what is reported about it along
to its new place.  With a repeated name neither compiles. -/
theorem compile_reorder (module : Module)
    (order : Equiv.Perm (Fin module.definitions.length)) :
    ((module.definitions.map Definition.name).Nodup →
      ∃ compilation reordered,
        compile module = .ok compilation ∧
          compile (module.reorder order) = .ok reordered ∧
          compilation.tree.Moves order reordered.tree ∧
          compilation.faults = module.definitions.flatMap module.reports ∧
          reordered.faults =
            (module.reorder order).definitions.flatMap module.reports) ∧
      (¬ (module.definitions.map Definition.name).Nodup →
        (∃ name span previous?,
          compile module =
            .error (.duplicateDefinition name span previous?)) ∧
          ∃ name span previous?,
            compile (module.reorder order) =
              .error (.duplicateDefinition name span previous?)) := by
  have sameDistinct := module.nodup_reorder_iff order
  constructor
  · intro distinct
    refine
      ⟨module.linked, (module.reorder order).linked,
        (compile_eq_ok_iff _ _).mpr ⟨distinct, rfl⟩,
        (compile_eq_ok_iff _ _).mpr ⟨sameDistinct.mpr distinct, rfl⟩,
        module.moves_linked order distinct, module.faults_linked, ?_⟩
    rw [Module.faults_linked, module.reports_reorder]
  · intro repeats
    exact
      ⟨exists_duplicateDefinition repeats,
        exists_duplicateDefinition (mt sameDistinct.mp repeats)⟩

def Module.repeating : Module :=
  { Module.shadowing with
    definitions := Module.shadowing.definitions ++ Module.shadowing.definitions }

/-- With the product declared first the built-in type stays where it is; from
the last definition to the first the repeating module is refused as before. -/
theorem compile_reorder_shadowing :
    (let order : Equiv.Perm (Fin Module.shadowing.definitions.length) :=
        Equiv.swap ⟨0, by decide⟩ ⟨1, by decide⟩
      ∃ compilation reordered,
        compile Module.shadowing = .ok compilation ∧
          compile (Module.shadowing.reorder order) = .ok reordered ∧
          compilation.tree.Moves order reordered.tree ∧
          ["expr", "int", "string", "nowhere"].map reordered.tree.lookup? =
            [some (.user 1), some (.user 0), some (.builtin 1), none]) ∧
      ∃ name span previous?,
        compile (Module.repeating.reorder Fin.revPerm) =
          .error (.duplicateDefinition name span previous?) := by
  constructor
  · intro order
    have distinct :
        (Module.shadowing.definitions.map Definition.name).Nodup := by
      decide
    obtain ⟨compilation, reordered, compiled, compiledToo, moves, _⟩ :=
      (compile_reorder Module.shadowing order).1 distinct
    refine ⟨compilation, reordered, compiled, compiledToo, moves, ?_⟩
    obtain ⟨_, rfl⟩ := (compile_eq_ok_iff _ _).mp compiled
    rw [funext moves.lookup, Module.lookup?_linked]
    decide
  · have repeats :
        ¬ (Module.repeating.definitions.map Definition.name).Nodup := by
      decide
    exact ((compile_reorder Module.repeating Fin.revPerm).2 repeats).2

end Asdl
