/-
Every identity in a compiled tree leads to a definition.

An identity says which module it means and a place there, and nothing in an
identity alone keeps the place inside the module.  In a compiled tree every
identity that can be come by, in a field, in a constructor, in a scope, by a
lookup or as the stand-in, has a definition at its place, and the definition
says that it belongs to the module of the identity.
-/

import Asdl.Proofs.Resolution.Reports

namespace Asdl

open Resolved (DefinitionId ModuleId)

def Scope.tables {α : Type} (scope : Scope α) : List (Table α) :=
  scope.table :: scope.outer

private theorem Scope.exists_of_definition? {α : Type} {scope : Scope α}
    {name : String} {definition : α}
    (defined : scope.definition? name = some definition) :
    ∃ table ∈ scope.tables, ∃ symbol ∈ table.symbols,
      symbol.definition? = some definition := by
  obtain ⟨symbol, resolves, given⟩ := Option.bind_eq_some_iff.mp defined
  obtain ⟨table, around, found⟩ := List.exists_of_findSome?_eq_some resolves
  exact ⟨table, around, symbol, List.mem_of_find?_eq_some found, given⟩

/-- An identity that the tree hands out. -/
inductive Tree.Links (tree : Tree) : DefinitionId → Prop where
  | type {site : Site} {field : Resolved.Field}
      (found : tree.field? site = some field) : tree.Links field.type
  | owner {id : DefinitionId} {index : Nat}
      {constructor : Resolved.Constructor}
      (found : tree.constructor? id index = some constructor) :
      tree.Links constructor.owner
  | symbol {module : ModuleId} {symbol : Symbol DefinitionId}
      {id : DefinitionId}
      (listed : symbol ∈ (tree.module module).scope.symbols)
      (defined : symbol.definition? = some id) : tree.Links id
  | lookup {module : ModuleId} {name : String} {id : DefinitionId}
      (found : (tree.module module).lookup? name = some id) : tree.Links id
  | unresolved : tree.Links Resolved.Builtin.unresolved

/-- The place of the identity is inside the module of the identity. -/
def Tree.Holds (tree : Tree) (id : DefinitionId) : Prop :=
  id.index < (tree.module id.module).definitions.length

namespace Module

variable (module : Module)

private theorem module_of_definition?_linked {id : DefinitionId}
    {definition : Resolved.Definition}
    (found : module.linked.tree.definition? id = some definition) :
    definition.module = id.module := by
  obtain ⟨owner, index⟩ := id
  cases owner with
  | user =>
      obtain ⟨place, _, rfl⟩ :=
        List.mem_mapIdx.mp (List.mem_of_getElem? found)
      rfl
  | builtin =>
      obtain ⟨name, rfl⟩ := Tree.exists_of_definition?_builtin rfl found
      rfl

theorem exists_definition?_of_holds {id : DefinitionId}
    (holds : module.linked.tree.Holds id) :
    ∃ definition, module.linked.tree.definition? id = some definition ∧
      definition.module = id.module := by
  have found := List.getElem?_eq_getElem holds
  exact ⟨_, found, module.module_of_definition?_linked found⟩

/-! ### No identity leads nowhere -/

private theorem holds_user {index : Nat}
    (inside : index < module.definitions.length) :
    module.linked.tree.Holds (.user index) := by
  have length :
      module.linked.tree.root.definitions.length =
        module.definitions.length :=
    List.length_mapIdx
  exact Nat.lt_of_lt_of_eq inside length.symm

theorem holds_builtin {index : Nat}
    (inside : index ≤ Resolved.Builtin.names.length) :
    module.linked.tree.Holds (.builtin index) := by
  have length :
      Resolved.Builtin.module.definitions.length =
        Resolved.Builtin.names.length + 1 := by
    rw [Resolved.Builtin.definitions_module, List.length_map,
      List.length_append, List.length_singleton]
  exact Nat.lt_of_lt_of_eq (Nat.lt_succ_of_le inside) length.symm

theorem holds_of_numbered {identify : Nat → DefinitionId}
    {names : List String}
    (holds : ∀ index, index < names.length →
      module.linked.tree.Holds (identify index))
    {symbol : Symbol DefinitionId} {id : DefinitionId}
    (listed : symbol ∈ (Table.numbered identify names).symbols)
    (defined : symbol.definition? = some id) :
    module.linked.tree.Holds id := by
  obtain ⟨index, inside, rfl⟩ := List.mem_mapIdx.mp listed
  cases defined
  exact holds index inside

/-- Both scopes are made of numbered tables. -/
theorem holds_of_symbol {owner : ModuleId} {table : Table DefinitionId}
    (around : table ∈ (module.linked.tree.module owner).scope.tables)
    {symbol : Symbol DefinitionId} {id : DefinitionId}
    (listed : symbol ∈ table.symbols)
    (defined : symbol.definition? = some id) :
    module.linked.tree.Holds id := by
  have builtin (isBuiltin : table = Resolved.Builtin.scope.table) :
      module.linked.tree.Holds id := by
    rw [isBuiltin, Resolved.Builtin.scope_eq] at listed
    refine module.holds_of_numbered ?_ listed defined
    intro index inside
    exact module.holds_builtin (Nat.le_of_lt inside)
  cases owner with
  | builtin => exact builtin (List.mem_singleton.mp around)
  | user =>
      rcases List.mem_cons.mp around with rfl | isOuter
      · refine module.holds_of_numbered ?_ listed defined
        intro index inside
        rw [List.length_map] at inside
        exact module.holds_user inside
      · exact builtin (List.mem_singleton.mp isOuter)

theorem holds_of_lookup? {owner : ModuleId} {name : String}
    {id : DefinitionId}
    (found : (module.linked.tree.module owner).lookup? name = some id) :
    module.linked.tree.Holds id := by
  obtain ⟨table, around, symbol, listed, defined⟩ :=
    Scope.exists_of_definition? found
  exact module.holds_of_symbol around listed defined

theorem holds_of_field? {site : Site} {field : Resolved.Field}
    (found : module.linked.tree.field? site = some field) :
    module.linked.tree.Holds field.type := by
  rw [Module.field?_linked, ← Module.lookup?_linked] at found
  obtain ⟨⟨_, described⟩, _, rfl⟩ := Option.map_eq_some_iff.mp found
  rw [Field.linked]
  cases looked : module.linked.tree.lookup? described.typeName with
  | none => exact module.holds_builtin (Nat.le_refl _)
  | some id =>
      have inRoot :
          (module.linked.tree.module .user).lookup? described.typeName =
            some id :=
        looked
      exact module.holds_of_lookup? inRoot

theorem owner_of_constructor?_linked {id : DefinitionId} {index : Nat}
    {constructor : Resolved.Constructor}
    (found : module.linked.tree.constructor? id index = some constructor) :
    constructor.owner = id := by
  obtain ⟨definition, here, inside⟩ := Option.bind_eq_some_iff.mp found
  obtain ⟨owner, place⟩ := id
  cases owner with
  | user =>
      have linked := List.getElem?_mapIdx.symm.trans here
      obtain ⟨described, _, rfl⟩ := Option.map_eq_some_iff.mp linked
      rw [Definition.constructor?_linked] at inside
      obtain ⟨_, _, rfl⟩ := Option.map_eq_some_iff.mp inside
      rfl
  | builtin =>
      obtain ⟨name, rfl⟩ := Tree.exists_of_definition?_builtin rfl here
      cases inside

private theorem holds_of_constructor? {id : DefinitionId} {index : Nat}
    {constructor : Resolved.Constructor}
    (found : module.linked.tree.constructor? id index = some constructor) :
    module.linked.tree.Holds constructor.owner := by
  rw [module.owner_of_constructor?_linked found]
  obtain ⟨definition, here, _⟩ := Option.bind_eq_some_iff.mp found
  exact (List.getElem?_eq_some_iff.mp here).1

theorem holds_of_links {id : DefinitionId}
    (links : module.linked.tree.Links id) : module.linked.tree.Holds id := by
  cases links with
  | type found => exact module.holds_of_field? found
  | owner found => exact module.holds_of_constructor? found
  | symbol listed defined =>
      exact module.holds_of_symbol List.mem_cons_self listed defined
  | lookup found => exact module.holds_of_lookup? found
  | unresolved => exact module.holds_builtin (Nat.le_refl _)

private theorem isNode_iff {site : Site} {field : Resolved.Field}
    (found : module.linked.tree.field? site = some field) :
    field.isNode = true ↔
      ∃ definition ∈ module.linked.tree.root.definitions,
        module.linked.tree.typeOf? field = some definition := by
  obtain ⟨definition, isType, tagged⟩ :=
    module.exists_definition?_of_holds (module.holds_of_field? found)
  rw [Resolved.Field.isNode, beq_iff_eq]
  constructor
  · intro user
    refine ⟨definition, ?_, isType⟩
    rw [Tree.definition?, user] at isType
    exact List.mem_of_getElem? isType
  · rintro ⟨other, member, isOther⟩
    have same : definition = other :=
      Option.some.inj (isType.symm.trans isOther)
    obtain ⟨place, _, rfl⟩ := List.mem_mapIdx.mp member
    rw [← tagged, same]
    rfl

end Module

/-- Identities can be followed: each has its place in the module that it names,
and what is found there says that it belongs to that module.  The owner of a
constructor is a sum that lists the constructor, and a field holds nodes exactly
when its type is one of the definitions of the compiled module. -/
structure Tree.Intact (tree : Tree) : Prop where
  inside :
    ∀ id, tree.Links id →
      id.index < (tree.module id.module).definitions.length
  tagged :
    ∀ id, tree.Links id →
      ∃ definition, tree.definition? id = some definition ∧
        definition.module = id.module
  builtin :
    ∀ id, tree.Links id →
      Resolved.Builtin.definition? id =
        if id.module = .builtin then tree.definition? id else none
  type :
    ∀ site field, tree.field? site = some field →
      ∃ definition, tree.typeOf? field = some definition ∧
        definition.module = field.type.module
  owner :
    ∀ id index constructor, tree.constructor? id index = some constructor →
      ∃ definition, tree.definition? constructor.owner = some definition ∧
        definition.isSum = true ∧
        definition.constructor? index = some constructor
  node :
    ∀ site field, tree.field? site = some field →
      (field.isNode = true ↔
        ∃ definition ∈ tree.root.definitions,
          tree.typeOf? field = some definition)

private theorem Resolved.Definition.isSum_of_constructor?
    {definition : Definition}
    {index : Nat} {constructor : Constructor}
    (found : definition.constructor? index = some constructor) :
    definition.isSum = true := by
  unfold constructor? at found
  unfold isSum
  cases body : definition.body with
  | sum constructors => rfl
  | product members =>
      rw [body] at found
      cases found

/-- Whatever compiles has no identity that leads nowhere or elsewhere. -/
theorem intact_of_compile {module : Module} {compilation : Compilation}
    (compiled : compile module = .ok compilation) :
    compilation.tree.Intact := by
  obtain ⟨_, rfl⟩ := (compile_eq_ok_iff module compilation).mp compiled
  refine
    { inside := fun id links => module.holds_of_links links
      tagged := ?_
      builtin := ?_
      type := ?_
      owner := ?_
      node := fun site field found => module.isNode_iff found }
  · intro id links
    exact module.exists_definition?_of_holds (module.holds_of_links links)
  · rintro ⟨owner, index⟩ _
    cases owner with
    | user => rfl
    | builtin => rfl
  · intro site field found
    exact module.exists_definition?_of_holds (module.holds_of_field? found)
  · intro id index constructor found
    rw [module.owner_of_constructor?_linked found]
    obtain ⟨definition, here, listed⟩ := Option.bind_eq_some_iff.mp found
    exact
      ⟨definition, here,
        Resolved.Definition.isSum_of_constructor? listed, listed⟩

theorem intact_shadowing :
    ∃ compilation, compile Module.shadowing = .ok compilation ∧
      compilation.tree.Intact ∧
      [Site.constructorMember (.user 0) 0 0, .attribute (.user 0) 0,
          .productMember (.user 1) 1].map
          (fun site =>
            (compilation.tree.field? site).map Resolved.Field.type) =
        [some (.user 1), some (.builtin 1),
          some Resolved.Builtin.unresolved] := by
  have compiled :
      compile Module.shadowing = .ok Module.shadowing.linked :=
    (compile_eq_ok_iff _ _).mpr ⟨by decide, rfl⟩
  exact ⟨_, compiled, intact_of_compile compiled, by decide⟩

end Asdl
