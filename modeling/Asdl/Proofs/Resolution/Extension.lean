/-
Adding one definition to a module.

A definition with a new name, put behind all others, changes what compiling
makes of the module in the fields that mention the name and nowhere else.  Such
a field pointed at a built-in type or at the stand-in before, and points at the
new definition now; if it was reported, it no longer is.
-/

import Asdl.Proofs.Resolution.Reports

namespace Asdl

open Resolved (DefinitionId)

def Resolved.Slots.mapBeside {σ α : Type} (change : σ → α → α)
    (entries : List σ) (slots : Slots α) : Slots α :=
  { capacity := slots.capacity
    items := List.zipWith change entries slots.items
    length_le := by
      rw [List.length_zipWith]
      exact Nat.le_trans (Nat.min_le_right _ _) slots.length_le }

theorem Resolved.Slots.mapBeside_full {σ α : Type} (change : σ → α → α)
    (make : σ → α) (entries : List σ) :
    (full (entries.map make)).mapBeside change entries =
      full (entries.map fun entry => change entry (make entry)) := by
  simp only [mapBeside, full, List.length_map, List.zipWith_map_right,
    List.zipWith_self]

section Redirect

variable (name : String) (target : DefinitionId)

/-- A field that mentions the name points at the target. -/
def Field.redirect (field : Field) (resolved : Resolved.Field) :
    Resolved.Field :=
  if field.typeName = name then
    { resolved with type := target }
  else
    resolved

def Constructor.redirect (constructor : Constructor)
    (resolved : Resolved.Constructor) : Resolved.Constructor :=
  { resolved with
    members :=
      resolved.members.mapBeside (Field.redirect name target)
        constructor.members }

def Body.redirect : Body → Resolved.Body → Resolved.Body
  | sum constructors, .sum resolved =>
      .sum (resolved.mapBeside (Constructor.redirect name target) constructors)
  | product members, .product resolved =>
      .product (resolved.mapBeside (Field.redirect name target) members)
  | _, resolved => resolved

/-- Every field that mentions the name points at the target, and nothing else
is changed. -/
def Definition.redirect (definition : Definition)
    (resolved : Resolved.Definition) : Resolved.Definition :=
  { resolved with
    attributes :=
      resolved.attributes.mapBeside (Field.redirect name target)
        definition.attributes
    body := definition.body.redirect name target resolved.body }

end Redirect

/-- The fault says that the name has no definition. -/
def SemanticFault.isUndefined (name : String) : SemanticFault → Bool
  | duplicateConstructor _ _ _ _ => false
  | undefinedType _ other _ => other == name

private theorem Constructor.filter_repeatedFaults (name sum : String)
    (earlier : List Constructor) (constructor : Constructor) :
    ((Constructor.repeatedFaults sum earlier constructor).filter
        fun fault => !fault.isUndefined name) =
      Constructor.repeatedFaults sum earlier constructor := by
  unfold Constructor.repeatedFaults
  split
  · rfl
  · rfl

section Redirected

variable {name : String} {target : DefinitionId}
  {lookup? extended? : String → Option DefinitionId}
  (redirects : ∀ other,
    extended? other = if other = name then some target else lookup? other)

include redirects

theorem Field.redirect_linked (field : Field) :
    field.redirect name target (field.linked lookup?) =
      field.linked extended? := by
  simp only [redirect, linked, redirects]
  by_cases mentions : field.typeName = name
  · simp only [if_pos mentions, Option.getD_some]
  · simp only [if_neg mentions]

theorem Field.mapBeside_redirect_linked (fields : List Field) :
    (Resolved.Slots.full (fields.map (Field.linked lookup?))).mapBeside
        (Field.redirect name target) fields =
      .full (fields.map (Field.linked extended?)) := by
  simp only [Resolved.Slots.mapBeside_full, Field.redirect_linked redirects]

theorem Constructor.redirect_linked (owner : DefinitionId)
    (constructor : Constructor) :
    constructor.redirect name target (constructor.linked lookup? owner) =
      constructor.linked extended? owner := by
  simp only [redirect, linked, Field.mapBeside_redirect_linked redirects]

theorem Definition.redirect_linked (index : Nat) (definition : Definition) :
    definition.redirect name target (definition.linked lookup? index) =
      definition.linked extended? index := by
  obtain ⟨ownName, body, attributes, nameSpan, span⟩ := definition
  simp only [redirect, linked, Field.mapBeside_redirect_linked redirects]
  cases body with
  | product members =>
      simp only [Body.linked, Body.redirect,
        Field.mapBeside_redirect_linked redirects]
  | sum constructors =>
      simp only [Body.linked, Body.redirect, Resolved.Slots.mapBeside_full,
        Constructor.redirect_linked redirects]

theorem Field.faults_eq_filter (definition : String) (field : Field) :
    field.faults extended? definition =
      (field.faults lookup? definition).filter
        fun fault => !fault.isUndefined name := by
  unfold Field.faults
  rw [redirects]
  by_cases mentions : field.typeName = name
  · rw [if_pos mentions]
    cases lookup? field.typeName with
    | none => simp [SemanticFault.isUndefined, mentions]
    | some id => rfl
  · rw [if_neg mentions]
    cases lookup? field.typeName with
    | none => simp [SemanticFault.isUndefined, mentions]
    | some id => rfl

theorem Field.flatMap_faults_eq_filter (definition : String)
    (fields : List Field) :
    fields.flatMap (Field.faults extended? definition) =
      (fields.flatMap (Field.faults lookup? definition)).filter
        fun fault => !fault.isUndefined name := by
  rw [List.filter_flatMap]
  exact
    congrArg (fields.flatMap ·)
      (funext (Field.faults_eq_filter redirects definition))

private theorem Constructor.listFaults_eq_filter (sum : String)
    (earlier constructors : List Constructor) :
    Constructor.listFaults extended? sum earlier constructors =
      (Constructor.listFaults lookup? sum earlier constructors).filter
        fun fault => !fault.isUndefined name := by
  induction constructors generalizing earlier with
  | nil => rfl
  | cons constructor rest ih =>
      rw [Constructor.listFaults, Constructor.listFaults, ih,
        Field.flatMap_faults_eq_filter redirects, List.filter_append,
        List.filter_append, Constructor.filter_repeatedFaults]

theorem Definition.faults_eq_filter (definition : Definition) :
    definition.faults extended? =
      (definition.faults lookup?).filter
        fun fault => !fault.isUndefined name := by
  rw [Definition.faults, Definition.faults,
    Field.flatMap_faults_eq_filter redirects, List.filter_append]
  congr 1
  cases definition.body with
  | product members => exact Field.flatMap_faults_eq_filter redirects _ _
  | sum constructors => exact Constructor.listFaults_eq_filter redirects _ _ _

end Redirected

def SemanticFault.definition : SemanticFault → String
  | duplicateConstructor sum _ _ _ => sum
  | undefinedType definition _ _ => definition

theorem Module.definition_of_mem_undefinedTypes {module : Module}
    {definition : String} {fields : List Field} {fault : SemanticFault}
    (member : fault ∈ module.undefinedTypes definition fields) :
    fault.definition = definition := by
  obtain ⟨field, _, rfl⟩ := List.mem_map.mp member
  rfl

private theorem Constructor.definition_of_mem_repetition {sum : String}
    {constructors : List Constructor} {index : Nat}
    {constructor : Constructor} {fault : SemanticFault}
    (member :
      fault ∈ Constructor.repetition sum constructors index constructor) :
    fault.definition = sum := by
  unfold Constructor.repetition at member
  split at member
  · obtain ⟨first, _, rfl⟩ := List.mem_map.mp member
    rfl
  · cases member

private theorem Module.definition_of_mem_reports {module : Module}
    {definition : Definition} {fault : SemanticFault}
    (member : fault ∈ module.reports definition) :
    fault.definition = definition.name := by
  rw [Module.reports] at member
  rcases List.mem_append.mp member with inAttributes | inBody
  · exact Module.definition_of_mem_undefinedTypes inAttributes
  · cases body : definition.body with
    | product members =>
        rw [body] at inBody
        exact Module.definition_of_mem_undefinedTypes inBody
    | sum constructors =>
        rw [body] at inBody
        obtain ⟨block, isBlock, inBlock⟩ := List.mem_flatten.mp inBody
        obtain ⟨index, _, rfl⟩ := List.mem_mapIdx.mp isBlock
        rcases List.mem_append.mp inBlock with repeated | inMembers
        · exact Constructor.definition_of_mem_repetition repeated
        · exact Module.definition_of_mem_undefinedTypes inMembers

/-! ### Modules with one more definition -/

/-- The module with one more definition behind all others. -/
def Module.append (module : Module) (added : Definition) : Module :=
  { module with definitions := module.definitions ++ [added] }

theorem Module.listIdentity?_append {module : Module} {added : Definition}
    (fresh : added.name ∉ module.definitions.map Definition.name)
    (name : String) :
    Definition.listIdentity? (module.append added).definitions name =
      if name = added.name then
        some (.user module.definitions.length)
      else
        Definition.listIdentity? module.definitions name := by
  simp only [Module.append, Definition.listIdentity?, List.map_append,
    List.map_singleton, List.idxOf?, List.findIdx?_append, List.length_map,
    List.findIdx?_singleton]
  by_cases isAdded : name = added.name
  · subst isAdded
    have notFound := List.idxOf?_eq_none_iff.mpr fresh
    rw [List.idxOf?] at notFound
    simp only [notFound, Option.none_or, beq_self_eq_true, if_true,
      Option.map_some, Nat.zero_add, Option.some_or]
  · have skipped : (added.name == name) = false :=
      beq_eq_false_iff_ne.mpr fun same => isAdded same.symm
    simp only [skipped, Bool.false_eq_true, if_false, Option.map_none,
      Option.or_none, isAdded]

private theorem zipWith_mapIdx {α β γ : Type} (combine : α → β → γ)
    (make : Nat → α → β) (items : List α) :
    List.zipWith combine items (items.mapIdx make) =
      items.mapIdx fun index item => combine item (make index item) := by
  induction items generalizing make with
  | nil => rfl
  | cons first rest ih =>
      rw [List.mapIdx_cons, List.mapIdx_cons, List.zipWith_cons_cons, ih]

private theorem Module.nodup_append_iff {module : Module} {added : Definition}
    (fresh : added.name ∉ module.definitions.map Definition.name) :
    ((module.append added).definitions.map Definition.name).Nodup ↔
      (module.definitions.map Definition.name).Nodup := by
  rw [Module.append, List.map_append, List.map_singleton,
    List.nodup_append_comm, List.singleton_append, List.nodup_cons]
  exact and_iff_right fresh

/-- What a definition that is added to a module changes: the fields that mention
it point at it, and their types are no longer reported. -/
structure Compilation.Extends (module : Module) (added : Definition)
    (compilation extended : Compilation) : Prop where
  id : extended.tree.root.id = compilation.tree.root.id
  name : extended.tree.root.name = compilation.tree.root.name
  length :
    compilation.tree.root.definitions.length = module.definitions.length
  definitions :
    extended.tree.root.definitions =
      List.zipWith
          (Definition.redirect added.name (.user module.definitions.length))
          module.definitions compilation.tree.root.definitions ++
        [added.linked extended.tree.lookup? module.definitions.length]
  formerly :
    ∀ site definition field resolved,
      module.field? site = some (definition, field) →
        field.typeName = added.name →
        compilation.tree.field? site = some resolved →
        resolved.type =
          ((Resolved.Builtin.names.idxOf? added.name).map
            DefinitionId.builtin).getD Resolved.Builtin.unresolved
  lookup :
    ∀ name, extended.tree.lookup? name =
      if name = added.name then
        some (.user module.definitions.length)
      else
        compilation.tree.lookup? name
  faults :
    extended.faults =
      (compilation.faults.filter fun fault =>
          !fault.isUndefined added.name) ++
        (module.append added).reports added
  inside :
    ∀ fault ∈ (module.append added).reports added,
      fault.definition = added.name

private theorem Module.faults_linked_append {module : Module}
    {added : Definition}
    (fresh : added.name ∉ module.definitions.map Definition.name) :
    (module.append added).linked.faults =
      (module.linked.faults.filter fun fault =>
          !fault.isUndefined added.name) ++
        (module.append added).reports added := by
  have redirects := Module.listIdentity?_append fresh
  have eachFiltered :
      Definition.faults
          (Definition.listIdentity? (module.append added).definitions) =
        fun definition =>
          (definition.faults
            (Definition.listIdentity? module.definitions)).filter
              fun fault => !fault.isUndefined added.name :=
    funext (Definition.faults_eq_filter redirects)
  have own := Definition.faults_eq_reports (module.append added) added
  rw [← own]
  simp only [Module.linked, List.filter_flatMap, ← eachFiltered]
  simp only [Module.append, List.flatMap_append, List.flatMap_singleton]

private theorem Module.definitions_linked_append {module : Module}
    {added : Definition}
    (fresh : added.name ∉ module.definitions.map Definition.name) :
    (module.append added).linked.tree.root.definitions =
      List.zipWith
          (Definition.redirect added.name (.user module.definitions.length))
          module.definitions module.linked.tree.root.definitions ++
        [added.linked (module.append added).linked.tree.lookup?
          module.definitions.length] := by
  have redirects := Module.listIdentity?_append fresh
  have eachRedirected := Definition.redirect_linked redirects
  rw [Module.lookup?_linked]
  simp only [Module.linked, zipWith_mapIdx, eachRedirected]
  exact List.mapIdx_concat

/-- A module that compiles still does with a definition of a new name behind it,
and only the fields that mention the name are touched. -/
theorem extends_of_append {module : Module} {compilation : Compilation}
    (compiled : compile module = .ok compilation) {added : Definition}
    (fresh : added.name ∉ module.definitions.map Definition.name) :
    ∃ extended, compile (module.append added) = .ok extended ∧
      compilation.Extends module added extended := by
  obtain ⟨distinct, rfl⟩ := (compile_eq_ok_iff module compilation).mp compiled
  refine
    ⟨(module.append added).linked,
      (compile_eq_ok_iff _ _).mpr
        ⟨(Module.nodup_append_iff fresh).mpr distinct, rfl⟩,
      { id := rfl
        name := rfl
        length := List.length_mapIdx
        definitions := Module.definitions_linked_append fresh
        formerly := ?_
        lookup := ?_
        faults := Module.faults_linked_append fresh
        inside := fun fault => Module.definition_of_mem_reports }⟩
  · intro site definition field resolved isField mentions found
    have absent :
        ∀ other ∈ module.definitions, other.name ≠ added.name := by
      intro other member same
      exact fresh (same ▸ List.mem_map_of_mem member)
    rw [Module.field?_linked, isField, Option.map_some] at found
    cases found
    rw [Field.linked, mentions, Definition.listIdentity?_of_forall_ne absent]
  · intro name
    rw [Module.lookup?_linked, Module.lookup?_linked,
      Module.listIdentity?_append fresh]

/-- The type that two fields of the faulty module lack.  It mentions itself and
one more type that nobody defines. -/
def Definition.twig : Definition :=
  let field (typeName : String) (start : Nat) : Field :=
    { typeName := typeName
      cardinality := .optional
      name? := none
      span := .point start }
  { name := "twig"
    body := .product [field "twig" 60, field "bark" 61]
    attributes := []
    nameSpan := .point 5
    span := .point 6 }

theorem extends_twig :
    ∃ compilation extended,
      compile Module.faulty = .ok compilation ∧
        compile (Module.faulty.append .twig) = .ok extended ∧
        compilation.Extends Module.faulty .twig extended ∧
        extended.faults =
          [.undefinedType "tree" "root" (.point 41),
            .duplicateConstructor "tree" "Leaf" (.point 20) (.point 10),
            .duplicateConstructor "tree" "Leaf" (.point 30) (.point 10),
            .undefinedType "twig" "bark" (.point 61)] := by
  have compiled : compile Module.faulty = .ok Module.faulty.linked :=
    (compile_eq_ok_iff _ _).mpr ⟨by decide, rfl⟩
  have fresh :
      Definition.twig.name ∉
        Module.faulty.definitions.map Definition.name := by
    decide
  obtain ⟨extended, compiledToo, touched⟩ := extends_of_append compiled fresh
  refine ⟨_, extended, compiled, compiledToo, touched, ?_⟩
  rw [touched.faults]
  decide

end Asdl
