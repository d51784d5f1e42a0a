/-
What compiling makes of a whole module.

The first pass numbers the names of the module in the order of declaration and
stops at the first name that it has numbered before.  With distinct names both
passes run to the end, and the tree is the description with every name of a
type replaced by an identity: that of the definition of the module with the
name, else that of the built-in type with the name, else the stand-in.
-/

import Mathlib.Data.List.Nodup
import Asdl.Proofs.Resolution.Linked

namespace Asdl

open Resolved (DefinitionId)

/-- The names of the definitions inside those of the built-in types. -/
def Definition.listScope (definitions : List Definition) :
    Scope DefinitionId :=
  { table := .numbered .user (definitions.map Definition.name)
    outer := [Resolved.Builtin.scope.table] }

/-- What a name stands for beside the definitions: the first of them with the
name, else the built-in type with the name. -/
def Definition.listIdentity? (definitions : List Definition)
    (name : String) : Option DefinitionId :=
  (((definitions.map Definition.name).idxOf? name).map .user).or
    ((Resolved.Builtin.names.idxOf? name).map .builtin)

theorem Definition.definition?_listScope (definitions : List Definition) :
    (listScope definitions).definition? = listIdentity? definitions := by
  funext name
  simp only [Scope.definition?, Scope.resolve?, listScope, listIdentity?,
    Resolved.Builtin.scope_eq, List.findSome?_cons, List.findSome?_nil,
    Table.find?_numbered]
  cases (definitions.map Definition.name).idxOf? name with
  | some index => rfl
  | none =>
      cases Resolved.Builtin.names.idxOf? name with
      | some index => rfl
      | none => rfl

namespace Resolution

def Declared.ofDefinitions (name : String) (definitions : List Definition) :
    Declared :=
  { module :=
      .numbered .user (.fresh name) [Resolved.Builtin.scope.table]
        (definitions.map fun source => (source.name, skeleton source))
    pending :=
      definitions.mapIdx fun index source =>
        { id := .user index
          source := source } }

section Add

variable (name : String) (all : List Definition)
  {earlier : List Definition} {source : Definition}

theorem Declared.add_of_not_mem
    (unknown : source.name ∉ earlier.map Definition.name) :
    (ofDefinitions name earlier).add all source =
      .ok (ofDefinitions name (earlier ++ [source])) := by
  have unnamed :
      source.name ∉
        (earlier.map fun source => (source.name, skeleton source)).map
          Prod.fst := by
    rwa [List.map_map]
  simp only [add, ofDefinitions,
    Resolved.Module.introduce_numbered_of_not_mem _ _ _ _ unnamed,
    List.length_map, List.map_append, List.map_singleton, List.mapIdx_concat]
  rfl

theorem Declared.add_of_mem
    (known : source.name ∈ earlier.map Definition.name) :
    (ofDefinitions name earlier).add all source =
      .error
        (.duplicateDefinition source.name source.nameSpan
          (firstNameSpan? all source.name)) := by
  have named :
      source.name ∈
        (earlier.map fun source => (source.name, skeleton source)).map
          Prod.fst := by
    rwa [List.map_map]
  simp only [add, ofDefinitions,
    Resolved.Module.introduce_numbered_of_mem _ _ _ _ named]

end Add

/-- From any distinct names on, the pass goes to the end exactly when the names
stay distinct. -/
theorem foldlM_add_eq_ok_iff (name : String)
    (all earlier rest : List Definition)
    (distinct : (earlier.map Definition.name).Nodup) (declared : Declared) :
    rest.foldlM (Declared.add all) (.ofDefinitions name earlier) =
        .ok declared ↔
      ((earlier ++ rest).map Definition.name).Nodup ∧
        declared = .ofDefinitions name (earlier ++ rest) := by
  induction rest generalizing earlier with
  | nil =>
      simp only [List.foldlM_nil, List.append_nil, distinct, true_and]
      constructor
      · intro declares
        cases declares
        rfl
      · rintro rfl
        rfl
  | cons source rest ih =>
      rw [List.foldlM_cons]
      by_cases known : source.name ∈ earlier.map Definition.name
      · rw [Declared.add_of_mem name all known]
        constructor
        · intro impossible
          cases impossible
        · rintro ⟨stayDistinct, _⟩
          rw [List.map_append, List.map_cons, List.nodup_append] at stayDistinct
          exact absurd rfl
            (stayDistinct.2.2 source.name known source.name
              List.mem_cons_self)
      · have nextDistinct :
            ((earlier ++ [source]).map Definition.name).Nodup := by
          rw [List.map_append, List.map_singleton, List.nodup_append]
          refine ⟨distinct, List.nodup_singleton _, ?_⟩
          intro name isEarlier other isSource same
          rw [List.mem_singleton.mp isSource] at same
          exact known (same ▸ isEarlier)
        rw [Declared.add_of_not_mem name all known]
        have remaining := ih (earlier ++ [source]) nextDistinct
        rw [List.append_assoc, List.singleton_append] at remaining
        exact remaining

theorem Declared.start_eq (name : String) :
    start name = ofDefinitions name [] := by
  rw [start, ofDefinitions, Resolved.Builtin.scope_eq]
  rfl

theorem declare_eq_ok_iff (module : Module) (declared : Declared) :
    declare module = .ok declared ↔
      (module.definitions.map Definition.name).Nodup ∧
        declared = .ofDefinitions module.name module.definitions := by
  rw [declare, Declared.start_eq]
  exact foldlM_add_eq_ok_iff module.name _ [] _ List.nodup_nil declared

end Resolution

/-! ### Both passes -/

/-- The description with identities for the names of types, and everything that
there is to report about it. -/
def Module.linked (module : Module) : Compilation :=
  let identity? := Definition.listIdentity? module.definitions
  { tree :=
      { root :=
          { id := .user
            name := .fresh module.name
            scope := Definition.listScope module.definitions
            definitions :=
              module.definitions.mapIdx (Definition.linked identity?) } }
    faults := module.definitions.flatMap (Definition.faults identity?) }

theorem map_mapIdx {α β γ : Type} (items : List α) (make : Nat → α → β)
    (change : β → γ) :
    (items.mapIdx make).map change =
      items.mapIdx fun index item => change (make index item) := by
  apply List.ext_getElem?
  intro index
  rw [List.getElem?_map, List.getElem?_mapIdx, List.getElem?_mapIdx,
    Option.map_map]
  rfl

namespace Resolution

section Resolve

variable {σ : Type} [FaultHandler σ]

private theorem completes_fillPending (scope : Scope DefinitionId)
    (front behind : List Resolved.Definition) (source : Definition) :
    Reporting.Completes
      (fillPending scope (front ++ skeleton source :: behind)
        { id := .user front.length
          source := source } : Reporting σ _)
      (front ++ source.linked scope.definition? front.length :: behind)
      (source.faults scope.definition?) := by
  have target :
      (front ++ skeleton source :: behind)[
          (DefinitionId.user front.length).index]? =
        some (skeleton source) := by
    simp [DefinitionId.user]
  simp only [fillPending, target]
  refine
    (completes_fillDefinition_skeleton scope front.length source).bind ?_
      (List.append_nil _).symm
  simpa [DefinitionId.user] using Reporting.completes_pure _

private theorem completes_foldlM_fillPending (scope : Scope DefinitionId)
    (filled : List Resolved.Definition) (sources : List Definition) :
    Reporting.Completes
      ((sources.mapIdx fun index source =>
          ({ id := .user (filled.length + index)
             source := source } : Pending)).foldlM
        (fillPending scope) (filled ++ sources.map skeleton) :
        Reporting σ _)
      (filled ++
        sources.mapIdx fun index source =>
          source.linked scope.definition? (filled.length + index))
      (sources.flatMap (Definition.faults scope.definition?)) := by
  induction sources generalizing filled with
  | nil => exact Reporting.completes_pure _
  | cons source rest ih =>
      have others :=
        ih (filled ++ [source.linked scope.definition? filled.length])
      simp only [List.length_append, List.length_singleton, Nat.add_assoc,
        Nat.add_comm 1, List.append_assoc, List.singleton_append] at others
      rw [List.mapIdx_cons, List.mapIdx_cons, List.map_cons,
        List.foldlM_cons]
      exact
        (completes_fillPending scope filled _ source).bind others
          List.flatMap_cons

theorem run_resolve_of_declare_error {module : Module}
    {fault : StructuralFault}
    (stops : declare module = .error fault) (handler : σ) :
    (resolve module).run.run handler = (.error fault, handler) := by
  rw [resolve, stops]
  rfl

private theorem completes_fillAll (module : Module) :
    Reporting.Completes
      (fillAll (.ofDefinitions module.name module.definitions) :
        Reporting σ _)
      module.linked.tree.root module.linked.faults := by
  have skeletons :
      (Declared.ofDefinitions module.name module.definitions).module =
        { module.linked.tree.root with
          definitions := module.definitions.map skeleton } := by
    simp only [Declared.ofDefinitions, Resolved.Module.numbered,
      List.map_map]
    rfl
  have fills :=
    completes_foldlM_fillPending (σ := σ)
      (Definition.listScope module.definitions) [] module.definitions
  rw [Definition.definition?_listScope] at fills
  simp only [List.length_nil, Nat.zero_add, List.nil_append] at fills
  rw [fillAll, skeletons]
  exact fills.bind (Reporting.completes_pure _) (List.append_nil _).symm

theorem completes_resolve {module : Module}
    (distinct : (module.definitions.map Definition.name).Nodup) :
    Reporting.Completes (resolve module : Reporting σ Tree)
      module.linked.tree module.linked.faults := by
  have declares := (declare_eq_ok_iff module _).mpr ⟨distinct, rfl⟩
  rw [resolve, declares]
  refine (Reporting.completes_pure _).bind ?_ rfl
  exact
    (completes_fillAll module).bind (Reporting.completes_pure _)
      (List.append_nil _).symm

end Resolve

end Resolution

section Build

variable {σ : Type} [FaultHandler σ] {module : Module}

theorem Tree.build_of_declare_error {fault : StructuralFault}
    (stops : Resolution.declare module = .error fault)
    (handler : σ) : Tree.build module handler = (.error fault, handler) :=
  Resolution.run_resolve_of_declare_error stops handler

theorem Tree.build_of_nodup
    (distinct : (module.definitions.map Definition.name).Nodup)
    (handler : σ) :
    Tree.build module handler =
      (.ok module.linked.tree,
        FaultHandler.reportAll handler module.linked.faults) :=
  Resolution.completes_resolve distinct handler

end Build

theorem FaultCollector.reportAll_eq (collector : FaultCollector)
    (faults : List SemanticFault) :
    FaultHandler.reportAll collector faults =
      { faults := collector.faults ++ faults } := by
  unfold FaultHandler.reportAll
  induction faults generalizing collector with
  | nil => rw [List.append_nil, List.foldl_nil]
  | cons fault rest ih =>
      rw [List.foldl_cons, ih]
      simp [FaultHandler.report]

theorem compile_eq_ok_iff (module : Module) (compilation : Compilation) :
    compile module = .ok compilation ↔
      (module.definitions.map Definition.name).Nodup ∧
        compilation = module.linked := by
  cases declares : Resolution.declare module with
  | error fault =>
      rw [compile, Tree.build_of_declare_error declares]
      constructor
      · intro impossible
        cases impossible
      · rintro ⟨distinct, _⟩
        have succeeds :=
          (Resolution.declare_eq_ok_iff module _).mpr
            ⟨distinct, rfl⟩
        rw [declares] at succeeds
        cases succeeds
  | ok declared =>
      obtain ⟨distinct, _⟩ :=
        (Resolution.declare_eq_ok_iff module _).mp declares
      rw [compile, Tree.build_of_nodup distinct, FaultCollector.reportAll_eq]
      simp only [FaultCollector.empty, List.nil_append, distinct, true_and]
      constructor
      · intro same
        cases same
        rfl
      · rintro rfl
        rfl

theorem Definition.listIdentity?_of_getElem? {definitions : List Definition}
    (distinct : (definitions.map Definition.name).Nodup) {index : Nat}
    {definition : Definition}
    (placed : definitions[index]? = some definition) :
    listIdentity? definitions definition.name = some (.user index) := by
  obtain ⟨inside, here⟩ := List.getElem?_eq_some_iff.mp placed
  have insideNames : index < (definitions.map Definition.name).length := by
    rw [List.length_map]
    exact inside
  have named :
      (definitions.map Definition.name)[index] = definition.name := by
    rw [List.getElem_map, here]
  have first :
      (definitions.map Definition.name).idxOf? definition.name =
        some index := by
    rw [List.idxOf?_eq_some_iff]
    refine ⟨insideNames, named, ?_⟩
    intro earlier before same
    rw [← named] at same
    have samePlace := (List.Nodup.getElem_inj_iff distinct).mp same
    omega
  rw [listIdentity?, first, Option.map_some, Option.some_or]

theorem Definition.listIdentity?_of_forall_ne {definitions : List Definition}
    {name : String}
    (absent : ∀ definition ∈ definitions, definition.name ≠ name) :
    listIdentity? definitions name =
      (Resolved.Builtin.names.idxOf? name).map .builtin := by
  have notFound : (definitions.map Definition.name).idxOf? name = none := by
    rw [List.idxOf?_eq_none_iff, List.mem_map]
    rintro ⟨definition, member, same⟩
    exact absent definition member same
  rw [listIdentity?, notFound, Option.map_none, Option.none_or]

/-- The tree is the description with identities for the names of types.  What
its lookup gives for a name decides every field whose type has the name, with
the stand-in where the lookup gives nothing; and the lookup knows the
definitions of the module by their places and the built-in types behind
them. -/
structure Tree.Mirrors (tree : Tree) (module : Module) : Prop where
  id : tree.root.id = .user
  name : tree.root.name = .fresh module.name
  definitions :
    tree.root.definitions =
      module.definitions.mapIdx (Definition.linked tree.lookup?)
  own :
    ∀ index definition, module.definitions[index]? = some definition →
      tree.lookup? definition.name = some (.user index)
  builtin :
    ∀ name, (∀ definition ∈ module.definitions, definition.name ≠ name) →
      tree.lookup? name =
        (Resolved.Builtin.names.idxOf? name).map .builtin

theorem Module.lookup?_linked (module : Module) :
    module.linked.tree.lookup? =
      Definition.listIdentity? module.definitions :=
  Definition.definition?_listScope module.definitions

/-- Whatever compiles is mirrored by its tree. -/
theorem mirrors_of_compile {module : Module} {compilation : Compilation}
    (compiled : compile module = .ok compilation) :
    compilation.tree.Mirrors module := by
  obtain ⟨distinct, rfl⟩ := (compile_eq_ok_iff module compilation).mp compiled
  refine
    { id := rfl
      name := rfl
      definitions := ?_
      own := ?_
      builtin := ?_ }
  · rw [Module.lookup?_linked]
    rfl
  · intro index definition placed
    rw [Module.lookup?_linked]
    exact Definition.listIdentity?_of_getElem? distinct placed
  · intro name absent
    rw [Module.lookup?_linked]
    exact Definition.listIdentity?_of_forall_ne absent

/-- A sum that mentions itself, a product declared behind it that hides a
built-in type, another built-in type and a name that leads nowhere; and a
constructor that comes twice. -/
def Module.shadowing : Module :=
  let field (typeName : String) (cardinality : Cardinality) : Field :=
    { typeName := typeName
      cardinality := cardinality
      name? := none
      span := .zero }
  let constructor (name : String) (members : List Field) : Constructor :=
    { name := name
      members := members
      span := .zero }
  let definition (name : String) (body : Body) (attributes : List Field) :
      Definition :=
    { name := name
      body := body
      attributes := attributes
      nameSpan := .zero
      span := .zero }
  { name := "Shadowing"
    definitions :=
      [definition "expr"
          (.sum
            [constructor "Number" [field "int" .single],
              constructor "Call" [field "expr" .sequence],
              constructor "Number" []])
          [field "string" .optional],
        definition "int"
          (.product [field "expr" .single, field "nowhere" .optional]) []]
    span := .zero }

theorem mirrors_shadowing :
    ∃ compilation, compile Module.shadowing = .ok compilation ∧
      compilation.tree.Mirrors Module.shadowing ∧
      ["expr", "int", "string", "nowhere"].map compilation.tree.lookup? =
        [some (.user 0), some (.user 1), some (.builtin 1), none] := by
  have compiled :
      compile Module.shadowing = .ok Module.shadowing.linked :=
    (compile_eq_ok_iff _ _).mpr ⟨by decide, rfl⟩
  exact ⟨_, compiled, mirrors_of_compile compiled, by decide⟩

end Asdl
