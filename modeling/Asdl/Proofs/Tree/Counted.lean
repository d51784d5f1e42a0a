/-
What a compiled tree says about itself in sum.

Linking keeps every list of a description, so whether a definition only lists
alternatives, and how many parts of each kind there are, can be asked of the
tree as well as of the description.  Counting adds to what is counted already;
a count of some parts and then of others is the count of both, so the numbers of
a module are found level by level.
-/

import Asdl.Proofs.Resolution.Reports

namespace Asdl

open Resolved (DefinitionId)

namespace Census

def add (left right : Census) : Census :=
  { sums := left.sums + right.sums
    products := left.products + right.products
    constructors := left.constructors + right.constructors
    fields := left.fields + right.fields
    nodeFields := left.nodeFields + right.nodeFields }

/-- So many sums and products, with all their constructors and fields.  A field
holds nodes when its type has one of the names. -/
def listing (names : List String) (sums products : Nat)
    (constructors : List Constructor) (fields : List Field) : Census :=
  { sums := sums
    products := products
    constructors := constructors.length
    fields := fields.length
    nodeFields := fields.countP fun field => names.contains field.typeName }

theorem zero_add (census : Census) : zero.add census = census := by
  simp only [add, zero, Nat.zero_add]

variable (names : List String)

theorem add_listing_append (census : Census) (sums moreSums products
    moreProducts : Nat) (constructors moreConstructors : List Constructor)
    (fields moreFields : List Field) :
    (census.add (listing names sums products constructors fields)).add
        (listing names moreSums moreProducts moreConstructors moreFields) =
      census.add
        (listing names (sums + moreSums) (products + moreProducts)
          (constructors ++ moreConstructors) (fields ++ moreFields)) := by
  simp only [add, listing, List.length_append, List.countP_append,
    Nat.add_assoc]

theorem countEach_cons {α : Type} (count : α → Census → Census) (first : α)
    (others : List α) (census : Census) :
    countEach count (first :: others) census =
      countEach count others (count first census) :=
  rfl

theorem countEach_append {α : Type} (count : α → Census → Census)
    (items others : List α) (census : Census) :
    countEach count (items ++ others) census =
      countEach count others (countEach count items census) :=
  List.foldl_append

theorem countEach_map {α β : Type} (count : β → Census → Census)
    (change : α → β) (items : List α) (census : Census) :
    countEach count (items.map change) census =
      countEach (fun item => count (change item)) items census :=
  List.foldl_map

end Census

/-- The parts of some definitions by kind. -/
def Definition.listCensus (names : List String)
    (definitions : List Definition) : Census :=
  Census.listing names (definitions.countP isSum)
    (definitions.countP fun definition => !definition.isSum)
    (definitions.flatMap fun definition => definition.body.constructors)
    (definitions.flatMap fields)

/-- The parts of a module by kind, where the fields that hold nodes are those
whose type is defined in the module. -/
def Module.census (module : Module) : Census :=
  Definition.listCensus (module.definitions.map Definition.name)
    module.definitions

namespace Census

section Linked

variable {names : List String} {lookup? : String → Option DefinitionId}
  (nodes : ∀ field : Field,
    (field.linked lookup?).isNode = names.contains field.typeName)

include nodes

private theorem countField_linked (field : Field) (census : Census) :
    countField (field.linked lookup?) census =
      census.add (listing names 0 0 [] [field]) := by
  simp only [countField, nodes, add, listing, List.length_nil,
    List.length_singleton, List.countP_singleton, Nat.add_zero]

theorem countEach_linked_fields (fields : List Field) (census : Census) :
    countEach countField (fields.map (Field.linked lookup?)) census =
      census.add (listing names 0 0 [] fields) := by
  induction fields generalizing census with
  | nil => rfl
  | cons first others ih =>
      rw [List.map_cons, countEach_cons, countField_linked nodes, ih,
        add_listing_append]
      rfl

private theorem countConstructor_linked (owner : DefinitionId)
    (constructor : Constructor) (census : Census) :
    countConstructor (constructor.linked lookup? owner) census =
      census.add (listing names 0 0 [constructor] constructor.members) := by
  have own :
      { census with constructors := census.constructors + 1 } =
        census.add (listing names 0 0 [constructor] []) :=
    rfl
  rw [countConstructor, own]
  simp only [Constructor.linked, Resolved.Slots.full,
    countEach_linked_fields nodes, add_listing_append, List.nil_append,
    List.append_nil]

private theorem countEach_linked_constructors (owner : DefinitionId)
    (constructors : List Constructor) (census : Census) :
    countEach countConstructor
        (constructors.map (Constructor.linked lookup? owner)) census =
      census.add
        (listing names 0 0 constructors
          (constructors.flatMap Constructor.members)) := by
  induction constructors generalizing census with
  | nil => rfl
  | cons first others ih =>
      rw [List.map_cons, countEach_cons, countConstructor_linked nodes, ih,
        add_listing_append]
      rfl

private theorem countDefinition_linked_of_sum (index : Nat)
    {definition : Definition}
    {constructors : List Constructor}
    (isSum : definition.body = .sum constructors) (census : Census) :
    countDefinition (definition.linked lookup? index) census =
      census.add
        (listing names 1 0 constructors
          (constructors.flatMap Constructor.members ++
            definition.attributes)) := by
  have own :
      { census with sums := census.sums + 1 } =
        census.add (listing names 1 0 [] []) :=
    rfl
  rw [countDefinition, Definition.linked, isSum]
  simp only [Body.linked, countSum, Resolved.Slots.full, own,
    countEach_linked_constructors nodes, countEach_linked_fields nodes,
    add_listing_append, List.nil_append, List.append_nil]

private theorem countDefinition_linked_of_product (index : Nat)
    {definition : Definition}
    {members : List Field} (isProduct : definition.body = .product members)
    (census : Census) :
    countDefinition (definition.linked lookup? index) census =
      census.add
        (listing names 0 1 [] (members ++ definition.attributes)) := by
  have own :
      { census with products := census.products + 1 } =
        census.add (listing names 0 1 [] []) :=
    rfl
  rw [countDefinition, Definition.linked, isProduct]
  simp only [Body.linked, countProduct, Resolved.Slots.full, own,
    countEach_append, countEach_linked_fields nodes, add_listing_append,
    List.nil_append, List.append_nil]

/-- Attributes are counted behind the body and listed in front of it, which
makes no difference to their number. -/
theorem countDefinition_linked (index : Nat) (definition : Definition)
    (census : Census) :
    countDefinition (definition.linked lookup? index) census =
      census.add (Definition.listCensus names [definition]) := by
  cases isBody : definition.body with
  | sum constructors =>
      rw [countDefinition_linked_of_sum nodes index isBody]
      simp [Definition.listCensus, listing, Definition.isSum,
        Definition.fields, Body.constructors, Body.fields, isBody,
        Nat.add_comm]
  | product members =>
      rw [countDefinition_linked_of_product nodes index isBody]
      simp [Definition.listCensus, listing, Definition.isSum,
        Definition.fields, Body.constructors, Body.fields, isBody,
        Nat.add_comm]

end Linked

private theorem listCensus_cons (names : List String) (census : Census)
    (first : Definition) (others : List Definition) :
    (census.add (Definition.listCensus names [first])).add
        (Definition.listCensus names others) =
      census.add (Definition.listCensus names (first :: others)) := by
  simp only [Definition.listCensus, add_listing_append]
  rw [← List.countP_append, ← List.countP_append, ← List.flatMap_append,
    ← List.flatMap_append]
  rfl

private theorem countEach_definitions {names : List String}
    {place : Nat → Definition → Resolved.Definition}
    (counts : ∀ index definition census,
      countDefinition (place index definition) census =
        census.add (Definition.listCensus names [definition]))
    (definitions : List Definition) (census : Census) :
    countEach countDefinition (definitions.mapIdx place) census =
      census.add (Definition.listCensus names definitions) := by
  induction definitions generalizing place census with
  | nil => rfl
  | cons first others ih =>
      have behind := ih fun index => counts (index + 1)
      rw [List.mapIdx_cons, countEach_cons, counts, behind, listCensus_cons]

end Census

private theorem Field.isNode_linked (definitions : List Definition)
    (field : Field) :
    (field.linked (Definition.listIdentity? definitions)).isNode =
      (definitions.map Definition.name).contains field.typeName := by
  rw [Resolved.Field.isNode, linked, Definition.listIdentity?]
  cases own : (definitions.map Definition.name).idxOf? field.typeName with
  | some index =>
      have known : field.typeName ∈ definitions.map Definition.name := by
        by_contra unknown
        rw [List.idxOf?_eq_none_iff.mpr unknown] at own
        cases own
      rw [List.contains_iff_mem.mpr known]
      rfl
  | none =>
      have unknown := List.idxOf?_eq_none_iff.mp own
      rw [Bool.eq_false_iff.mpr (mt List.contains_iff_mem.mp unknown)]
      cases Resolved.Builtin.names.idxOf? field.typeName with
      | some index => rfl
      | none => rfl

private theorem Module.countModule_linked (module : Module) (census : Census) :
    Census.countModule module.linked.tree.root census =
      census.add module.census :=
  Census.countEach_definitions
    (Census.countDefinition_linked (Field.isNode_linked module.definitions))
    module.definitions census

/-! ### Visitors that count -/

namespace Visitor

variable {tree : Tree} {visitor : Visitor (Census → Census)}

def sendEach (tree : Tree) (visitor : Visitor (Census → Census))
    (nodes : List Node) (census : Census) : Census :=
  Census.countEach (Node.accept tree visitor) nodes census

theorem sendEach_append (nodes others : List Node) (census : Census) :
    sendEach tree visitor (nodes ++ others) census =
      sendEach tree visitor others (sendEach tree visitor nodes census) :=
  Census.countEach_append _ nodes others census

/-- The visitor counts each node that it is sent to, and is then sent to the
parts of the node.  The types of fields are no parts. -/
structure Counts (tree : Tree) (visitor : Visitor (Census → Census)) :
    Prop where
  module :
    ∀ (module : Resolved.Module) (census : Census),
      visitor.module tree module census =
        sendEach tree visitor (module.definitions.map .definition) census
  sum :
    ∀ (definition : Resolved.Definition)
      (constructors : Resolved.Slots Resolved.Constructor) (census : Census),
      visitor.sum tree definition constructors census =
        sendEach tree visitor
          (constructors.items.map .constructor ++
            definition.attributes.items.map .field)
          { census with sums := census.sums + 1 }
  product :
    ∀ (definition : Resolved.Definition)
      (members : Resolved.Slots Resolved.Field) (census : Census),
      visitor.product tree definition members census =
        sendEach tree visitor
          ((members.items ++ definition.attributes.items).map .field)
          { census with products := census.products + 1 }
  constructor :
    ∀ (constructor : Resolved.Constructor) (census : Census),
      visitor.constructor tree constructor census =
        sendEach tree visitor (constructor.members.items.map .field)
          { census with constructors := census.constructors + 1 }
  field :
    ∀ (field : Resolved.Field) (census : Census),
      visitor.field tree field census =
        { census with
          fields := census.fields + 1
          nodeFields :=
            census.nodeFields + if field.isNode then 1 else 0 }

namespace Counts

theorem sendEach_fields (counts : visitor.Counts tree)
    (fields : List Resolved.Field) :
    sendEach tree visitor (fields.map .field) =
      Census.countEach Census.countField fields := by
  have each : visitor.field tree = Census.countField := by
    funext field census
    exact counts.field field census
  funext census
  rw [sendEach, Census.countEach_map, ← each]
  rfl

private theorem sendEach_constructors (counts : visitor.Counts tree)
    (constructors : List Resolved.Constructor) :
    sendEach tree visitor (constructors.map .constructor) =
      Census.countEach Census.countConstructor constructors := by
  have each : visitor.constructor tree = Census.countConstructor := by
    funext constructor census
    rw [counts.constructor, counts.sendEach_fields]
    rfl
  funext census
  rw [sendEach, Census.countEach_map, ← each]
  rfl

private theorem accept_definition (counts : visitor.Counts tree)
    (definition : Resolved.Definition) :
    (Node.definition definition).accept tree visitor =
      Census.countDefinition definition := by
  funext census
  rw [Node.accept, Census.countDefinition]
  cases definition.body with
  | sum constructors =>
      simp only [counts.sum, sendEach_append, counts.sendEach_constructors,
        counts.sendEach_fields, Census.countSum]
  | product members =>
      simp only [counts.product, counts.sendEach_fields, Census.countProduct]

private theorem accept_module (counts : visitor.Counts tree)
    (module : Resolved.Module) :
    (Node.module module).accept tree visitor = Census.countModule module := by
  funext census
  rw [Node.accept, counts.module, sendEach, Census.countEach_map]
  simp only [counts.accept_definition]
  rfl

end Counts

end Visitor

private theorem Census.counts_counter (tree : Tree) : counter.Counts tree := by
  refine
    { module := ?_
      sum := ?_
      product := ?_
      constructor := ?_
      field := fun _ _ => rfl }
  · intro module census
    have each (definition : Resolved.Definition) :
        (Node.definition definition).accept tree counter =
          countDefinition definition := by
      rw [Node.accept, countDefinition]
      cases definition.body <;> rfl
    rw [Visitor.sendEach, countEach_map]
    simp only [each]
    rfl
  · intro definition constructors census
    rw [Visitor.sendEach_append, Visitor.sendEach, Visitor.sendEach,
      countEach_map, countEach_map]
    rfl
  · intro definition members census
    rw [Visitor.sendEach, countEach_map]
    rfl
  · intro constructor census
    rw [Visitor.sendEach, countEach_map]
    rfl

private theorem Definition.isSimple_linked
    (lookup? : String → Option DefinitionId)
    (index : Nat) (definition : Definition) :
    (definition.linked lookup? index).isSimple = definition.isSimple := by
  rw [Resolved.Definition.isSimple, isSimple, linked]
  cases definition.body with
  | product members => rfl
  | sum constructors =>
      have members :
          (constructors.map (Constructor.linked lookup? (.user index))).all
              (fun constructor => constructor.members.isEmpty) =
            constructors.all fun constructor =>
              constructor.members.isEmpty := by
        rw [List.all_map]
        congr 1
        funext constructor
        simp [Constructor.linked, Resolved.Slots.isEmpty_full]
      simp only [Body.linked, Resolved.Slots.isEmpty_full, List.isEmpty_map]
      exact congrArg _ members

/-- What a tree says in sum is what the description says: each definition is
complete, and it only lists alternatives where the description does; and the
census of the root, which any visitor that counts finds as well, is that of the
description. -/
structure Tree.Summarizes (tree : Tree) (module : Module) : Prop where
  length : tree.root.definitions.length = module.definitions.length
  shapes :
    ∀ (index : Nat) (definition : Definition),
      module.definitions[index]? = some definition →
        ∃ resolved : Resolved.Definition,
          tree.root.definitions[index]? = some resolved ∧
            resolved.isComplete = true ∧
            resolved.isSimple = definition.isSimple
  census : (Node.module tree.root).census tree = module.census
  counted :
    ∀ visitor : Visitor (Census → Census), visitor.Counts tree →
      (Node.module tree.root).accept tree visitor .zero = module.census

/-- Whatever compiles is summarized by its tree. -/
theorem summarizes_of_compile {module : Module} {compilation : Compilation}
    (compiled : compile module = .ok compilation) :
    compilation.tree.Summarizes module := by
  obtain ⟨_, rfl⟩ := (compile_eq_ok_iff module compilation).mp compiled
  have counted (visitor : Visitor (Census → Census))
      (counts : visitor.Counts module.linked.tree) :
      (Node.module module.linked.tree.root).accept module.linked.tree visitor
          .zero =
        module.census := by
    rw [counts.accept_module, module.countModule_linked, Census.zero_add]
  refine
    { length := List.length_mapIdx
      shapes := ?_
      census := counted _ (Census.counts_counter _)
      counted := counted }
  intro index definition placed
  refine
    ⟨definition.linked (Definition.listIdentity? module.definitions) index,
      ?_, Definition.isComplete_linked _ index definition,
      Definition.isSimple_linked _ index definition⟩
  rw [Module.linked, List.getElem?_mapIdx, placed]
  rfl

/-- A constructor that comes twice, a hidden built-in type and a type that leads
nowhere are counted like any other. -/
theorem summarizes_shadowing :
    ∃ compilation, compile Module.shadowing = .ok compilation ∧
      compilation.tree.Summarizes Module.shadowing ∧
      (Node.module compilation.tree.root).census compilation.tree =
        { sums := 1
          products := 1
          constructors := 3
          fields := 5
          nodeFields := 3 } := by
  have compiled :
      compile Module.shadowing = .ok Module.shadowing.linked :=
    (compile_eq_ok_iff _ _).mpr ⟨by decide, rfl⟩
  have summarizes := summarizes_of_compile compiled
  refine ⟨_, compiled, summarizes, ?_⟩
  exact summarizes.census.trans (by decide)

end Asdl
