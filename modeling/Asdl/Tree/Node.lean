/-
The nodes of a tree, visitors that are sent to them, and how many nodes of each
kind lie under one of them.

The type of a field is a link, not a part, so nothing here follows it.
-/

import Asdl.Tree

namespace Asdl

inductive Node where
  | module (module : Resolved.Module)
  | definition (definition : Resolved.Definition)
  | constructor (constructor : Resolved.Constructor)
  | field (field : Resolved.Field)
deriving DecidableEq

namespace Node

inductive Kind where
  | module
  | sum
  | product
  | constructor
  | field
deriving DecidableEq

def kind : Node → Kind
  | module _ => .module
  | definition node =>
      match node.body with
      | .sum _ => .sum
      | .product _ => .product
  | constructor _ => .constructor
  | field _ => .field

def name? : Node → Option Name
  | module node => some node.name
  | definition node => some node.name
  | constructor node => some node.name
  | field node => node.name?

end Node

/-- What a consumer does when it is sent to a node.  A definition is met as a
sum or as a product, together with its body. -/
structure Visitor (Output : Type) where
  module : Tree → Resolved.Module → Output
  sum :
    Tree → Resolved.Definition → Resolved.Slots Resolved.Constructor → Output
  product :
    Tree → Resolved.Definition → Resolved.Slots Resolved.Field → Output
  constructor : Tree → Resolved.Constructor → Output
  field : Tree → Resolved.Field → Output

def Node.accept {Output : Type} (tree : Tree) (visitor : Visitor Output) :
    Node → Output
  | module node => visitor.module tree node
  | definition node =>
      match node.body with
      | .sum constructors => visitor.sum tree node constructors
      | .product members => visitor.product tree node members
  | constructor node => visitor.constructor tree node
  | field node => visitor.field tree node

/-- Numbers of nodes by kind; `nodeFields` counts the fields that hold nodes. -/
structure Census where
  sums : Nat
  products : Nat
  constructors : Nat
  fields : Nat
  nodeFields : Nat
deriving DecidableEq

namespace Census

def zero : Census :=
  { sums := 0
    products := 0
    constructors := 0
    fields := 0
    nodeFields := 0 }

def countEach {α : Type} (count : α → Census → Census) (items : List α)
    (census : Census) : Census :=
  items.foldl (fun counted item => count item counted) census

def countField (field : Resolved.Field) (census : Census) : Census :=
  { census with
    fields := census.fields + 1
    nodeFields := census.nodeFields + if field.isNode then 1 else 0 }

def countConstructor (constructor : Resolved.Constructor) (census : Census) :
    Census :=
  countEach countField constructor.members.items
    { census with constructors := census.constructors + 1 }

def countSum (definition : Resolved.Definition)
    (constructors : Resolved.Slots Resolved.Constructor) (census : Census) :
    Census :=
  countEach countField definition.attributes.items
    (countEach countConstructor constructors.items
      { census with sums := census.sums + 1 })

def countProduct (definition : Resolved.Definition)
    (members : Resolved.Slots Resolved.Field) (census : Census) : Census :=
  countEach countField (members.items ++ definition.attributes.items)
    { census with products := census.products + 1 }

def countDefinition (definition : Resolved.Definition) : Census → Census :=
  match definition.body with
  | .sum constructors => countSum definition constructors
  | .product members => countProduct definition members

def countModule (module : Resolved.Module) : Census → Census :=
  countEach countDefinition module.definitions

/-- Counts the node that it is sent to and goes on to the parts of the node.  The
tree is not looked at, since no type of a field is followed. -/
def counter : Visitor (Census → Census) :=
  { module := fun _ => countModule
    sum := fun _ => countSum
    product := fun _ => countProduct
    constructor := fun _ => countConstructor
    field := fun _ => countField }

end Census

def Node.census (tree : Tree) (node : Node) : Census :=
  node.accept tree Census.counter .zero

end Asdl
