/-
Places in a tree: how to point at a node, and how to set the rendering of the
name that stands there.

A path says in the words of a reader where to go; a site says where a node is.
Setting a rendering changes one name and nothing else, and names of the
built-in module never change because their renderings are fixed.
-/

import Asdl.Tree.Node

namespace Asdl

inductive Site where
  | module (id : Resolved.ModuleId)
  | definition (id : Resolved.DefinitionId)
  | constructor (id : Resolved.DefinitionId) (index : Nat)
  | constructorMember (id : Resolved.DefinitionId) (constructor index : Nat)
  | productMember (id : Resolved.DefinitionId) (index : Nat)
  | attribute (id : Resolved.DefinitionId) (index : Nat)
deriving DecidableEq

namespace Tree

def constructor? (tree : Tree) (id : Resolved.DefinitionId) (index : Nat) :
    Option Resolved.Constructor := do
  let definition ← tree.definition? id
  definition.constructor? index

def field? (tree : Tree) : Site → Option Resolved.Field
  | .constructorMember id constructor index => do
      let found ← tree.constructor? id constructor
      found.members.get? index
  | .productMember id index => do
      let definition ← tree.definition? id
      definition.member? index
  | .attribute id index => do
      let definition ← tree.definition? id
      definition.attributes.get? index
  | .module _ | .definition _ | .constructor _ _ => none

def node? (tree : Tree) (site : Site) : Option Node :=
  match site with
  | .module id => some (.module (tree.module id))
  | .definition id => (tree.definition? id).map Node.definition
  | .constructor id index =>
      (tree.constructor? id index).map Node.constructor
  | .constructorMember _ _ _ | .productMember _ _ | .attribute _ _ =>
      (tree.field? site).map Node.field

end Tree

/-! ### Paths -/

inductive Reference where
  | named (name : String)
  | placed (index : Nat)
deriving DecidableEq

/-- A way through a tree: to a module, to one of its definitions, to a
constructor, and to a member or else an attribute; and from a field on to the
definition of its type. -/
structure Path where
  module : Resolved.ModuleId
  definition? : Option Reference
  constructor? : Option Nat
  member? : Option Nat
  attribute? : Option Nat
  followType : Bool
deriving DecidableEq

namespace Tree

/-- The definition that a reference leads to from inside a module. -/
def follow? (tree : Tree) (module : Resolved.ModuleId) :
    Reference → Option Resolved.DefinitionId
  | .named name => (tree.module module).lookup? name
  | .placed index =>
      some
        { module := module
          index := index }

/-- The site of the member or attribute that a path asks for in a definition.
A member wins over an attribute, and the attributes that a constructor has are
those of its owner. -/
def fieldSite? (tree : Tree) (path : Path) (id : Resolved.DefinitionId) :
    Option Site :=
  match path.member?, path.constructor?, path.attribute? with
  | some index, some constructor, _ =>
      some (.constructorMember id constructor index)
  | some index, none, _ => some (.productMember id index)
  | none, some constructor, some index =>
      (tree.constructor? id constructor).map fun found =>
        .attribute found.owner index
  | none, none, some index => some (.attribute id index)
  | none, _, none => none

/-- Where a path leads inside a definition. -/
def locateIn? (tree : Tree) (path : Path) (id : Resolved.DefinitionId) :
    Option Site :=
  let wanted := path.member?.isSome || path.attribute?.isSome
  if wanted then do
    let site ← tree.fieldSite? path id
    let field ← tree.field? site
    if path.followType then
      some (.definition field.type)
    else
      some site
  else
    match path.constructor? with
    | some constructor => some (.constructor id constructor)
    | none => some (.definition id)

/-- Where a path leads.  Without a definition it leads to the module. -/
def locate? (tree : Tree) (path : Path) : Option Site :=
  match path.definition? with
  | none => some (.module path.module)
  | some reference => do
      let id ← tree.follow? path.module reference
      tree.locateIn? path id

def reach? (tree : Tree) (path : Path) : Option Node := do
  let site ← tree.locate? path
  tree.node? site

end Tree

namespace Resolved

def Field.mapName (change : Name → Name) (field : Field) : Field :=
  { field with name? := field.name?.map change }

def Constructor.mapName (change : Name → Name) (constructor : Constructor) :
    Constructor :=
  { constructor with name := change constructor.name }

namespace Definition

def mapName (change : Name → Name) (definition : Definition) : Definition :=
  { definition with name := change definition.name }

def modifyConstructor (index : Nat) (change : Constructor → Constructor)
    (definition : Definition) : Definition :=
  match definition.body with
  | .sum constructors =>
      { definition with body := .sum (constructors.modify index change) }
  | .product _ => definition

def modifyMember (index : Nat) (change : Field → Field)
    (definition : Definition) : Definition :=
  match definition.body with
  | .sum _ => definition
  | .product members =>
      { definition with body := .product (members.modify index change) }

def modifyAttribute (index : Nat) (change : Field → Field)
    (definition : Definition) : Definition :=
  { definition with
    attributes := definition.attributes.modify index change }

end Definition

end Resolved

namespace Tree

def modifyDefinition (tree : Tree) (id : Resolved.DefinitionId)
    (change : Resolved.Definition → Resolved.Definition) : Tree :=
  match id.module with
  | .user =>
      { root :=
          { tree.root with
            definitions := tree.root.definitions.modify id.index change } }
  | .builtin => tree

def mapName (tree : Tree) (site : Site) (change : Name → Name) : Tree :=
  match site with
  | .module .user =>
      { root := { tree.root with name := change tree.root.name } }
  | .module .builtin => tree
  | .definition id =>
      tree.modifyDefinition id (Resolved.Definition.mapName change)
  | .constructor id index =>
      tree.modifyDefinition id
        (.modifyConstructor index (.mapName change))
  | .constructorMember id constructor index =>
      tree.modifyDefinition id
        (.modifyConstructor constructor fun found =>
          { found with
            members := found.members.modify index (.mapName change) })
  | .productMember id index =>
      tree.modifyDefinition id (.modifyMember index (.mapName change))
  | .attribute id index =>
      tree.modifyDefinition id (.modifyAttribute index (.mapName change))

def name? (tree : Tree) (site : Site) : Option Name := do
  let node ← tree.node? site
  node.name?

def render? (tree : Tree) (site : Site) (rendering : String) :
    Option (Except NameFault Tree) :=
  (tree.name? site).map fun name =>
    (name.render rendering).map fun rendered =>
      tree.mapName site fun _ => rendered

end Tree

end Asdl
