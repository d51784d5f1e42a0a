/-
Trees as plain text, with every name as it is rendered in generated code.

  module M
    expr([Num[int n], Name[identifier id]], attr=[int lineno])
    arg([identifier arg, expr? annotation], attr=[])

A field shows the rendering of the definition that it points at, so a rendering
set for a definition shows wherever the definition is used.
-/

import Asdl.Tree.Node

namespace Asdl.Tree

def bracketed (texts : List String) : String :=
  "[" ++ String.intercalate ", " texts ++ "]"

def typeRendering (tree : Tree) (field : Resolved.Field) : String :=
  match tree.typeOf? field with
  | some definition => definition.name.rendering
  | none => Resolved.Builtin.unresolvedName

def dumpField (tree : Tree) (field : Resolved.Field) : String :=
  tree.typeRendering field ++ field.cardinality.marker ++
    match field.name? with
    | some name => " " ++ name.rendering
    | none => ""

def dumpFields (tree : Tree) (fields : Resolved.Slots Resolved.Field) :
    String :=
  bracketed (fields.items.map tree.dumpField)

def dumpConstructor (tree : Tree) (constructor : Resolved.Constructor) :
    String :=
  constructor.name.rendering ++ tree.dumpFields constructor.members

def dumpBody (tree : Tree) : Resolved.Body → String
  | .sum constructors =>
      bracketed (constructors.items.map tree.dumpConstructor)
  | .product members => tree.dumpFields members

def dumpDefinition (tree : Tree) (definition : Resolved.Definition) : String :=
  definition.name.rendering ++ "(" ++ tree.dumpBody definition.body ++
    ", attr=" ++ tree.dumpFields definition.attributes ++ ")"

def dumpModule (tree : Tree) (module : Resolved.Module) : String :=
  "module " ++ module.name.rendering ++ "\n" ++
    String.join
      (module.definitions.map fun definition =>
        "  " ++ tree.dumpDefinition definition ++ "\n")

def dumpNode (tree : Tree) : Node → String
  | .module module => tree.dumpModule module
  | .definition definition => tree.dumpDefinition definition
  | .constructor constructor => tree.dumpConstructor constructor
  | .field field => tree.dumpField field

/-- The text of the compiled module. -/
def dump (tree : Tree) : String :=
  tree.dumpModule tree.root

end Asdl.Tree
