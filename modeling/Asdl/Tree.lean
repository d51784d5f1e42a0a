/-
Trees: a resolved module beside the built-in module that its fields may point
into.
-/

import Asdl.Resolved.Builtin

namespace Asdl

/-- A compiled module.  The built-in module is the same for all trees and is
not stored. -/
structure Tree where
  root : Resolved.Module
deriving DecidableEq

namespace Tree

def module (tree : Tree) : Resolved.ModuleId → Resolved.Module
  | .user => tree.root
  | .builtin => Resolved.Builtin.module

def definition? (tree : Tree) (id : Resolved.DefinitionId) :
    Option Resolved.Definition :=
  (tree.module id.module).definitions[id.index]?

/-- The definition that a name stands for, looked up in the module itself and
then among the built-in types. -/
def lookup? (tree : Tree) (name : String) : Option Resolved.DefinitionId :=
  tree.root.lookup? name

def typeOf? (tree : Tree) (field : Resolved.Field) :
    Option Resolved.Definition :=
  tree.definition? field.type

def typeName (tree : Tree) (field : Resolved.Field) : String :=
  match tree.typeOf? field with
  | some definition => definition.name.declared
  | none => Resolved.Builtin.unresolvedName

end Tree

end Asdl
