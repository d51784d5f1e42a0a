/-
The module of built-in types, the same for every compilation.

A built-in is a product without members or attributes, so a field can point at
it as at any other definition.  One more definition stands in for types that no
name leads to; it is in no scope, so no name leads to it either.
-/

import Asdl.Fault
import Asdl.Resolved

namespace Asdl.Resolved

/-- The module of built-in types and the definition that stands in for a type
that could not be resolved. -/
structure Builtins where
  module : Module
  unresolved : DefinitionId
deriving DecidableEq

namespace Builtin

def names : List String :=
  ["identifier", "string", "bytes", "int", "object", "singleton"]

def unresolvedName : String :=
  "<unresolved>"

def definition (name : String) : Definition :=
  .vacantProduct (.fixed name) .builtin 0 0

def register (module : Module) (name : String) :
    Except StructuralFault Module :=
  match module.introduce name (definition name) with
  | .error redefinition =>
      .error (.duplicateDefinition redefinition.name .zero none)
  | .ok (_, extended) => .ok extended

/-- Registers the names in turn, and then adds the stand-in under no name.  The
module has no name either, and none of its names can be rendered
differently. -/
def build : Except StructuralFault Builtins := do
  let registered ←
    names.foldlM register (.vacant .builtin (.fixed "") .topLevel)
  let (unresolved, module) := registered.alloc (definition unresolvedName)
  return { module, unresolved }

theorem isSome_build : build.toOption.isSome = true := by
  decide

def all : Builtins :=
  build.toOption.get isSome_build

def module : Module :=
  all.module

def scope : Scope DefinitionId :=
  module.scope

def unresolved : DefinitionId :=
  all.unresolved

def definition? (id : DefinitionId) : Option Definition :=
  match id.module with
  | .builtin => module.definitions[id.index]?
  | .user => none

end Builtin

end Asdl.Resolved
