/-
An indented outline of a description, one line for each part.

Depth is shown by two spaces a level.  Members stand one level below what they
belong to, and attributes one level below a line that announces them.
-/

import Asdl.Module

namespace Asdl

def outlineLine (depth : Nat) (text : String) : String :=
  String.join (List.replicate depth "  ") ++ text ++ "\n"

def Field.outline (depth : Nat) (field : Field) : String :=
  let type := field.typeName ++ field.cardinality.marker
  match field.name? with
  | some name => outlineLine depth ("Field " ++ name ++ ": " ++ type)
  | none => outlineLine depth ("Field " ++ type)

def Field.listOutline (depth : Nat) (fields : List Field) : String :=
  String.join (fields.map (Field.outline depth))

def Constructor.outline (depth : Nat) (constructor : Constructor) : String :=
  outlineLine depth ("| " ++ constructor.name) ++
    Field.listOutline (depth + 1) constructor.members

/-- The attributes under their own line, or nothing when there are none. -/
def Field.attributesOutline (depth : Nat) (attributes : List Field) : String :=
  if attributes.isEmpty then
    ""
  else
    outlineLine depth "attributes:" ++
      Field.listOutline (depth + 1) attributes

def Definition.outline (depth : Nat) (definition : Definition) : String :=
  let parts :=
    match definition.body with
    | .sum constructors =>
        let simple := if definition.isSimple then " (simple)" else ""
        outlineLine depth ("Sum " ++ definition.name ++ simple) ++
          String.join (constructors.map (Constructor.outline (depth + 1)))
    | .product members =>
        outlineLine depth ("Product " ++ definition.name) ++
          Field.listOutline (depth + 1) members
  parts ++ Field.attributesOutline (depth + 1) definition.attributes

def Module.outline (module : Module) : String :=
  outlineLine 0 ("Module " ++ module.name) ++
    String.join (module.definitions.map (Definition.outline 1))

end Asdl
