/-
Writing a description as source text, one definition to a line.

A constructor without members and a definition without attributes are written
without the empty list; a product keeps its brackets even when it is empty.
-/

import Asdl.Module

namespace Asdl

def Field.source (field : Field) : String :=
  field.typeName ++ field.cardinality.marker ++
    match field.name? with
    | some name => " " ++ name
    | none => ""

def Field.listSource (fields : List Field) : String :=
  "(" ++ String.intercalate ", " (fields.map Field.source) ++ ")"

def Constructor.source (constructor : Constructor) : String :=
  constructor.name ++
    if constructor.members.isEmpty then
      ""
    else
      Field.listSource constructor.members

def Body.source : Body → String
  | sum constructors =>
      String.intercalate " | " (constructors.map Constructor.source)
  | product members => Field.listSource members

def Definition.source (definition : Definition) : String :=
  definition.name ++ " = " ++ definition.body.source ++
    if definition.attributes.isEmpty then
      ""
    else
      " attributes " ++ Field.listSource definition.attributes

def Module.source (module : Module) : String :=
  "module " ++ module.name ++ " \x7b\n" ++
    String.join
      (module.definitions.map fun definition =>
        "    " ++ definition.source ++ "\n") ++
    "\x7d\n"

end Asdl
