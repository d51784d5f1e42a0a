/-
From a concrete tree to the description it writes down.

Brackets, marks and keywords go; names stay, a marker becomes a cardinality,
and an absent list becomes an empty one.  Ranges are copied, not recomputed.
-/

import Asdl.Concrete.Reader
import Asdl.Module

namespace Asdl

def Cardinality.ofMarker? : Option Concrete.Marker → Cardinality
  | none => .single
  | some marker =>
      match marker.kind with
      | .question => .optional
      | .star => .sequence

def Field.ofConcrete (field : Concrete.Field) : Field :=
  { typeName := field.typeId.name
    cardinality := .ofMarker? field.marker?
    name? := field.id?.map Concrete.Identifier.name
    span := field.span }

def Field.listOfConcrete? : Option Concrete.FieldList → List Field
  | none => []
  | some list => list.fields.map Field.ofConcrete

def Constructor.ofConcrete (constructor : Concrete.Constructor) :
    Constructor :=
  { name := constructor.id.name
    members := Field.listOfConcrete? constructor.fields?
    span := constructor.span }

def Body.ofConcrete : Concrete.Body → Body
  | .product fields => .product (Field.listOfConcrete? (some fields))
  | .sum constructors => .sum (constructors.map Constructor.ofConcrete)

def Definition.ofConcrete (definition : Concrete.Definition) : Definition :=
  { name := definition.typeId.name
    body := .ofConcrete definition.body
    attributes :=
      Field.listOfConcrete?
        (definition.attributes?.map Concrete.Attributes.fields)
    nameSpan := definition.typeId.span
    span := definition.span }

def Module.ofConcrete (module : Concrete.Module) : Module :=
  { name := module.id.name
    definitions := module.definitions.map Definition.ofConcrete
    span := module.span }

/-- The description that a source writes down. -/
def Module.parse (source : String) : Except SyntaxError Module :=
  (Concrete.Module.parse source).map Module.ofConcrete

end Asdl
