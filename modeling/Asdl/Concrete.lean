/-
The concrete tree of a description: one node for each rule of the grammar, each
with the bytes it takes in the source.

  module       'module' id '{' definition* '}'
  definition   id '=' body attributes?
  body         fields | constructor ( '|' constructor )*
  constructor  id fields?
  attributes   'attributes' fields
  fields       '(' field ( ',' field )* ')'
  field        id ( '?' | '*' )? id?

The types say what a tree holds and leave lists unrestricted; a tree made by
reading a source has the non-empty lists that the grammar asks for.
-/

import Asdl.Token

namespace Asdl.Concrete

structure Identifier where
  name : String
  span : Span
deriving DecidableEq

inductive MarkerKind where
  | question
  | star
deriving DecidableEq

structure Marker where
  kind : MarkerKind
  span : Span
deriving DecidableEq

structure Field where
  typeId : Identifier
  marker? : Option Marker
  id? : Option Identifier
  span : Span
deriving DecidableEq

/-- A bracketed list of fields; its range includes the brackets. -/
structure FieldList where
  fields : List Field
  span : Span
deriving DecidableEq

structure Constructor where
  id : Identifier
  fields? : Option FieldList
  span : Span
deriving DecidableEq

structure Attributes where
  keyword : Span
  fields : FieldList
deriving DecidableEq

inductive Body where
  | product (fields : FieldList)
  | sum (constructors : List Constructor)
deriving DecidableEq

structure Definition where
  typeId : Identifier
  body : Body
  attributes? : Option Attributes
  span : Span
deriving DecidableEq

structure Module where
  id : Identifier
  definitions : List Definition
  span : Span
deriving DecidableEq

def Field.ofParts (typeId : Identifier) (marker? : Option Marker)
    (id? : Option Identifier) : Field :=
  let last :=
    match id?, marker? with
    | some id, _ => id.span
    | none, some marker => marker.span
    | none, none => typeId.span
  { typeId := typeId
    marker? := marker?
    id? := id?
    span := typeId.span.cover last }

def FieldList.ofParts (opening : Span) (fields : List Field)
    (closing : Span) : FieldList :=
  { fields := fields
    span := opening.cover closing }

def Constructor.ofParts (id : Identifier)
    (fields? : Option FieldList) : Constructor :=
  let last :=
    match fields? with
    | some fields => fields.span
    | none => id.span
  { id := id
    fields? := fields?
    span := id.span.cover last }

/-- The range of the last node of a body; an empty sum has none. -/
def Body.lastSpan? : Body → Option Span
  | product fields => some fields.span
  | sum constructors => constructors.getLast?.map Constructor.span

def Definition.ofParts (typeId : Identifier) (body : Body)
    (attributes? : Option Attributes) : Definition :=
  let last :=
    match attributes? with
    | some attributes => attributes.fields.span
    | none => body.lastSpan?.getD typeId.span
  { typeId := typeId
    body := body
    attributes? := attributes?
    span := typeId.span.cover last }

def Module.ofParts (keyword : Span) (id : Identifier)
    (definitions : List Definition) (closing : Span) : Module :=
  { id := id
    definitions := definitions
    span := keyword.cover closing }

end Asdl.Concrete
