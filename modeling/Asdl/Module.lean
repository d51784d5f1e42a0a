/-
Descriptions: a module defines types, each the sum of some constructors or the
product of some members, and either may carry attributes.

Types are still mentioned by name here.  The ranges say where each part stood
in the source and carry no meaning of their own; names and lists are
unrestricted, so a description need not come from a source at all.
-/

import Asdl.Span

namespace Asdl

/-- How many values a field holds: one, at most one, or any number. -/
inductive Cardinality where
  | single
  | optional
  | sequence
deriving DecidableEq

namespace Cardinality

def marker : Cardinality → String
  | single => ""
  | optional => "?"
  | sequence => "*"

def isOptional (cardinality : Cardinality) : Bool :=
  cardinality == optional

def isSequence (cardinality : Cardinality) : Bool :=
  cardinality == sequence

instance : Inhabited Cardinality where
  default := single

end Cardinality

structure Field where
  typeName : String
  cardinality : Cardinality
  name? : Option String
  span : Span
deriving DecidableEq

structure Constructor where
  name : String
  members : List Field
  span : Span
deriving DecidableEq

inductive Body where
  | sum (constructors : List Constructor)
  | product (members : List Field)
deriving DecidableEq

structure Definition where
  name : String
  body : Body
  attributes : List Field
  nameSpan : Span
  span : Span
deriving DecidableEq

structure Module where
  name : String
  definitions : List Definition
  span : Span
deriving DecidableEq

namespace Definition

def isSum (definition : Definition) : Bool :=
  match definition.body with
  | .sum _ => true
  | .product _ => false

/-- A sum without attributes whose constructors have no members only lists
alternatives. -/
def isSimple (definition : Definition) : Bool :=
  match definition.body with
  | .sum constructors =>
      definition.attributes.isEmpty &&
        constructors.all fun constructor => constructor.members.isEmpty
  | .product _ => false

end Definition

end Asdl
