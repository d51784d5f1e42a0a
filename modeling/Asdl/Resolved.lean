/-
Resolved modules: descriptions whose fields point at the definitions of their
types.

A definition is identified by the module that holds it and its place there.
Its lists have a number of slots that is fixed when it is made; the slots are
filled later, so that definitions can point at each other in any order.
-/

import Asdl.Module
import Asdl.Name
import Asdl.Scope

namespace Asdl.Resolved

/-- The module being compiled, or the module of built-in types. -/
inductive ModuleId where
  | user
  | builtin
deriving DecidableEq

structure DefinitionId where
  module : ModuleId
  index : Nat
deriving DecidableEq

/-- A list with a fixed number of slots, filled from the front. -/
structure Slots (α : Type) where
  capacity : Nat
  items : List α
  length_le : items.length ≤ capacity
deriving DecidableEq

namespace Slots

variable {α : Type}

def vacant (capacity : Nat) : Slots α :=
  { capacity := capacity
    items := []
    length_le := Nat.zero_le capacity }

def full (items : List α) : Slots α :=
  { capacity := items.length
    items := items
    length_le := Nat.le_refl items.length }

def filled (slots : Slots α) : Nat :=
  slots.items.length

def isEmpty (slots : Slots α) : Bool :=
  slots.capacity == 0

def isComplete (slots : Slots α) : Bool :=
  slots.filled == slots.capacity

theorem filled_lt_of_not_isComplete {slots : Slots α}
    (incomplete : ¬ slots.isComplete = true) :
    slots.filled < slots.capacity := by
  have bound := slots.length_le
  simp only [isComplete, filled, beq_iff_eq] at incomplete ⊢
  omega

def push (slots : Slots α) (item : α)
    (room : slots.filled < slots.capacity) : Slots α :=
  { capacity := slots.capacity
    items := slots.items ++ [item]
    length_le := by
      rw [List.length_append, List.length_singleton]
      exact room }

@[simp] theorem filled_push (slots : Slots α) (item : α)
    (room : slots.filled < slots.capacity) :
    (slots.push item room).filled = slots.filled + 1 :=
  List.length_append

/-- Fills the next slot, or hands the item back if every slot is taken. -/
def fill (slots : Slots α) (item : α) : Except α (Slots α) :=
  if complete : slots.isComplete then
    .error item
  else
    .ok (slots.push item (filled_lt_of_not_isComplete complete))

theorem fill_of_room {slots : Slots α} (item : α)
    (room : slots.filled < slots.capacity) :
    slots.fill item = .ok (slots.push item room) := by
  have incomplete : ¬ slots.isComplete = true := by
    simp only [isComplete, beq_iff_eq]
    omega
  rw [fill, dif_neg incomplete]

theorem eq_full_of_isComplete {slots : Slots α}
    (complete : slots.isComplete = true) : slots = full slots.items := by
  obtain ⟨capacity, items, bound⟩ := slots
  obtain rfl : items.length = capacity := by
    simpa only [isComplete, filled, beq_iff_eq] using complete
  rfl

theorem isComplete_full (items : List α) : (full items).isComplete = true := by
  simp [full, isComplete, filled]

theorem isEmpty_full (items : List α) :
    (full items).isEmpty = items.isEmpty := by
  cases items with
  | nil =>
      rfl
  | cons item rest =>
      rfl

def get? (slots : Slots α) (index : Nat) : Option α :=
  slots.items[index]?

def modify (slots : Slots α) (index : Nat) (change : α → α) : Slots α :=
  { capacity := slots.capacity
    items := slots.items.modify index change
    length_le := by
      rw [List.length_modify]
      exact slots.length_le }

end Slots

structure Field where
  type : DefinitionId
  cardinality : Cardinality
  name? : Option Name
deriving DecidableEq

/-- A field holds nodes when its type belongs to the module being compiled. -/
def Field.isNode (field : Field) : Bool :=
  field.type.module == .user

structure Constructor where
  name : Name
  owner : DefinitionId
  members : Slots Field
deriving DecidableEq

inductive Body where
  | sum (constructors : Slots Constructor)
  | product (members : Slots Field)
deriving DecidableEq

structure Definition where
  name : Name
  module : ModuleId
  attributes : Slots Field
  body : Body
deriving DecidableEq

namespace Definition

def vacantSum (name : Name) (module : ModuleId)
    (constructors attributes : Nat) : Definition :=
  { name := name
    module := module
    attributes := .vacant attributes
    body := .sum (.vacant constructors) }

def vacantProduct (name : Name) (module : ModuleId)
    (members attributes : Nat) : Definition :=
  { name := name
    module := module
    attributes := .vacant attributes
    body := .product (.vacant members) }

def isSum (definition : Definition) : Bool :=
  match definition.body with
  | .sum _ => true
  | .product _ => false

/-- A sum with no room for attributes or for members of its constructors only
lists alternatives. -/
def isSimple (definition : Definition) : Bool :=
  match definition.body with
  | .sum constructors =>
      definition.attributes.isEmpty &&
        constructors.items.all fun constructor => constructor.members.isEmpty
  | .product _ => false

def isComplete (definition : Definition) : Bool :=
  definition.attributes.isComplete &&
    match definition.body with
    | .sum constructors =>
        constructors.isComplete &&
          constructors.items.all fun constructor =>
            constructor.members.isComplete
    | .product members => members.isComplete

def constructor? (definition : Definition) (index : Nat) :
    Option Constructor :=
  match definition.body with
  | .sum constructors => constructors.get? index
  | .product _ => none

def member? (definition : Definition) (index : Nat) : Option Field :=
  match definition.body with
  | .sum _ => none
  | .product members => members.get? index

end Definition

structure Module where
  id : ModuleId
  name : Name
  scope : Scope DefinitionId
  definitions : List Definition
deriving DecidableEq

namespace Module

def vacant (id : ModuleId) (name : Name) (scope : Scope DefinitionId) :
    Module :=
  { id := id
    name := name
    scope := scope
    definitions := [] }

/-- Adds a definition behind all others, under no name, and gives its
identity. -/
def alloc (module : Module) (definition : Definition) :
    DefinitionId × Module :=
  ({ module := module.id
     index := module.definitions.length },
    { module with definitions := module.definitions ++ [definition] })

/-- Adds a definition and gives it a name in the scope. -/
def introduce (module : Module) (name : String) (definition : Definition) :
    Except Redefinition (DefinitionId × Module) :=
  let (id, allocated) := module.alloc definition
  (allocated.scope.define name id).map fun scope =>
    (id, { allocated with scope := scope })

/-- The definition that a name stands for inside the module. -/
def lookup? (module : Module) (name : String) : Option DefinitionId :=
  module.scope.definition? name

def identified (module : Module) : List (DefinitionId × Definition) :=
  module.definitions.mapIdx fun index definition =>
    ({ module := module.id
       index := index }, definition)

end Module

end Asdl.Resolved
