/-
Resolving a description in two passes.

The first pass gives every definition a place, a skeleton of the right size and
a name in the scope of the module.  The second pass fills the skeletons in the
order of declaration; by then every name of the module is known, so definitions
may mention each other in any order.  A type that no name leads to gets the
stand-in and is reported, as is a constructor whose name an earlier constructor
of its sum has.  A handler is given the reports as they are met.
-/

import Asdl.Fault
import Asdl.Tree

namespace Asdl

/-- Work that hands semantic faults to a handler as it meets them and may be
stopped by a structural fault.  What was handed over before the work stopped
stays with the handler. -/
abbrev Reporting (σ : Type) : Type → Type :=
  ExceptT StructuralFault (StateM σ)

namespace Resolution

/-- A definition with vacant slots for everything that its source lists. -/
def skeleton (source : Definition) : Resolved.Definition :=
  match source.body with
  | .sum constructors =>
      .vacantSum (.fresh source.name) .user constructors.length
        source.attributes.length
  | .product members =>
      .vacantProduct (.fresh source.name) .user members.length
        source.attributes.length

structure Pending where
  id : Resolved.DefinitionId
  source : Definition
deriving DecidableEq

/-- A module of skeletons, and the definitions that wait in the order of
declaration. -/
structure Declared where
  module : Resolved.Module
  pending : List Pending
deriving DecidableEq

def Declared.start (name : String) : Declared :=
  { module := .vacant .user (.fresh name) Resolved.Builtin.scope.nest
    pending := [] }

def firstNameSpan? (definitions : List Definition) (name : String) :
    Option Span :=
  (definitions.find? fun definition => definition.name == name).map
    Definition.nameSpan

def Declared.add (all : List Definition) (declared : Declared)
    (source : Definition) : Except StructuralFault Declared :=
  match declared.module.introduce source.name (skeleton source) with
  | .error redefinition =>
      .error
        (.duplicateDefinition redefinition.name source.nameSpan
          (firstNameSpan? all source.name))
  | .ok (id, module) =>
      .ok
        { module := module
          pending :=
            declared.pending ++
              [{ id := id
                 source := source }] }

def declare (module : Module) : Except StructuralFault Declared :=
  module.definitions.foldlM (Declared.add module.definitions)
    (Declared.start module.name)

/-! ### Second pass -/

section SecondPass

variable {σ : Type} [FaultHandler σ]

def report (fault : SemanticFault) : Reporting σ Unit :=
  modify fun handler => FaultHandler.report handler fault

def resolveField (scope : Scope Resolved.DefinitionId) (definition : String)
    (field : Field) : Reporting σ Resolved.Field := do
  let type ←
    match scope.definition? field.typeName with
    | some id => pure id
    | none => do
        report (.undefinedType definition field.typeName field.span)
        pure Resolved.Builtin.unresolved
  return {
    type := type
    cardinality := field.cardinality
    name? := field.name?.map Name.fresh }

def checkSlots {α : Type} (definition slot : String)
    (slots : Resolved.Slots α) (wanted : Nat) : Reporting σ Unit :=
  if slots.capacity = wanted ∧ slots.filled = 0 then
    pure ()
  else
    throw (.slotCount definition slot slots.capacity wanted)

/-- Fills the next slot.  An item too many stops the work. -/
def fillSlot {α : Type} (definition slot : String)
    (slots : Resolved.Slots α) (item : α) :
    Reporting σ (Resolved.Slots α) :=
  match slots.fill item with
  | .ok filled => pure filled
  | .error _ =>
      throw (.slotCount definition slot slots.capacity (slots.capacity + 1))

def addField (scope : Scope Resolved.DefinitionId) (definition slot : String)
    (slots : Resolved.Slots Resolved.Field) (field : Field) :
    Reporting σ (Resolved.Slots Resolved.Field) := do
  let resolved ← resolveField scope definition field
  fillSlot definition slot slots resolved

/-- Resolves fields into slots that were made for them. -/
def fillFields (scope : Scope Resolved.DefinitionId)
    (definition slot : String) (slots : Resolved.Slots Resolved.Field)
    (fields : List Field) :
    Reporting σ (Resolved.Slots Resolved.Field) := do
  checkSlots definition slot slots fields.length
  fields.foldlM (addField scope definition slot) slots

/-- A sum on the way: the names of its constructors so far, each with the range
where it was met first, and the slots. -/
structure SumProgress where
  seen : List (String × Span)
  slots : Resolved.Slots Resolved.Constructor
deriving DecidableEq

/-- Reports a constructor whose name was seen before in its sum, and else keeps
its range. -/
def noteConstructor (sum : String) (seen : List (String × Span))
    (constructor : Constructor) : Reporting σ (List (String × Span)) :=
  match seen.lookup constructor.name with
  | some previous => do
      report
        (.duplicateConstructor sum constructor.name constructor.span previous)
      return seen
  | none => return seen ++ [(constructor.name, constructor.span)]

/-- Resolves a constructor into the next slot.  A repeated one takes its slot
like any other. -/
def addConstructor (scope : Scope Resolved.DefinitionId) (sum : String)
    (owner : Resolved.DefinitionId) (progress : SumProgress)
    (constructor : Constructor) : Reporting σ SumProgress := do
  let seen ← noteConstructor sum progress.seen constructor
  let members ←
    fillFields scope sum "member" (.vacant constructor.members.length)
      constructor.members
  let slots ←
    fillSlot sum "constructor" progress.slots
      { name := .fresh constructor.name
        owner := owner
        members := members }
  return { seen, slots }

def fillBody (scope : Scope Resolved.DefinitionId) (name : String)
    (id : Resolved.DefinitionId) (source : Body) (body : Resolved.Body) :
    Reporting σ Resolved.Body :=
  match source, body with
  | .sum constructors, .sum slots => do
      checkSlots name "constructor" slots constructors.length
      let progress ←
        constructors.foldlM (addConstructor scope name id)
          { seen := []
            slots := slots }
      return .sum progress.slots
  | .product members, .product slots => do
      let filled ← fillFields scope name "member" slots members
      return .product filled
  | _, _ => throw (.shapeMismatch name)

/-- Fills every slot of one definition.  Nothing is reported about a definition
of the other kind. -/
def fillDefinition (scope : Scope Resolved.DefinitionId) (pending : Pending)
    (target : Resolved.Definition) : Reporting σ Resolved.Definition := do
  let name := pending.source.name
  if pending.source.isSum ≠ target.isSum then
    throw (.shapeMismatch name)
  let attributes ←
    fillFields scope name "attribute" target.attributes
      pending.source.attributes
  let body ← fillBody scope name pending.id pending.source.body target.body
  let definition : Resolved.Definition :=
    { target with
      attributes := attributes
      body := body }
  if definition.isComplete then
    return definition
  else
    throw (.shapeMismatch definition.name.declared)

/-- Fills the definition that waits, in its place among all definitions.  What
has no place fits nothing. -/
def fillPending (scope : Scope Resolved.DefinitionId)
    (definitions : List Resolved.Definition) (pending : Pending) :
    Reporting σ (List Resolved.Definition) :=
  match definitions[pending.id.index]? with
  | some target => do
      let filled ← fillDefinition scope pending target
      return definitions.set pending.id.index filled
  | none => throw (.shapeMismatch pending.source.name)

def fillAll (declared : Declared) : Reporting σ Resolved.Module := do
  let definitions ←
    declared.pending.foldlM (fillPending declared.module.scope)
      declared.module.definitions
  return { declared.module with definitions := definitions }

def resolve (module : Module) : Reporting σ Tree := do
  let declared ← MonadExcept.ofExcept (declare module)
  let root ← fillAll declared
  return { root := root }

end SecondPass

end Resolution

def Tree.build {σ : Type} [FaultHandler σ] (module : Module) (handler : σ) :
    Except StructuralFault Tree × σ :=
  (Resolution.resolve module).run.run handler

structure Compilation where
  tree : Tree
  faults : List SemanticFault
deriving DecidableEq

def Compilation.isClean (compilation : Compilation) : Bool :=
  compilation.faults.isEmpty

/-- Builds the tree of a description, keeping every semantic fault. -/
def compile (module : Module) : Except StructuralFault Compilation :=
  match Tree.build module FaultCollector.empty with
  | (.error fault, _) => .error fault
  | (.ok tree, collector) =>
      .ok
        { tree := tree
          faults := collector.faults }

end Asdl
