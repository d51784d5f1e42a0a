/-
Descriptions that can be written down, and the concrete trees that write them.

Up to ranges, the printable descriptions and the well-formed trees are the same
things.  An absent list and an empty one are the same to a description, and a
tree is well formed only without empty lists, so nothing is lost on the way
there and back.
-/

import Asdl.Module.OfConcrete
import Asdl.Proofs.Concrete.WellFormed

namespace Asdl

def Field.eraseSpans (field : Field) : Field :=
  { field with span := .zero }

def Constructor.eraseSpans (constructor : Constructor) : Constructor :=
  { name := constructor.name
    members := constructor.members.map Field.eraseSpans
    span := .zero }

def Body.eraseSpans : Body → Body
  | sum constructors => sum (constructors.map Constructor.eraseSpans)
  | product members => product (members.map Field.eraseSpans)

def Definition.eraseSpans (definition : Definition) : Definition :=
  { name := definition.name
    body := definition.body.eraseSpans
    attributes := definition.attributes.map Field.eraseSpans
    nameSpan := .zero
    span := .zero }

def Module.eraseSpans (module : Module) : Module :=
  { name := module.name
    definitions := module.definitions.map Definition.eraseSpans
    span := .zero }

structure Field.Printable (field : Field) : Prop where
  typeName : isWord field.typeName = true
  name : ∀ name ∈ field.name?, isWord name = true

instance (field : Field) : Decidable field.Printable :=
  decidable_of_iff
    (isWord field.typeName = true ∧ ∀ name ∈ field.name?, isWord name = true)
    ⟨fun ⟨typeName, name⟩ => ⟨typeName, name⟩,
      fun ⟨typeName, name⟩ => ⟨typeName, name⟩⟩

structure Constructor.Printable (constructor : Constructor) : Prop where
  name : isWord constructor.name = true
  members : ∀ member ∈ constructor.members, member.Printable

instance (constructor : Constructor) : Decidable constructor.Printable :=
  decidable_of_iff
    (isWord constructor.name = true ∧
      ∀ member ∈ constructor.members, member.Printable)
    ⟨fun ⟨name, members⟩ => ⟨name, members⟩,
      fun ⟨name, members⟩ => ⟨name, members⟩⟩

def Body.Printable : Body → Prop
  | sum constructors =>
      constructors ≠ [] ∧
        ∀ constructor ∈ constructors, constructor.Printable
  | product members =>
      members ≠ [] ∧ ∀ member ∈ members, member.Printable

structure Definition.Printable (definition : Definition) : Prop where
  name : isWord definition.name = true
  body : definition.body.Printable
  attributes : ∀ field ∈ definition.attributes, field.Printable

/-- Written directly behind the earlier definition, the name of the later one is
not taken for a clause. -/
def Definition.Apart (earlier later : Definition) : Prop :=
  earlier.attributes = [] → later.name ≠ "attributes"

/-- Every name is a word, no sum and no product is empty, and no definition
called `attributes` directly follows one without attributes. -/
structure Module.Printable (module : Module) : Prop where
  name : isWord module.name = true
  definitions : ∀ definition ∈ module.definitions, definition.Printable
  separated : module.definitions.IsChain Definition.Apart

/-! ### The tree that writes a description -/

def Concrete.Identifier.ofName (name : String) : Concrete.Identifier :=
  { name := name
    span := .zero }

@[simp]
theorem Concrete.Identifier.token_ofName (name : String) :
    (ofName name).token = .ofWord name :=
  rfl

def Cardinality.toMarker? : Cardinality → Option Concrete.Marker
  | single => none
  | optional =>
      some
        { kind := .question
          span := .zero }
  | sequence =>
      some
        { kind := .star
          span := .zero }

def Field.toConcrete (field : Field) : Concrete.Field :=
  { typeId := .ofName field.typeName
    marker? := field.cardinality.toMarker?
    id? := field.name?.map Concrete.Identifier.ofName
    span := .zero }

def Field.listToConcrete (fields : List Field) : Concrete.FieldList :=
  { fields := fields.map Field.toConcrete
    span := .zero }

/-- Where a list may be absent, an empty one is. -/
def Field.listToConcrete? : List Field → Option Concrete.FieldList
  | [] => none
  | first :: rest => some (listToConcrete (first :: rest))

def Constructor.toConcrete (constructor : Constructor) :
    Concrete.Constructor :=
  { id := .ofName constructor.name
    fields? := Field.listToConcrete? constructor.members
    span := .zero }

def Body.toConcrete : Body → Concrete.Body
  | sum constructors => .sum (constructors.map Constructor.toConcrete)
  | product members => .product (Field.listToConcrete members)

def Concrete.Attributes.ofFields (fields : Concrete.FieldList) :
    Concrete.Attributes :=
  { keyword := .zero
    fields := fields }

def Definition.toConcrete (definition : Definition) : Concrete.Definition :=
  { typeId := .ofName definition.name
    body := definition.body.toConcrete
    attributes? :=
      (Field.listToConcrete? definition.attributes).map
        Concrete.Attributes.ofFields
    span := .zero }

def Module.toConcrete (module : Module) : Concrete.Module :=
  { id := .ofName module.name
    definitions := module.definitions.map Definition.toConcrete
    span := .zero }

theorem Field.toConcrete_eraseSpans (field : Field) :
    field.eraseSpans.toConcrete = field.toConcrete :=
  rfl

theorem Field.listToConcrete_eraseSpans (fields : List Field) :
    listToConcrete (fields.map eraseSpans) = listToConcrete fields := by
  have sameFields : toConcrete ∘ eraseSpans = toConcrete :=
    funext toConcrete_eraseSpans
  simp only [listToConcrete, List.map_map, sameFields]

theorem Field.listToConcrete?_eraseSpans (fields : List Field) :
    listToConcrete? (fields.map eraseSpans) = listToConcrete? fields := by
  cases fields with
  | nil => rfl
  | cons first rest =>
      exact congrArg some (listToConcrete_eraseSpans (first :: rest))

theorem Constructor.toConcrete_eraseSpans (constructor : Constructor) :
    constructor.eraseSpans.toConcrete = constructor.toConcrete := by
  simp only [toConcrete, eraseSpans, Field.listToConcrete?_eraseSpans]

theorem Body.toConcrete_eraseSpans (body : Body) :
    body.eraseSpans.toConcrete = body.toConcrete := by
  cases body with
  | sum constructors =>
      have sameConstructors :
          Constructor.toConcrete ∘ Constructor.eraseSpans =
            Constructor.toConcrete :=
        funext Constructor.toConcrete_eraseSpans
      simp only [eraseSpans, toConcrete, List.map_map, sameConstructors]
  | product members =>
      simp only [eraseSpans, toConcrete, Field.listToConcrete_eraseSpans]

theorem Definition.toConcrete_eraseSpans (definition : Definition) :
    definition.eraseSpans.toConcrete = definition.toConcrete := by
  simp only [toConcrete, eraseSpans, Body.toConcrete_eraseSpans,
    Field.listToConcrete?_eraseSpans]

theorem Module.toConcrete_eraseSpans (module : Module) :
    module.eraseSpans.toConcrete = module.toConcrete := by
  have sameDefinitions :
      Definition.toConcrete ∘ Definition.eraseSpans = Definition.toConcrete :=
    funext Definition.toConcrete_eraseSpans
  simp only [toConcrete, eraseSpans, List.map_map, sameDefinitions]

private theorem Cardinality.ofMarker?_toMarker? (cardinality : Cardinality) :
    ofMarker? cardinality.toMarker? = cardinality := by
  cases cardinality with
  | single => rfl
  | optional => rfl
  | sequence => rfl

theorem Field.ofConcrete_toConcrete (field : Field) :
    ofConcrete field.toConcrete = field.eraseSpans := by
  have sameName :
      (field.name?.map Concrete.Identifier.ofName).map
          Concrete.Identifier.name = field.name? := by
    rw [Option.map_map]
    exact Option.map_id_apply
  simp only [ofConcrete, toConcrete, eraseSpans,
    Cardinality.ofMarker?_toMarker?, sameName]
  rfl

theorem Field.listOfConcrete?_listToConcrete (fields : List Field) :
    listOfConcrete? (some (listToConcrete fields)) =
      fields.map eraseSpans := by
  have sameFields : ofConcrete ∘ toConcrete = eraseSpans :=
    funext ofConcrete_toConcrete
  simp only [listOfConcrete?, listToConcrete, List.map_map, sameFields]

theorem Field.listOfConcrete?_listToConcrete? (fields : List Field) :
    listOfConcrete? (listToConcrete? fields) = fields.map eraseSpans := by
  cases fields with
  | nil => rfl
  | cons first rest => exact listOfConcrete?_listToConcrete (first :: rest)

theorem Constructor.ofConcrete_toConcrete (constructor : Constructor) :
    ofConcrete constructor.toConcrete = constructor.eraseSpans := by
  simp only [ofConcrete, toConcrete, eraseSpans,
    Field.listOfConcrete?_listToConcrete?]
  rfl

theorem Body.ofConcrete_toConcrete (body : Body) :
    ofConcrete body.toConcrete = body.eraseSpans := by
  cases body with
  | sum constructors =>
      have sameConstructors :
          Constructor.ofConcrete ∘ Constructor.toConcrete =
            Constructor.eraseSpans :=
        funext Constructor.ofConcrete_toConcrete
      simp only [toConcrete, ofConcrete, eraseSpans, List.map_map,
        sameConstructors]
  | product members =>
      simp only [toConcrete, ofConcrete, eraseSpans,
        Field.listOfConcrete?_listToConcrete]

theorem Definition.ofConcrete_toConcrete (definition : Definition) :
    ofConcrete definition.toConcrete = definition.eraseSpans := by
  have sameAttributes :
      ((Field.listToConcrete? definition.attributes).map
          Concrete.Attributes.ofFields).map Concrete.Attributes.fields =
        Field.listToConcrete? definition.attributes := by
    rw [Option.map_map]
    exact Option.map_id_apply
  simp only [ofConcrete, toConcrete, eraseSpans, Body.ofConcrete_toConcrete,
    sameAttributes, Field.listOfConcrete?_listToConcrete?]
  rfl

theorem Module.ofConcrete_toConcrete (module : Module) :
    ofConcrete module.toConcrete = module.eraseSpans := by
  have sameDefinitions :
      Definition.ofConcrete ∘ Definition.toConcrete = Definition.eraseSpans :=
    funext Definition.ofConcrete_toConcrete
  simp only [ofConcrete, toConcrete, eraseSpans, List.map_map, sameDefinitions]
  rfl

private theorem Cardinality.toMarker?_ofMarker?
    (marker? : Option Concrete.Marker) :
    (ofMarker? marker?).toMarker? =
      marker?.map Concrete.Marker.eraseSpans := by
  cases marker? with
  | none => rfl
  | some marker =>
      obtain ⟨kind, span⟩ := marker
      cases kind with
      | question => rfl
      | star => rfl

theorem Field.toConcrete_ofConcrete (field : Concrete.Field) :
    (ofConcrete field).toConcrete = field.eraseSpans := by
  simp only [ofConcrete, toConcrete, Cardinality.toMarker?_ofMarker?,
    Option.map_map]
  rfl

theorem Field.listToConcrete_listOfConcrete? (list : Concrete.FieldList) :
    listToConcrete (listOfConcrete? (some list)) = list.eraseSpans := by
  have sameFields :
      toConcrete ∘ ofConcrete = Concrete.Field.eraseSpans :=
    funext toConcrete_ofConcrete
  simp only [listToConcrete, listOfConcrete?, List.map_map, sameFields]
  rfl

theorem Field.listToConcrete?_listOfConcrete?
    {list? : Option Concrete.FieldList}
    (wellFormed : ∀ list ∈ list?, list.WellFormed) :
    listToConcrete? (listOfConcrete? list?) =
      list?.map Concrete.FieldList.eraseSpans := by
  cases list? with
  | none => rfl
  | some list =>
      have nonempty := (wellFormed list rfl).nonempty
      have whole := listToConcrete_listOfConcrete? list
      cases listed : list.fields with
      | nil => exact absurd listed nonempty
      | cons first rest =>
          rw [listOfConcrete?, listed, List.map_cons] at whole ⊢
          exact congrArg some whole

theorem Constructor.toConcrete_ofConcrete {constructor : Concrete.Constructor}
    (wellFormed : constructor.WellFormed) :
    (ofConcrete constructor).toConcrete = constructor.eraseSpans := by
  simp only [ofConcrete, toConcrete,
    Field.listToConcrete?_listOfConcrete? wellFormed.fields]
  rfl

theorem Body.toConcrete_ofConcrete {body : Concrete.Body}
    (wellFormed : body.WellFormed) :
    (ofConcrete body).toConcrete = body.eraseSpans := by
  cases body with
  | product fields =>
      simp only [ofConcrete, toConcrete, Field.listToConcrete_listOfConcrete?]
      rfl
  | sum constructors =>
      have sameConstructors :
          constructors.map (Constructor.toConcrete ∘ Constructor.ofConcrete) =
            constructors.map Concrete.Constructor.eraseSpans := by
        apply List.map_congr_left
        intro constructor member
        exact Constructor.toConcrete_ofConcrete
          (wellFormed.2 constructor member)
      simp only [ofConcrete, toConcrete, List.map_map, sameConstructors]
      rfl

theorem Definition.toConcrete_ofConcrete {definition : Concrete.Definition}
    (wellFormed : definition.WellFormed) :
    (ofConcrete definition).toConcrete = definition.eraseSpans := by
  have attributesWhole :
      ∀ list ∈ definition.attributes?.map Concrete.Attributes.fields,
        list.WellFormed :=
    Option.forall_mem_map.mpr wellFormed.attributes
  simp only [ofConcrete, toConcrete,
    Body.toConcrete_ofConcrete wellFormed.body,
    Field.listToConcrete?_listOfConcrete? attributesWhole, Option.map_map]
  rfl

theorem Module.toConcrete_ofConcrete {module : Concrete.Module}
    (wellFormed : module.WellFormed) :
    (ofConcrete module).toConcrete = module.eraseSpans := by
  have sameDefinitions :
      module.definitions.map (Definition.toConcrete ∘ Definition.ofConcrete) =
        module.definitions.map Concrete.Definition.eraseSpans := by
    apply List.map_congr_left
    intro definition member
    exact Definition.toConcrete_ofConcrete
      (wellFormed.definitions definition member)
  simp only [ofConcrete, toConcrete, List.map_map, sameDefinitions]
  rfl

/-! ### Printable descriptions have well-formed trees -/

theorem Field.printable_iff (field : Field) :
    field.Printable ↔ field.toConcrete.WellFormed := by
  have sameNames :
      (∀ id ∈ field.toConcrete.id?, isWord id.name = true) ↔
        ∀ name ∈ field.name?, isWord name = true :=
    Option.forall_mem_map
  constructor
  · intro printable
    exact ⟨printable.typeName, sameNames.mpr printable.name⟩
  · intro wellFormed
    exact ⟨wellFormed.typeId, sameNames.mp wellFormed.id⟩

theorem Field.listToConcrete_wellFormed_iff (fields : List Field) :
    (listToConcrete fields).WellFormed ↔
      fields ≠ [] ∧ ∀ field ∈ fields, field.Printable := by
  have sameFields :
      (∀ field ∈ (listToConcrete fields).fields, field.WellFormed) ↔
        ∀ field ∈ fields, field.Printable := by
    simp only [listToConcrete, List.forall_mem_map, printable_iff]
  have sameLength : (listToConcrete fields).fields ≠ [] ↔ fields ≠ [] :=
    not_congr List.map_eq_nil_iff
  constructor
  · intro wellFormed
    exact ⟨sameLength.mp wellFormed.nonempty, sameFields.mp wellFormed.fields⟩
  · rintro ⟨nonempty, printable⟩
    exact ⟨sameLength.mpr nonempty, sameFields.mpr printable⟩

theorem Field.listToConcrete?_wellFormed_iff (fields : List Field) :
    (∀ list ∈ listToConcrete? fields, list.WellFormed) ↔
      ∀ field ∈ fields, field.Printable := by
  cases fields with
  | nil =>
      simp [listToConcrete?]
  | cons first rest =>
      simp only [listToConcrete?, Option.mem_some_iff, forall_eq',
        listToConcrete_wellFormed_iff, ne_eq, reduceCtorEq, not_false_eq_true,
        true_and]

theorem Constructor.printable_iff (constructor : Constructor) :
    constructor.Printable ↔ constructor.toConcrete.WellFormed := by
  have sameMembers := Field.listToConcrete?_wellFormed_iff constructor.members
  constructor
  · intro printable
    exact ⟨printable.name, sameMembers.mpr printable.members⟩
  · intro wellFormed
    exact ⟨wellFormed.id, sameMembers.mp wellFormed.fields⟩

theorem Body.printable_iff (body : Body) :
    body.Printable ↔ body.toConcrete.WellFormed := by
  cases body with
  | sum constructors =>
      simp only [Printable, toConcrete, Concrete.Body.WellFormed, ne_eq,
        List.map_eq_nil_iff, List.forall_mem_map, Constructor.printable_iff]
  | product members =>
      exact (Field.listToConcrete_wellFormed_iff members).symm

theorem Definition.printable_iff (definition : Definition) :
    definition.Printable ↔ definition.toConcrete.WellFormed := by
  have sameBody := Body.printable_iff definition.body
  have sameAttributes :
      (∀ attributes ∈ definition.toConcrete.attributes?,
          attributes.fields.WellFormed) ↔
        ∀ field ∈ definition.attributes, field.Printable :=
    Option.forall_mem_map.trans
      (Field.listToConcrete?_wellFormed_iff definition.attributes)
  constructor
  · intro printable
    exact ⟨printable.name, sameBody.mp printable.body,
      sameAttributes.mpr printable.attributes⟩
  · intro wellFormed
    exact ⟨wellFormed.typeId, sameBody.mpr wellFormed.body,
      sameAttributes.mp wellFormed.attributes⟩

private theorem Definition.apart_iff (earlier later : Definition) :
    earlier.toConcrete.Apart later.toConcrete ↔ earlier.Apart later := by
  have sameClause :
      earlier.toConcrete.attributes? = none ↔ earlier.attributes = [] := by
    simp only [toConcrete, Option.map_eq_none_iff]
    cases earlier.attributes with
    | nil => simp [Field.listToConcrete?]
    | cons first rest => simp [Field.listToConcrete?]
  exact imp_congr sameClause Iff.rfl

theorem Module.printable_iff (module : Module) :
    module.Printable ↔ module.toConcrete.WellFormed := by
  have sameDefinitions :
      (∀ definition ∈ module.toConcrete.definitions, definition.WellFormed) ↔
        ∀ definition ∈ module.definitions, definition.Printable := by
    simp only [toConcrete, List.forall_mem_map, Definition.printable_iff]
  have sameSeparated :
      module.toConcrete.Separated ↔
        module.definitions.IsChain Definition.Apart := by
    simp only [Concrete.Module.Separated, toConcrete, List.isChain_map,
      Definition.apart_iff]
  constructor
  · intro printable
    exact ⟨printable.name, sameDefinitions.mpr printable.definitions,
      sameSeparated.mpr printable.separated⟩
  · intro wellFormed
    exact ⟨wellFormed.id, sameDefinitions.mp wellFormed.definitions,
      sameSeparated.mp wellFormed.separated⟩

theorem Module.printable_of_wellFormed {tree : Concrete.Module}
    (wellFormed : tree.WellFormed) : (ofConcrete tree).Printable := by
  rw [printable_iff, toConcrete_ofConcrete wellFormed]
  exact (Concrete.Module.wellFormed_eraseSpans tree).mpr wellFormed

theorem Module.Printable.of_eraseSpans_eq {left right : Module}
    (printable : left.Printable)
    (same : left.eraseSpans = right.eraseSpans) : right.Printable := by
  rw [printable_iff, ← toConcrete_eraseSpans] at printable ⊢
  rw [← same]
  exact printable

theorem Module.Printable.eraseSpans_toConcrete {module : Module}
    (printable : module.Printable) :
    module.toConcrete.eraseSpans = module.toConcrete := by
  have wellFormed := (printable_iff module).mp printable
  rw [← toConcrete_ofConcrete wellFormed, ofConcrete_toConcrete,
    toConcrete_eraseSpans]

end Asdl
