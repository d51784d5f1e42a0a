/-
Trees whose names are rendered site by site.

Everything that renderings can make of a tree is said by one function from the
sites of the compiled module to renderings.  Setting the rendering of one name
changes the function at one site; the rest of the tree, and every other name,
is as before.  The built-in types have no part in this, since their renderings
are fixed.
-/

import Mathlib.Logic.Function.Basic
import Asdl.Proofs.Resolution.Linked
import Asdl.Tree.Site

namespace Asdl

open Resolved (DefinitionId ModuleId)

namespace Site

def home : Site → ModuleId
  | .module id => id
  | .definition id => id.module
  | .constructor id _ => id.module
  | .constructorMember id _ _ => id.module
  | .productMember id _ => id.module
  | .attribute id _ => id.module

def owner? : Site → Option DefinitionId
  | .module _ => none
  | .definition id => some id
  | .constructor id _ => some id
  | .constructorMember id _ _ => some id
  | .productMember id _ => some id
  | .attribute id _ => some id

def constructor? : Site → Option (DefinitionId × Nat)
  | .constructor id index => some (id, index)
  | .constructorMember id index _ => some (id, index)
  | .module _ | .definition _ | .productMember _ _ | .attribute _ _ => none

theorem home_eq_of_owner? {site : Site} {id : DefinitionId}
    (owned : site.owner? = some id) : site.home = id.module := by
  cases site <;> cases owned <;> rfl

private theorem owner?_eq_of_constructor? {site : Site} {id : DefinitionId}
    {index : Nat} (inside : site.constructor? = some (id, index)) :
    site.owner? = some id := by
  cases site <;> cases inside <;> rfl

end Site

def Name.rendered (rendering? : Option String) (name : Name) : Name :=
  { name with rendering? := rendering? }

namespace Resolved

def Slots.mapIdx {α β : Type} (change : Nat → α → β) (slots : Slots α) :
    Slots β :=
  { capacity := slots.capacity
    items := slots.items.mapIdx change
    length_le := by
      rw [List.length_mapIdx]
      exact slots.length_le }

section Rendered

variable (rendering? : Site → Option String)

def Field.rendered (site : Site) (field : Field) : Field :=
  field.mapName (Name.rendered (rendering? site))

def Field.listRendered (siteAt : Nat → Site) (fields : Slots Field) :
    Slots Field :=
  fields.mapIdx fun place => Field.rendered rendering? (siteAt place)

def Constructor.rendered (id : DefinitionId) (index : Nat)
    (constructor : Constructor) : Constructor :=
  { constructor with
    name := constructor.name.rendered (rendering? (.constructor id index))
    members :=
      Field.listRendered rendering? (.constructorMember id index)
        constructor.members }

def Constructor.listRendered (id : DefinitionId)
    (constructors : Slots Constructor) : Slots Constructor :=
  constructors.mapIdx (Constructor.rendered rendering? id)

def Body.rendered (id : DefinitionId) : Body → Body
  | sum constructors =>
      sum (Constructor.listRendered rendering? id constructors)
  | product members =>
      product (Field.listRendered rendering? (.productMember id) members)

def Definition.rendered (id : DefinitionId) (definition : Definition) :
    Definition :=
  { definition with
    name := definition.name.rendered (rendering? (.definition id))
    attributes :=
      Field.listRendered rendering? (.attribute id) definition.attributes
    body := definition.body.rendered rendering? id }

def Definition.listRendered (definitions : List Definition) :
    List Definition :=
  definitions.mapIdx fun index => Definition.rendered rendering? (.user index)

end Rendered

end Resolved

/-- The tree with exactly the given renderings. -/
def Tree.rendered (rendering? : Site → Option String) (tree : Tree) : Tree :=
  { root :=
      { tree.root with
        name := tree.root.name.rendered (rendering? (.module .user))
        definitions :=
          Resolved.Definition.listRendered rendering?
            tree.root.definitions } }

namespace Resolved

section Anew

variable (earlier? later? : Site → Option String)

theorem Field.rendered_rendered (site : Site) (field : Field) :
    (field.rendered earlier? site).rendered later? site =
      field.rendered later? site := by
  simp only [rendered, mapName, Option.map_map]
  rfl

theorem Field.listRendered_listRendered (siteAt : Nat → Site)
    (fields : Slots Field) :
    listRendered later? siteAt (listRendered earlier? siteAt fields) =
      listRendered later? siteAt fields := by
  simp only [listRendered, Slots.mapIdx, List.mapIdx_mapIdx,
    Function.comp_def, rendered_rendered]

theorem Constructor.rendered_rendered (id : DefinitionId) (index : Nat)
    (constructor : Constructor) :
    (constructor.rendered earlier? id index).rendered later? id index =
      constructor.rendered later? id index := by
  simp only [rendered, Field.listRendered_listRendered]
  rfl

theorem Body.rendered_rendered (id : DefinitionId) (body : Body) :
    (body.rendered earlier? id).rendered later? id =
      body.rendered later? id := by
  cases body with
  | sum constructors =>
      simp only [rendered, Constructor.listRendered, Slots.mapIdx,
        List.mapIdx_mapIdx, Function.comp_def, Constructor.rendered_rendered]
  | product members =>
      simp only [rendered, Field.listRendered_listRendered]

theorem Definition.rendered_rendered (id : DefinitionId)
    (definition : Definition) :
    (definition.rendered earlier? id).rendered later? id =
      definition.rendered later? id := by
  simp only [rendered, Field.listRendered_listRendered,
    Body.rendered_rendered]
  rfl

end Anew

end Resolved

theorem Tree.rendered_rendered (earlier? later? : Site → Option String)
    (tree : Tree) :
    (tree.rendered earlier?).rendered later? = tree.rendered later? := by
  simp only [rendered, Resolved.Definition.listRendered, List.mapIdx_mapIdx,
    Function.comp_def, Resolved.Definition.rendered_rendered]
  rfl

theorem modify_mapIdx {α β : Type} (items : List α) (make : Nat → α → β)
    (place : Nat) (change : β → β) :
    (items.mapIdx make).modify place change =
      items.mapIdx fun index item =>
        if index = place then
          change (make index item)
        else
          make index item := by
  apply List.ext_getElem?
  intro index
  rw [List.getElem?_modify, List.getElem?_mapIdx, List.getElem?_mapIdx]
  by_cases isPlace : place = index
  · subst isPlace
    cases items[place]? with
    | none => rfl
    | some item => simp
  · have isOther : ¬ index = place := fun same => isPlace same.symm
    cases items[index]? with
    | none => rfl
    | some item => simp [isPlace, isOther]

theorem modify_congr {α : Type} {items : List α} {place : Nat}
    {left right : α → α}
    (same : ∀ item, items[place]? = some item → left item = right item) :
    items.modify place left = items.modify place right := by
  apply List.ext_getElem?
  intro index
  rw [List.getElem?_modify, List.getElem?_modify]
  by_cases isPlace : place = index
  · subst isPlace
    cases found : items[place]? with
    | none => rfl
    | some item => simp [same item found]
  · simp [isPlace]

namespace Resolved.Slots

variable {α : Type}

theorem modify_mapIdx (slots : Slots α) (make : Nat → α → α) (place : Nat)
    (change : α → α) :
    (slots.mapIdx make).modify place change =
      slots.mapIdx fun index item =>
        if index = place then
          change (make index item)
        else
          make index item := by
  simp only [modify, mapIdx, Asdl.modify_mapIdx]

theorem modify_congr {slots : Slots α} {place : Nat} {left right : α → α}
    (same : ∀ item, slots.get? place = some item → left item = right item) :
    slots.modify place left = slots.modify place right := by
  simp only [modify, Asdl.modify_congr same]

theorem mapIdx_congr {β : Type} {left right : Nat → α → β} (slots : Slots α)
    (same : ∀ place item, left place item = right place item) :
    slots.mapIdx left = slots.mapIdx right := by
  rw [show left = right from funext fun place => funext (same place)]

end Resolved.Slots

/-! ### Setting one rendering -/

section Update

open Function (update)

variable {rendering? : Site → Option String} {site : Site}
variable {new? : Option String}

namespace Resolved

theorem Field.listRendered_update_of_ne {siteAt : Nat → Site}
    (apart : ∀ place, siteAt place ≠ site) (fields : Slots Field) :
    listRendered (update rendering? site new?) siteAt fields =
      listRendered rendering? siteAt fields := by
  apply Slots.mapIdx_congr
  intro place field
  rw [rendered, rendered, Function.update_of_ne (apart place)]

/-- One field of a list is rendered anew, and its place tells its site from
those of the others. -/
theorem Field.modify_listRendered {siteAt : Nat → Site}
    (injective : Function.Injective siteAt) (place : Nat)
    (fields : Slots Field) :
    (listRendered rendering? siteAt fields).modify place
        (mapName (Name.rendered new?)) =
      listRendered (update rendering? (siteAt place) new?) siteAt fields := by
  rw [listRendered, Slots.modify_mapIdx]
  apply Slots.mapIdx_congr
  intro index field
  by_cases isPlace : index = place
  · subst isPlace
    simp only [if_pos, rendered, mapName, Option.map_map,
      Function.update_self]
    rfl
  · have otherSite : siteAt index ≠ siteAt place := fun same =>
      isPlace (injective same)
    rw [if_neg isPlace, rendered, rendered, Function.update_of_ne otherSite]

theorem Constructor.rendered_update_of_ne {id : DefinitionId} {index : Nat}
    (apart : site.constructor? ≠ some (id, index))
    (constructor : Constructor) :
    constructor.rendered (update rendering? site new?) id index =
      constructor.rendered rendering? id index := by
  have otherSite : ∀ inside : Site, inside.constructor? = some (id, index) →
      inside ≠ site := by
    rintro inside isInside rfl
    exact apart isInside
  rw [rendered, rendered, Function.update_of_ne (otherSite _ rfl),
    Field.listRendered_update_of_ne fun place => otherSite _ rfl]

theorem Constructor.mapName_rendered (id : DefinitionId) (index : Nat)
    (constructor : Constructor) :
    (constructor.rendered rendering? id index).mapName (Name.rendered new?) =
      constructor.rendered
        (update rendering? (.constructor id index) new?) id index := by
  simp [rendered, mapName, Name.rendered, Field.listRendered_update_of_ne]

theorem Constructor.modifyMember_rendered (id : DefinitionId)
    (index place : Nat) (constructor : Constructor) :
    { constructor.rendered rendering? id index with
        members :=
          (constructor.rendered rendering? id index).members.modify place
            (Field.mapName (Name.rendered new?)) } =
      constructor.rendered
        (update rendering? (.constructorMember id index place) new?) id
        index := by
  have injective : Function.Injective (Site.constructorMember id index) := by
    intro left right same
    simpa using same
  simp [rendered, Field.modify_listRendered injective]

theorem Constructor.listRendered_update_of_ne {id : DefinitionId}
    (apart : ∀ index, site.constructor? ≠ some (id, index))
    (constructors : Slots Constructor) :
    listRendered (update rendering? site new?) id constructors =
      listRendered rendering? id constructors := by
  apply Slots.mapIdx_congr
  intro index constructor
  exact constructor.rendered_update_of_ne (apart index)

theorem Body.rendered_update_of_ne {id : DefinitionId}
    (constructors : ∀ index, site.constructor? ≠ some (id, index))
    (members : ∀ place, .productMember id place ≠ site) (body : Body) :
    body.rendered (update rendering? site new?) id =
      body.rendered rendering? id := by
  cases body with
  | product fields =>
      rw [rendered, rendered, Field.listRendered_update_of_ne members]
  | sum alternatives =>
      rw [rendered, rendered,
        Constructor.listRendered_update_of_ne constructors]

namespace Definition

theorem rendered_update_of_ne {id : DefinitionId}
    (apart : site.owner? ≠ some id) (definition : Definition) :
    definition.rendered (update rendering? site new?) id =
      definition.rendered rendering? id := by
  have otherSite : ∀ inside : Site, inside.owner? = some id →
      inside ≠ site := by
    rintro inside owned rfl
    exact apart owned
  have otherConstructors : ∀ index, site.constructor? ≠ some (id, index) := by
    intro index inside
    exact apart (Site.owner?_eq_of_constructor? inside)
  rw [rendered, rendered, Function.update_of_ne (otherSite _ rfl),
    Field.listRendered_update_of_ne fun place => otherSite _ rfl,
    Body.rendered_update_of_ne otherConstructors fun place =>
      otherSite _ rfl]

theorem listRendered_update_of_ne
    (apart : ∀ index, site.owner? ≠ some (.user index))
    (definitions : List Definition) :
    listRendered (update rendering? site new?) definitions =
      listRendered rendering? definitions := by
  have unchanged :
      (fun index => rendered (update rendering? site new?) (.user index)) =
        fun index => rendered rendering? (.user index) := by
    funext index definition
    exact definition.rendered_update_of_ne (apart index)
  rw [listRendered, listRendered, unchanged]

variable (id : DefinitionId) (definition : Definition)

theorem mapName_rendered :
    (definition.rendered rendering? id).mapName (Name.rendered new?) =
      definition.rendered (update rendering? (.definition id) new?) id := by
  have outside : ∀ index,
      (Site.definition id).constructor? ≠ some (id, index) :=
    fun _ => nofun
  simp [rendered, mapName, Name.rendered, Field.listRendered_update_of_ne,
    Body.rendered_update_of_ne outside]

private theorem modifyAttribute_rendered (index : Nat) :
    (definition.rendered rendering? id).modifyAttribute index
        (Field.mapName (Name.rendered new?)) =
      definition.rendered (update rendering? (.attribute id index) new?)
        id := by
  have injective : Function.Injective (Site.attribute id) := by
    intro left right same
    simpa using same
  have outside : ∀ other,
      (Site.attribute id index).constructor? ≠ some (id, other) :=
    fun _ => nofun
  simp [rendered, modifyAttribute, Field.modify_listRendered injective,
    Body.rendered_update_of_ne outside]

/-- A product has no constructor to change, and no site of one. -/
theorem modifyConstructor_rendered {index : Nat}
    {change : Constructor → Constructor}
    (inside : site.constructor? = some (id, index))
    (changes : ∀ constructor : Constructor,
      change (constructor.rendered rendering? id index) =
        constructor.rendered (update rendering? site new?) id index) :
    (definition.rendered rendering? id).modifyConstructor index change =
      definition.rendered (update rendering? site new?) id := by
  have otherSite : ∀ outside : Site, outside.constructor? = none →
      outside ≠ site := by
    rintro outside isOutside rfl
    rw [inside] at isOutside
    cases isOutside
  obtain ⟨name, module, attributes, body⟩ := definition
  cases body with
  | product members =>
      simp only [rendered, modifyConstructor, Body.rendered,
        Function.update_of_ne (otherSite (.definition id) rfl),
        Field.listRendered_update_of_ne fun place =>
          otherSite (.attribute id place) rfl,
        Field.listRendered_update_of_ne fun place =>
          otherSite (.productMember id place) rfl]
  | sum constructors =>
      have changed :
          (Constructor.listRendered rendering? id constructors).modify index
              change =
            Constructor.listRendered (update rendering? site new?) id
              constructors := by
        rw [Constructor.listRendered, Slots.modify_mapIdx]
        apply Slots.mapIdx_congr
        intro other constructor
        by_cases isIndex : other = index
        · rw [if_pos isIndex, isIndex, changes]
        · have apart : site.constructor? ≠ some (id, other) := by
            rw [inside]
            intro same
            cases same
            exact isIndex rfl
          rw [if_neg isIndex, constructor.rendered_update_of_ne apart]
      simp only [rendered, modifyConstructor, Body.rendered, changed,
        Function.update_of_ne (otherSite (.definition id) rfl),
        Field.listRendered_update_of_ne fun place =>
          otherSite (.attribute id place) rfl]

theorem modifyMember_rendered (index : Nat) :
    (definition.rendered rendering? id).modifyMember index
        (Field.mapName (Name.rendered new?)) =
      definition.rendered (update rendering? (.productMember id index) new?)
        id := by
  have injective : Function.Injective (Site.productMember id) := by
    intro left right same
    simpa using same
  obtain ⟨name, module, attributes, body⟩ := definition
  cases body with
  | sum constructors =>
      have outside : ∀ other,
          (Site.productMember id index).constructor? ≠ some (id, other) :=
        fun _ => nofun
      simp [rendered, modifyMember, Body.rendered,
        Field.listRendered_update_of_ne,
        Constructor.listRendered_update_of_ne outside]
  | product members =>
      simp [rendered, modifyMember, Body.rendered,
        Field.modify_listRendered injective,
        Field.listRendered_update_of_ne]

end Definition

end Resolved

namespace Tree

theorem rendered_update_of_home_builtin (builtin : site.home = .builtin)
    (tree : Tree) :
    tree.rendered (update rendering? site new?) =
      tree.rendered rendering? := by
  have otherModule : .module .user ≠ site := by
    rintro rfl
    cases builtin
  have otherOwner : ∀ index, site.owner? ≠ some (.user index) := by
    intro index owned
    rw [Site.home_eq_of_owner? owned] at builtin
    cases builtin
  rw [rendered, rendered, Function.update_of_ne otherModule,
    Resolved.Definition.listRendered_update_of_ne otherOwner]

/-- A change inside one definition, where the definition is told from the
others by its place. -/
theorem modifyDefinition_rendered {id : DefinitionId}
    {change : Resolved.Definition → Resolved.Definition}
    (owned : site.owner? = some id)
    (changes : ∀ definition : Resolved.Definition,
      change (definition.rendered rendering? id) =
        definition.rendered (update rendering? site new?) id)
    (tree : Tree) :
    (tree.rendered rendering?).modifyDefinition id change =
      tree.rendered (update rendering? site new?) := by
  obtain ⟨module, index⟩ := id
  cases module with
  | builtin =>
      rw [rendered_update_of_home_builtin (Site.home_eq_of_owner? owned)]
      rfl
  | user =>
      have otherModule : .module .user ≠ site := by
        rintro rfl
        cases owned
      have changed :
          (Resolved.Definition.listRendered rendering?
              tree.root.definitions).modify index change =
            Resolved.Definition.listRendered (update rendering? site new?)
              tree.root.definitions := by
        rw [Resolved.Definition.listRendered, modify_mapIdx,
          Resolved.Definition.listRendered]
        congr 1
        funext other definition
        by_cases isIndex : other = index
        · rw [if_pos isIndex, isIndex]
          exact changes definition
        · have otherOwner : site.owner? ≠ some (.user other) := by
            rw [owned]
            intro same
            cases same
            exact isIndex rfl
          rw [if_neg isIndex, definition.rendered_update_of_ne otherOwner]
      simp only [modifyDefinition, rendered, changed,
        Function.update_of_ne otherModule]

/-- Rendering the name at a site anew is all that the function of renderings
needs to be told. -/
theorem mapName_rendered (tree : Tree) (site : Site) (new? : Option String) :
    (tree.rendered rendering?).mapName site (Name.rendered new?) =
      tree.rendered (update rendering? site new?) := by
  cases site with
  | module id =>
      cases id with
      | builtin => exact (rendered_update_of_home_builtin rfl tree).symm
      | user =>
          have unowned :
              ∀ index, (Site.module .user).owner? ≠ some (.user index) := by
            simp [Site.owner?]
          simp [mapName, rendered, Name.rendered,
            Resolved.Definition.listRendered_update_of_ne unowned]
  | definition id =>
      refine modifyDefinition_rendered rfl ?_ tree
      exact Resolved.Definition.mapName_rendered id
  | constructor id index =>
      refine modifyDefinition_rendered rfl ?_ tree
      intro definition
      refine definition.modifyConstructor_rendered id rfl ?_
      intro constructor
      exact constructor.mapName_rendered id index
  | constructorMember id index place =>
      refine modifyDefinition_rendered rfl ?_ tree
      intro definition
      refine definition.modifyConstructor_rendered id rfl ?_
      intro constructor
      exact constructor.modifyMember_rendered id index place
  | productMember id index =>
      refine modifyDefinition_rendered rfl ?_ tree
      intro definition
      exact definition.modifyMember_rendered id index
  | _ id index =>
      refine modifyDefinition_rendered rfl ?_ tree
      intro definition
      exact definition.modifyAttribute_rendered id index

end Tree

end Update

end Asdl
