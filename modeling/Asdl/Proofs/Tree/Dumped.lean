/-
The text of a compiled tree, whatever has been set in it.

A compiled tree starts without renderings, so settings make of it the tree that
is rendered by the first setting of each site.  Its text can be written from
the description: each name as its site has it, and for the type of a field the
name of the definition that the type leads to.  Names that are spelled alike
are told apart by their sites.
-/

import Asdl.Proofs.Resolution.Compiled
import Asdl.Proofs.Tree.Settings

namespace Asdl

open Resolved (DefinitionId)

theorem mapIdx_map {α β γ : Type} (items : List α) (make : α → β)
    (change : Nat → β → γ) :
    (items.map make).mapIdx change =
      items.mapIdx fun index item => change index (make item) := by
  rw [List.mapIdx_eq_iff]
  intro index
  rw [List.getElem?_mapIdx, List.getElem?_map, Option.map_map]
  rfl

theorem mapIdx_eq_map {α β : Type} {items : List α} {make : Nat → α → β}
    {text : α → β}
    (same : ∀ index, ∀ item ∈ items, make index item = text item) :
    items.mapIdx make = items.map text := by
  rw [List.mapIdx_eq_iff]
  intro index
  rw [List.getElem?_map]
  cases placed : items[index]? with
  | none => rfl
  | some item =>
      have member := List.mem_of_getElem? placed
      rw [Option.map_some, Option.map_some, same index item member]

theorem Resolved.Slots.mapIdx_full_map {α β : Type} {make : α → β}
    {change : Nat → β → β}
    (unchanged : ∀ index item, change index (make item) = make item)
    (items : List α) :
    (Slots.full (items.map make)).mapIdx change =
      .full (items.map make) := by
  have sameItems : (items.map make).mapIdx change = items.map make := by
    rw [mapIdx_map]
    exact mapIdx_eq_map fun index item _ => unchanged index item
  simp only [mapIdx, full, sameItems]

section Linked

variable (lookup? : String → Option DefinitionId)

theorem Field.rendered_linked (site : Site) (field : Field) :
    (field.linked lookup?).rendered (fun _ => none) site =
      field.linked lookup? := by
  simp only [linked, Resolved.Field.rendered, Resolved.Field.mapName,
    Option.map_map]
  rfl

theorem Field.listRendered_linked (siteAt : Nat → Site)
    (fields : List Field) :
    Resolved.Field.listRendered (fun _ => none) siteAt
        (.full (fields.map (Field.linked lookup?))) =
      .full (fields.map (Field.linked lookup?)) :=
  Resolved.Slots.mapIdx_full_map
    (fun place => rendered_linked lookup? (siteAt place)) fields

theorem Body.rendered_linked (id owner : DefinitionId) (body : Body) :
    (body.linked lookup? owner).rendered (fun _ => none) id =
      body.linked lookup? owner := by
  cases body with
  | product members =>
      simp only [linked, Resolved.Body.rendered, Field.listRendered_linked]
  | sum constructors =>
      refine congrArg Resolved.Body.sum ?_
      apply Resolved.Slots.mapIdx_full_map
      intro index constructor
      simp only [Constructor.linked, Resolved.Constructor.rendered,
        Field.listRendered_linked]
      rfl

theorem Definition.rendered_linked (id : DefinitionId) (index : Nat)
    (definition : Definition) :
    (definition.linked lookup? index).rendered (fun _ => none) id =
      definition.linked lookup? index := by
  simp only [linked, Resolved.Definition.rendered, Field.listRendered_linked,
    Body.rendered_linked]
  rfl

end Linked

theorem Module.rendered_linked (module : Module) :
    module.linked.tree.rendered (fun _ => none) = module.linked.tree := by
  simp only [linked, Tree.rendered, Resolved.Definition.listRendered,
    List.mapIdx_mapIdx, Function.comp_def, Definition.rendered_linked]
  rfl

/-! ### Texts of descriptions -/

section Dumped

variable (typeText : String → String) (spell : Site → String → String)

def Field.dumped (site : Site) (field : Field) : String :=
  typeText field.typeName ++ field.cardinality.marker ++
    match field.name? with
    | some name => " " ++ spell site name
    | none => ""

def Field.listDumped (siteAt : Nat → Site) (fields : List Field) : String :=
  Tree.bracketed
    (fields.mapIdx fun place => Field.dumped typeText spell (siteAt place))

def Constructor.dumped (id : DefinitionId) (index : Nat)
    (constructor : Constructor) : String :=
  spell (.constructor id index) constructor.name ++
    Field.listDumped typeText spell (.constructorMember id index)
      constructor.members

def Body.dumped (id : DefinitionId) : Body → String
  | sum constructors =>
      Tree.bracketed
        (constructors.mapIdx (Constructor.dumped typeText spell id))
  | product members =>
      Field.listDumped typeText spell (.productMember id) members

def Definition.dumped (id : DefinitionId) (definition : Definition) :
    String :=
  spell (.definition id) definition.name ++ "(" ++
    definition.body.dumped typeText spell id ++ ", attr=" ++
    Field.listDumped typeText spell (.attribute id) definition.attributes ++
    ")"

end Dumped

namespace Module

/-- What is written for a type: the spelling of the first definition with the
name, else the built-in type with the name, else the stand-in. -/
def typeText (spell : Site → String → String) (module : Module)
    (typeName : String) : String :=
  match (module.definitions.map Definition.name).idxOf? typeName with
  | some index => spell (.definition (.user index)) typeName
  | none =>
      if typeName ∈ Resolved.Builtin.names then
        typeName
      else
        Resolved.Builtin.unresolvedName

/-- The text of a module in which every name is spelled by its site. -/
def dumped (spell : Site → String → String) (module : Module) : String :=
  "module " ++ spell (.module .user) module.name ++ "\n" ++
    String.join
      (module.definitions.mapIdx fun index definition =>
        "  " ++
          definition.dumped (module.typeText spell) spell (.user index) ++
          "\n")

end Module

section Shown

variable {tree : Tree} {lookup? : String → Option DefinitionId}
variable {rendering? : Site → Option String} {typeText : String → String}

/-- A declared name, unless its site has a rendering. -/
def Site.spelling (rendering? : Site → Option String) (site : Site)
    (declared : String) : String :=
  (rendering? site).getD declared

/-- Wherever a field stands, the text of its type is the given one. -/
def Tree.ShowsTypes (tree : Tree) (lookup? : String → Option DefinitionId)
    (typeText : String → String) : Prop :=
  ∀ field : Resolved.Field, ∀ typeName,
    field.type = (lookup? typeName).getD Resolved.Builtin.unresolved →
      tree.typeRendering field = typeText typeName

private theorem Field.dumpField_linked
    (shows : tree.ShowsTypes lookup? typeText)
    (site : Site) (field : Field) :
    tree.dumpField ((field.linked lookup?).rendered rendering? site) =
      field.dumped typeText (Site.spelling rendering?) site := by
  have shown :=
    shows ((field.linked lookup?).rendered rendering? site) field.typeName rfl
  rw [Tree.dumpField, shown, dumped]
  simp only [linked, Resolved.Field.rendered, Resolved.Field.mapName]
  cases field.name? <;> rfl

theorem Field.dumpFields_linked (shows : tree.ShowsTypes lookup? typeText)
    (siteAt : Nat → Site) (fields : List Field) :
    tree.dumpFields
        (Resolved.Field.listRendered rendering? siteAt
          (.full (fields.map (Field.linked lookup?)))) =
      Field.listDumped typeText (Site.spelling rendering?) siteAt fields := by
  simp only [Tree.dumpFields, Field.listDumped, Resolved.Field.listRendered,
    Resolved.Slots.mapIdx, Resolved.Slots.full, mapIdx_map, map_mapIdx,
    dumpField_linked shows]

private theorem Constructor.dumpConstructor_linked
    (shows : tree.ShowsTypes lookup? typeText) (id owner : DefinitionId)
    (index : Nat) (constructor : Constructor) :
    tree.dumpConstructor
        ((constructor.linked lookup? owner).rendered rendering? id index) =
      constructor.dumped typeText (Site.spelling rendering?) id index := by
  simp only [Tree.dumpConstructor, Resolved.Constructor.rendered, linked,
    Field.dumpFields_linked shows]
  rfl

private theorem Body.dumpBody_linked (shows : tree.ShowsTypes lookup? typeText)
    (id owner : DefinitionId) (body : Body) :
    tree.dumpBody ((body.linked lookup? owner).rendered rendering? id) =
      body.dumped typeText (Site.spelling rendering?) id := by
  cases body with
  | product members => exact Field.dumpFields_linked shows _ members
  | sum constructors =>
      simp only [linked, Resolved.Body.rendered, Tree.dumpBody, dumped,
        Resolved.Constructor.listRendered, Resolved.Slots.mapIdx,
        Resolved.Slots.full, mapIdx_map, map_mapIdx,
        Constructor.dumpConstructor_linked shows]

private theorem Definition.dumpDefinition_linked
    (shows : tree.ShowsTypes lookup? typeText) (id : DefinitionId)
    (index : Nat) (definition : Definition) :
    tree.dumpDefinition
        ((definition.linked lookup? index).rendered rendering? id) =
      definition.dumped typeText (Site.spelling rendering?) id := by
  simp only [Tree.dumpDefinition, Resolved.Definition.rendered, linked,
    Field.dumpFields_linked shows, Body.dumpBody_linked shows]
  rfl

end Shown

private theorem Resolved.Builtin.definitions_getElem? {name : String}
    {index : Nat}
    (placed : names.idxOf? name = some index) :
    module.definitions[index]? = some (definition name) := by
  obtain ⟨inside, here, _⟩ := List.idxOf?_eq_some_iff.mp placed
  simp only [definitions_module, List.getElem?_map,
    List.getElem?_append_left inside, List.getElem?_eq_getElem inside, here,
    Option.map_some]

/-- The definition that a field links to is the one that the description leads
to, so its spelling is the one to write. -/
theorem Module.showsTypes_linked (rendering? : Site → Option String)
    (module : Module) :
    (module.linked.tree.rendered rendering?).ShowsTypes
      (Definition.listIdentity? module.definitions)
      (module.typeText (Site.spelling rendering?)) := by
  intro field typeName linked
  rw [Tree.typeRendering, Tree.typeOf?, linked, typeText,
    Definition.listIdentity?]
  cases own : (module.definitions.map Definition.name).idxOf? typeName with
  | some index =>
      obtain ⟨insideNames, named, _⟩ := List.idxOf?_eq_some_iff.mp own
      have inside : index < module.definitions.length := by
        rw [List.length_map] at insideNames
        exact insideNames
      have found :
          (module.linked.tree.rendered rendering?).definition? (.user index) =
            (module.definitions[index]?.map
              (Definition.linked
                (Definition.listIdentity? module.definitions) index)).map
              (Resolved.Definition.rendered rendering? (.user index)) := by
        rw [Tree.definition?_rendered rendering? _ rfl,
          ← List.getElem?_mapIdx]
        rfl
      rw [List.getElem_map] at named
      rw [Option.map_some, Option.some_or, Option.getD_some, found,
        List.getElem?_eq_getElem inside, ← named]
      rfl
  | none =>
      cases builtin : Resolved.Builtin.names.idxOf? typeName with
      | some index =>
          have known : typeName ∈ Resolved.Builtin.names :=
            List.isSome_idxOf?.mp (by rw [builtin]; rfl)
          have found := Resolved.Builtin.definitions_getElem? builtin
          simp only [if_pos known, Option.map_none, Option.none_or,
            Option.map_some, Option.getD_some, Tree.definition?, Tree.module,
            DefinitionId.builtin, found]
          rfl
      | none =>
          have unknown : typeName ∉ Resolved.Builtin.names :=
            List.idxOf?_eq_none_iff.mp builtin
          rw [if_neg unknown]
          rfl

theorem Module.dump_rendered_linked (rendering? : Site → Option String)
    (module : Module) :
    (module.linked.tree.rendered rendering?).dump =
      module.dumped (Site.spelling rendering?) := by
  have shows := module.showsTypes_linked rendering?
  have definitions :
      (module.linked.tree.rendered rendering?).root.definitions =
        module.definitions.mapIdx fun index definition =>
          (definition.linked (Definition.listIdentity? module.definitions)
            index).rendered rendering? (.user index) := by
    simp only [linked, Tree.rendered, Resolved.Definition.listRendered,
      List.mapIdx_mapIdx]
    rfl
  rw [Tree.dump, Tree.dumpModule, definitions, map_mapIdx]
  simp only [Definition.dumpDefinition_linked shows]
  rfl

/-- What becomes of a compiled tree by settings, in whatever order and however
often a site comes.  Without its renderings the tree is the one that was
compiled.  A name of the module can be set once, a name of the built-in module
never; and a setting that succeeds shows at its name and, if the name is that
of a definition, at the fields whose type is that definition. -/
structure Tree.SetsOnce (tree : Tree) (module : Module)
    (settings : List Setting) : Prop where
  kept : (tree.setAll settings).rendered (fun _ => none) = tree
  lookup : (tree.setAll settings).lookup? = tree.lookup?
  own :
    ∀ site name text, site.home = .user → tree.name? site = some name →
      (tree.setAll settings).render? site text =
        some
          (match Setting.first? settings site with
          | none =>
              .ok
                (tree.setAll
                  (settings ++
                    [{ site := site
                       rendering := text }]))
          | some first => .error (.alreadySet name.declared first))
  builtin :
    ∀ site name text, site.home = .builtin → tree.name? site = some name →
      (tree.setAll settings).render? site text =
        some (.error (.alreadySet name.declared name.declared))
  unnamed :
    ∀ site text, tree.name? site = none →
      (tree.setAll settings).render? site text = none
  name :
    ∀ site text after,
      (tree.setAll settings).render? site text = some (.ok after) →
        ∀ other,
          after.name? other =
            if other = site then
              ((tree.setAll settings).name? other).map
                (Name.rendered (some text))
            else
              (tree.setAll settings).name? other
  type :
    ∀ site text after,
      (tree.setAll settings).render? site text = some (.ok after) →
        ∀ field,
          after.typeRendering field =
            if .definition field.type = site then
              text
            else
              (tree.setAll settings).typeRendering field
  dump :
    (tree.setAll settings).dump =
      module.dumped (Site.spelling (Setting.first? settings))

/-- Whatever compiles can be set once at each site. -/
theorem setsOnce_of_compile {module : Module} {compilation : Compilation}
    (compiled : compile module = .ok compilation)
    (settings : List Setting) :
    compilation.tree.SetsOnce module settings := by
  obtain ⟨_, rfl⟩ := (compile_eq_ok_iff module compilation).mp compiled
  have unset := module.rendered_linked
  have settled := Tree.setAll_eq unset settings
  refine
    { kept := ?_
      lookup := ?_
      own := ?_
      builtin := ?_
      unnamed := ?_
      name := ?_
      type := ?_
      dump := ?_ }
  · rw [settled, Tree.rendered_rendered, unset]
  · rw [settled]
    rfl
  · intro site name text user named
    rw [settled, Tree.render?_rendered _ _ user, named, Option.map_some]
    cases isSet : Setting.first? settings site with
    | some first => rfl
    | none =>
        rw [Tree.setAll_concat, settled, Tree.set_rendered]
        simp only [isSet, Option.none_or]
  · intro site name text builtin named
    rw [Tree.render?_of_home_builtin _ builtin,
      Tree.name?_of_home_builtin builtin _ module.linked.tree, named]
    rfl
  · intro site text unnamed
    cases homed : site.home with
    | builtin =>
        rw [Tree.render?_of_home_builtin _ homed,
          Tree.name?_of_home_builtin homed _ module.linked.tree, unnamed]
        rfl
    | user =>
        rw [settled, Tree.render?_rendered _ _ homed, unnamed]
        rfl
  · intro site text after succeeds other
    rw [settled, Tree.render?_rendered_eq_ok_iff] at succeeds
    obtain ⟨user, _, _, rfl⟩ := succeeds
    rw [settled]
    exact Tree.name?_rendered_update _ _ user other
  · intro site text after succeeds field
    rw [settled, Tree.render?_rendered_eq_ok_iff] at succeeds
    obtain ⟨user, named, _, rfl⟩ := succeeds
    rw [settled]
    exact Tree.typeRendering_rendered_update _ _ user named field
  · rw [settled, Module.dump_rendered_linked]

/-- A definition that hides a built-in type is set twice, a built-in type and
the stand-in are asked for, and two constructors of one name are told apart. -/
theorem setsOnce_shadowing :
    ∃ compilation, compile Module.shadowing = .ok compilation ∧
      let settings : List Setting :=
        [{ site := .definition (.user 1)
           rendering := "Number" },
          { site := .definition (.builtin 1)
            rendering := "Text" },
          { site := .definition (.user 1)
            rendering := "Whole" },
          { site := .constructor (.user 0) 2
            rendering := "Again" },
          { site := .definition Resolved.Builtin.unresolved
            rendering := "Any" },
          { site := .module .user
            rendering := "m" }]
      compilation.tree.SetsOnce Module.shadowing settings ∧
        (compilation.tree.setAll settings).dump =
          "module m\n" ++
            "  expr([Number[Number], Call[expr*], Again[]], attr=[string?])\n" ++
            "  Number([expr, <unresolved>?], attr=[])\n" := by
  have compiled :
      compile Module.shadowing = .ok Module.shadowing.linked :=
    (compile_eq_ok_iff _ _).mpr ⟨by decide, rfl⟩
  refine ⟨_, compiled, setsOnce_of_compile compiled _, ?_⟩
  decide +kernel

end Asdl
