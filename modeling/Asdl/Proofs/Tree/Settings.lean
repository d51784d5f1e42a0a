/-
Setting renderings one after another.

A setting looks at the name at its site and at nothing else, and it succeeds
when that name has no rendering.  So of all settings for a site the first one
counts, and a tree after any number of settings is the tree before them,
rendered by the first setting of each site.  The names of the built-in module
are fixed, and a setting for one of them comes to nothing.
-/

import Asdl.Proofs.Tree.Rendered
import Asdl.Tree.Dump

namespace Asdl

open Function (update)
open Resolved (DefinitionId)

namespace Resolved

variable (rendering? : Site → Option String) (id : DefinitionId)

theorem Slots.get?_mapIdx {α β : Type} (change : Nat → α → β)
    (slots : Slots α) (index : Nat) :
    (slots.mapIdx change).get? index =
      (slots.get? index).map (change index) :=
  List.getElem?_mapIdx

theorem Definition.constructor?_rendered (definition : Definition)
    (index : Nat) :
    (definition.rendered rendering? id).constructor? index =
      (definition.constructor? index).map
        (Constructor.rendered rendering? id index) := by
  obtain ⟨name, module, attributes, body⟩ := definition
  cases body with
  | sum constructors => exact constructors.get?_mapIdx _ index
  | product members => rfl

private theorem Definition.member?_rendered (definition : Definition)
    (index : Nat) :
    (definition.rendered rendering? id).member? index =
      (definition.member? index).map
        (Field.rendered rendering? (.productMember id index)) := by
  obtain ⟨name, module, attributes, body⟩ := definition
  cases body with
  | sum constructors => rfl
  | product members => exact members.get?_mapIdx _ index

end Resolved

namespace Tree

variable (rendering? : Site → Option String) (tree : Tree)

theorem definition?_rendered {id : DefinitionId} (user : id.module = .user) :
    (tree.rendered rendering?).definition? id =
      (tree.definition? id).map
        (Resolved.Definition.rendered rendering? id) := by
  obtain ⟨module, index⟩ := id
  cases user
  exact List.getElem?_mapIdx

theorem constructor?_rendered {id : DefinitionId}
    (user : id.module = .user) (index : Nat) :
    (tree.rendered rendering?).constructor? id index =
      (tree.constructor? id index).map
        (Resolved.Constructor.rendered rendering? id index) := by
  rw [constructor?, constructor?, definition?_rendered rendering? tree user]
  cases tree.definition? id with
  | none => rfl
  | some definition =>
      exact definition.constructor?_rendered rendering? id index

private theorem field?_rendered {site : Site} (user : site.home = .user) :
    (tree.rendered rendering?).field? site =
      (tree.field? site).map (Resolved.Field.rendered rendering? site) := by
  cases site with
  | module id => rfl
  | definition id => rfl
  | constructor id index => rfl
  | constructorMember id index place =>
      rw [field?, field?, constructor?_rendered rendering? tree user]
      cases tree.constructor? id index with
      | none => rfl
      | some constructor => exact constructor.members.get?_mapIdx _ place
  | productMember id index =>
      rw [field?, field?, definition?_rendered rendering? tree user]
      cases tree.definition? id with
      | none => rfl
      | some definition =>
          exact definition.member?_rendered rendering? id index
  | _ id index =>
      rw [field?, field?, definition?_rendered rendering? tree user]
      cases tree.definition? id with
      | none => rfl
      | some definition => exact definition.attributes.get?_mapIdx _ index

theorem name?_rendered {site : Site} (user : site.home = .user) :
    (tree.rendered rendering?).name? site =
      (tree.name? site).map (Name.rendered (rendering? site)) := by
  have sameField := field?_rendered rendering? tree user
  cases site with
  | module id =>
      cases user
      rfl
  | definition id =>
      simp only [name?, node?, definition?_rendered rendering? tree user]
      cases tree.definition? id <;> rfl
  | constructor id index =>
      simp only [name?, node?, constructor?_rendered rendering? tree user]
      cases tree.constructor? id index <;> rfl
  | constructorMember | productMember | _ =>
      simp only [name?, node?, sameField]
      cases tree.field? _ <;> rfl

theorem name?_of_home_builtin {site : Site} (builtin : site.home = .builtin)
    (tree other : Tree) : tree.name? site = other.name? site := by
  cases site with
  | module id =>
      cases builtin
      rfl
  | _ id =>
      obtain ⟨module, index⟩ := id
      cases builtin
      rfl

/-- The built-in module has names only for itself and its definitions, and
they are fixed. -/
theorem eq_fixed_of_name?_builtin {site : Site} {tree : Tree} {name : Name}
    (builtin : site.home = .builtin) (named : tree.name? site = some name) :
    name = .fixed name.declared := by
  cases site with
  | module id =>
      cases builtin
      cases named
      rfl
  | definition id =>
      cases found : tree.definition? id with
      | none => simp [name?, node?, found] at named
      | some definition =>
          obtain ⟨declared, rfl⟩ := exists_of_definition?_builtin builtin found
          simp only [name?, node?, found] at named
          cases named
          rfl
  | _ id =>
      cases found : tree.definition? id with
      | none => simp [name?, node?, field?, constructor?, found] at named
      | some definition =>
          obtain ⟨declared, rfl⟩ := exists_of_definition?_builtin builtin found
          simp [name?, node?, field?, constructor?, found,
            Resolved.Builtin.definition, Resolved.Definition.vacantProduct,
            Resolved.Definition.constructor?, Resolved.Definition.member?,
            Resolved.Slots.get?, Resolved.Slots.vacant] at named

end Tree

namespace Resolved

theorem Field.mapName_congr {field : Field} {left right : Name → Name}
    (same : ∀ name, field.name? = some name → left name = right name) :
    field.mapName left = field.mapName right := by
  rw [mapName, mapName, Option.map_congr same]

theorem Definition.modifyConstructor_congr {definition : Definition}
    {index : Nat} {left right : Constructor → Constructor}
    (same : ∀ constructor, definition.constructor? index = some constructor →
      left constructor = right constructor) :
    definition.modifyConstructor index left =
      definition.modifyConstructor index right := by
  obtain ⟨name, module, attributes, body⟩ := definition
  cases body with
  | sum constructors =>
      simp only [modifyConstructor, Slots.modify_congr same]
  | product members => rfl

private theorem Definition.modifyMember_congr {definition : Definition}
    {index : Nat} {left right : Field → Field}
    (same : ∀ member, definition.member? index = some member →
      left member = right member) :
    definition.modifyMember index left =
      definition.modifyMember index right := by
  obtain ⟨name, module, attributes, body⟩ := definition
  cases body with
  | sum constructors => rfl
  | product members => simp only [modifyMember, Slots.modify_congr same]

end Resolved

namespace Tree

theorem modifyDefinition_congr {tree : Tree} {id : DefinitionId}
    {left right : Resolved.Definition → Resolved.Definition}
    (same : ∀ definition, tree.definition? id = some definition →
      left definition = right definition) :
    tree.modifyDefinition id left = tree.modifyDefinition id right := by
  obtain ⟨module, index⟩ := id
  cases module with
  | user =>
      have sameList :
          tree.root.definitions.modify index left =
            tree.root.definitions.modify index right :=
        modify_congr same
      simp only [modifyDefinition, sameList]
  | builtin => rfl

theorem mapName_congr {tree : Tree} {site : Site} {left right : Name → Name}
    (same : ∀ name, tree.name? site = some name → left name = right name) :
    tree.mapName site left = tree.mapName site right := by
  cases site with
  | module id =>
      cases id with
      | user => simp only [mapName, same tree.root.name rfl]
      | builtin => rfl
  | definition id =>
      apply modifyDefinition_congr
      intro definition found
      have sameName : left definition.name = right definition.name := by
        apply same
        simp [name?, node?, found, Node.name?]
      simp only [Resolved.Definition.mapName, sameName]
  | constructor id index =>
      apply modifyDefinition_congr
      intro definition found
      apply Resolved.Definition.modifyConstructor_congr
      intro constructor placed
      have sameName : left constructor.name = right constructor.name := by
        apply same
        simp [name?, node?, constructor?, found, placed, Node.name?]
      simp only [Resolved.Constructor.mapName, sameName]
  | constructorMember id index place =>
      apply modifyDefinition_congr
      intro definition found
      apply Resolved.Definition.modifyConstructor_congr
      intro constructor placed
      have sameMembers :
          constructor.members.modify place (.mapName left) =
            constructor.members.modify place (.mapName right) := by
        apply Resolved.Slots.modify_congr
        intro member here
        apply Resolved.Field.mapName_congr
        intro name named
        apply same
        simp [name?, node?, field?, constructor?, found, placed, here,
          Node.name?, named]
      simp only [sameMembers]
  | productMember id index =>
      apply modifyDefinition_congr
      intro definition found
      apply Resolved.Definition.modifyMember_congr
      intro member placed
      apply Resolved.Field.mapName_congr
      intro name named
      apply same
      simp [name?, node?, field?, found, placed, Node.name?, named]
  | _ id index =>
      apply modifyDefinition_congr
      intro definition found
      have sameAttributes :
          definition.attributes.modify index (.mapName left) =
            definition.attributes.modify index (.mapName right) := by
        apply Resolved.Slots.modify_congr
        intro member here
        apply Resolved.Field.mapName_congr
        intro name named
        apply same
        simp [name?, node?, field?, found, here, Node.name?, named]
      simp only [Resolved.Definition.modifyAttribute, sameAttributes]

private theorem rendered_update_of_name?_eq_none {tree : Tree} {site : Site}
    (unnamed : tree.name? site = none) (rendering? : Site → Option String)
    (new? : Option String) :
    tree.rendered (update rendering? site new?) =
      tree.rendered rendering? := by
  cases homed : site.home with
  | builtin => exact rendered_update_of_home_builtin homed tree
  | user =>
      have stillUnnamed : (tree.rendered rendering?).name? site = none := by
        rw [name?_rendered rendering? tree homed, unnamed]
        rfl
      have alike :
          (tree.rendered rendering?).mapName site (Name.rendered new?) =
            (tree.rendered rendering?).mapName site
              (Name.rendered (rendering? site)) := by
        apply mapName_congr
        intro name named
        rw [stillUnnamed] at named
        cases named
      rw [mapName_rendered, mapName_rendered, Function.update_eq_self] at alike
      exact alike

end Tree

/-! ### Settings -/

structure Setting where
  site : Site
  rendering : String
deriving DecidableEq

/-- What the first setting for a site sets. -/
def Setting.first? (settings : List Setting) (site : Site) : Option String :=
  (settings.find? fun setting => setting.site == site).map Setting.rendering

namespace Tree

/-- The tree after a setting, which leaves it alone when there is no name or
when the name has a rendering. -/
def set (tree : Tree) (setting : Setting) : Tree :=
  match tree.render? setting.site setting.rendering with
  | some (.ok after) => after
  | some (.error _) | none => tree

def setAll (tree : Tree) (settings : List Setting) : Tree :=
  settings.foldl set tree

theorem setAll_concat (tree : Tree) (settings : List Setting)
    (setting : Setting) :
    tree.setAll (settings ++ [setting]) =
      (tree.setAll settings).set setting := by
  rw [setAll, setAll, List.foldl_append]
  rfl

variable (tree : Tree) (rendering? : Site → Option String)

theorem render?_rendered {site : Site} (user : site.home = .user)
    (text : String) :
    (tree.rendered rendering?).render? site text =
      (tree.name? site).map fun name =>
        match rendering? site with
        | none => .ok (tree.rendered (update rendering? site (some text)))
        | some earlier => .error (.alreadySet name.declared earlier) := by
  rw [render?, name?_rendered rendering? tree user, Option.map_map]
  cases named : tree.name? site with
  | none => rfl
  | some name =>
      cases isSet : rendering? site with
      | some earlier => rfl
      | none =>
          have isNamed :
              (tree.rendered rendering?).name? site =
                some (name.rendered none) := by
            rw [name?_rendered rendering? tree user, named, isSet]
            rfl
          have renders :
              (tree.rendered rendering?).mapName site
                  (fun _ => name.rendered (some text)) =
                tree.rendered (update rendering? site (some text)) := by
            rw [← mapName_rendered]
            apply mapName_congr
            intro other isOther
            rw [isNamed] at isOther
            cases isOther
            rfl
          rw [← renders]
          rfl

theorem render?_of_home_builtin {site : Site} (builtin : site.home = .builtin)
    (text : String) :
    tree.render? site text =
      (tree.name? site).map fun name =>
        .error (.alreadySet name.declared name.declared) := by
  unfold render?
  cases named : tree.name? site with
  | none => rfl
  | some name =>
      rw [eq_fixed_of_name?_builtin builtin named]
      rfl

theorem set_rendered (setting : Setting) :
    (tree.rendered rendering?).set setting =
      tree.rendered
        (update rendering? setting.site
          ((rendering? setting.site).or (some setting.rendering))) := by
  obtain ⟨site, text⟩ := setting
  cases homed : site.home with
  | builtin =>
      rw [rendered_update_of_home_builtin homed, set,
        render?_of_home_builtin _ homed]
      cases (tree.rendered rendering?).name? site <;> rfl
  | user =>
      rw [set, render?_rendered tree rendering? homed]
      cases named : tree.name? site with
      | none => exact (rendered_update_of_name?_eq_none named _ _).symm
      | some name =>
          cases isSet : rendering? site with
          | none => rfl
          | some earlier =>
              have kept :
                  update rendering? site ((some earlier).or (some text)) =
                    rendering? := by
                rw [Option.some_or, ← isSet, Function.update_eq_self]
              rw [kept]
              rfl

/-- Any number of settings, of which the first one counts for each site. -/
theorem setAll_rendered (settings : List Setting) :
    (tree.rendered rendering?).setAll settings =
      tree.rendered fun site =>
        (rendering? site).or (Setting.first? settings site) := by
  unfold setAll
  induction settings generalizing rendering? with
  | nil =>
      simp only [List.foldl_nil, Setting.first?, List.find?_nil,
        Option.map_none, Option.or_none]
  | cons setting rest ih =>
      rw [List.foldl_cons, set_rendered, ih]
      congr 1
      funext site
      by_cases isSite : site = setting.site
      · subst isSite
        rw [Function.update_self]
        cases rendering? setting.site <;> simp [Setting.first?]
      · have isOther : (setting.site == site) = false :=
          beq_eq_false_iff_ne.mpr fun same => isSite same.symm
        rw [Function.update_of_ne isSite, Setting.first?, Setting.first?,
          List.find?_cons, isOther]

theorem setAll_eq {tree : Tree} (unset : tree.rendered (fun _ => none) = tree)
    (settings : List Setting) :
    tree.setAll settings = tree.rendered (Setting.first? settings) := by
  have renders := tree.setAll_rendered (fun _ => none) settings
  simp only [unset, Option.none_or] at renders
  exact renders

variable {site : Site} {text : String}

theorem name?_rendered_update (user : site.home = .user) (other : Site) :
    (tree.rendered (update rendering? site (some text))).name? other =
      if other = site then
        ((tree.rendered rendering?).name? other).map
          (Name.rendered (some text))
      else
        (tree.rendered rendering?).name? other := by
  by_cases isSite : other = site
  · subst isSite
    rw [if_pos rfl, name?_rendered _ tree user, name?_rendered _ tree user,
      Function.update_self, Option.map_map]
    rfl
  · rw [if_neg isSite]
    cases homed : other.home with
    | builtin => exact name?_of_home_builtin homed _ _
    | user =>
        rw [name?_rendered _ tree homed, name?_rendered _ tree homed,
          Function.update_of_ne isSite]

theorem typeRendering_eq (tree : Tree) (field : Resolved.Field) :
    tree.typeRendering field =
      ((tree.name? (.definition field.type)).map Name.rendering).getD
        Resolved.Builtin.unresolvedName := by
  simp only [typeRendering, typeOf?, name?, node?]
  cases tree.definition? field.type <;> rfl

theorem typeRendering_rendered_update (user : site.home = .user)
    (named : tree.name? site ≠ none) (field : Resolved.Field) :
    (tree.rendered (update rendering? site (some text))).typeRendering field =
      if .definition field.type = site then
        text
      else
        (tree.rendered rendering?).typeRendering field := by
  rw [typeRendering_eq, name?_rendered_update tree rendering? user]
  by_cases isSite : .definition field.type = site
  · rw [if_pos isSite, if_pos isSite, isSite, name?_rendered _ tree user]
    obtain ⟨name, isName⟩ := Option.ne_none_iff_exists'.mp named
    rw [isName]
    rfl
  · rw [if_neg isSite, if_neg isSite, typeRendering_eq]

/-- Setting succeeds on the names of the compiled module that have no rendering,
and then renders one site. -/
theorem render?_rendered_eq_ok_iff (after : Tree) :
    (tree.rendered rendering?).render? site text = some (.ok after) ↔
      site.home = .user ∧ tree.name? site ≠ none ∧ rendering? site = none ∧
        after = tree.rendered (update rendering? site (some text)) := by
  cases homed : site.home with
  | builtin =>
      rw [render?_of_home_builtin _ homed]
      cases (tree.rendered rendering?).name? site <;> simp
  | user =>
      rw [render?_rendered tree rendering? homed]
      cases tree.name? site <;> cases rendering? site <;> simp [eq_comm]

end Tree

end Asdl
