/-
Names that are numbered in order.

The built-in types and the definitions of a module come into being alike: each
takes the next place and is then given its name.  As long as the names are
distinct the table numbers them in order, and a name that is numbered already
is refused.
-/

import Asdl.Tree

namespace Asdl

open Resolved (DefinitionId)

def Resolved.DefinitionId.user (index : Nat) : DefinitionId :=
  { module := .user
    index := index }

def Resolved.DefinitionId.builtin (index : Nat) : DefinitionId :=
  { module := .builtin
    index := index }

/-- The names in order, each defined as what its place stands for. -/
def Table.numbered {α : Type} (identify : Nat → α) (names : List String) :
    Table α :=
  { symbols :=
      names.mapIdx fun index name =>
        { name := name
          definition? := some (identify index) } }

namespace Table

variable {α : Type} (identify : Nat → α)

private theorem numbered_concat (names : List String) (name : String) :
    numbered identify (names ++ [name]) =
      (numbered identify names).push
        { name := name
          definition? := some (identify names.length) } := by
  simp [numbered, push]

theorem find?_numbered (names : List String) (name : String) :
    (numbered identify names).find? name =
      (names.idxOf? name).map fun index =>
        { name := name
          definition? := some (identify index) } := by
  induction names generalizing identify with
  | nil => rfl
  | cons first rest ih =>
      have behind := ih fun index => identify (index + 1)
      simp only [numbered, find?] at behind ⊢
      rw [List.mapIdx_cons, List.find?_cons, List.idxOf?_cons]
      by_cases isFirst : first = name
      · subst isFirst
        simp
      · have skipped : (first == name) = false :=
          beq_eq_false_iff_ne.mpr isFirst
        simp only [skipped, Bool.false_eq_true, if_false, behind,
          Option.map_map]
        rfl

private theorem define_numbered_of_not_mem {names : List String} {name : String}
    (unknown : name ∉ names) :
    (numbered identify names).define name (identify names.length) =
      .ok (numbered identify (names ++ [name])) := by
  have notFound : (numbered identify names).find? name = none := by
    rw [find?_numbered, List.idxOf?_eq_none_iff.mpr unknown, Option.map_none]
  rw [define, notFound, numbered_concat]

private theorem define_numbered_of_mem {names : List String} {name : String}
    (known : name ∈ names) (definition : α) :
    (numbered identify names).define name definition =
      .error { name := name } := by
  rw [define_eq_error_iff]
  refine ⟨rfl, ?_⟩
  obtain ⟨index, found⟩ :=
    Option.isSome_iff_exists.mp (List.isSome_idxOf?.mpr known)
  exact ⟨identify index, by rw [find?_numbered, found, Option.map_some]⟩

end Table

namespace Resolved.Module

/-- A module that was given definitions and their names in turn. -/
def numbered (id : ModuleId) (name : Name)
    (outer : List (Table DefinitionId)) (named : List (String × Definition)) :
    Module :=
  { id := id
    name := name
    scope :=
      { table := .numbered (DefinitionId.mk id) (named.map Prod.fst)
        outer := outer }
    definitions := named.map Prod.snd }

section Introduce

variable (id : ModuleId) (moduleName : Name)
  (outer : List (Table DefinitionId)) {named : List (String × Definition)}
  {name : String} (definition : Definition)

theorem introduce_numbered_of_not_mem
    (unknown : name ∉ named.map Prod.fst) :
    (numbered id moduleName outer named).introduce name definition =
      .ok
        ({ module := id
           index := named.length },
          numbered id moduleName outer (named ++ [(name, definition)])) := by
  have defined :=
    Table.define_numbered_of_not_mem (DefinitionId.mk id) unknown
  rw [List.length_map] at defined
  simp only [introduce, alloc, numbered, Scope.define, List.length_map,
    defined, Except.map, List.map_append, List.map_singleton]

theorem introduce_numbered_of_mem (known : name ∈ named.map Prod.fst) :
    (numbered id moduleName outer named).introduce name definition =
      .error { name := name } := by
  have refused :=
    Table.define_numbered_of_mem (DefinitionId.mk id) known
  simp only [introduce, alloc, numbered, Scope.define, refused, Except.map]

end Introduce

end Resolved.Module

namespace Resolved.Builtin

def registered (names : List String) : Module :=
  .numbered .builtin (.fixed "") []
    (names.map fun name => (name, definition name))

private theorem register_registered {names : List String} {name : String}
    (unknown : name ∉ names) :
    register (registered names) name = .ok (registered (names ++ [name])) := by
  have unnamed :
      name ∉ (names.map fun name => (name, definition name)).map Prod.fst := by
    rw [List.map_map, List.mem_map]
    rintro ⟨other, member, rfl⟩
    exact unknown member
  rw [register, registered,
    Module.introduce_numbered_of_not_mem _ _ _ _ unnamed]
  simp only [registered, List.map_append, List.map_singleton]

private theorem foldlM_register (earlier rest : List String)
    (distinct : (earlier ++ rest).Nodup) :
    rest.foldlM register (registered earlier) =
      .ok (registered (earlier ++ rest)) := by
  induction rest generalizing earlier with
  | nil =>
      rw [List.append_nil, List.foldlM_nil]
      rfl
  | cons name rest ih =>
      have unknown : name ∉ earlier := by
        intro member
        exact
          (List.nodup_append.mp distinct).2.2 name member name
            List.mem_cons_self rfl
      have remaining := ih (earlier ++ [name])
      rw [List.append_assoc, List.singleton_append] at remaining
      rw [List.foldlM_cons, register_registered unknown]
      exact remaining distinct

/-- What the loop over the names of the built-in types leaves. -/
theorem all_eq :
    all =
      { module :=
          { id := .builtin
            name := .fixed ""
            scope :=
              { table := .numbered .builtin names
                outer := [] }
            definitions := (names ++ [unresolvedName]).map definition }
        unresolved := .builtin names.length } := by
  have registers := foldlM_register [] names (by decide)
  have builds :
      build =
        .ok
          { module := ((registered names).alloc (definition unresolvedName)).2
            unresolved :=
              ((registered names).alloc (definition unresolvedName)).1 } := by
    rw [build]
    exact congrArg (· >>= _) registers
  simp only [all, builds, Except.toOption, Option.get_some]
  simp only [registered, Module.numbered, Module.alloc, List.map_map,
    List.length_map, List.map_append, List.map_singleton]
  rfl

theorem scope_eq :
    scope =
      { table := .numbered .builtin names
        outer := [] } := by
  rw [scope, module, all_eq]

theorem definitions_module :
    module.definitions = (names ++ [unresolvedName]).map definition := by
  rw [module, all_eq]

theorem unresolved_eq : unresolved = .builtin names.length := by
  rw [unresolved, all_eq]

end Resolved.Builtin

theorem Tree.exists_of_definition?_builtin {tree : Tree} {id : DefinitionId}
    {definition : Resolved.Definition} (builtin : id.module = .builtin)
    (found : tree.definition? id = some definition) :
    ∃ declared, definition = Resolved.Builtin.definition declared := by
  simp only [definition?, builtin, module,
    Resolved.Builtin.definitions_module] at found
  obtain ⟨declared, _, same⟩ := List.mem_map.mp (List.mem_of_getElem? found)
  exact ⟨declared, same.symm⟩

end Asdl
