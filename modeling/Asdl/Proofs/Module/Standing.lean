/-
Where the named parts of a description stand in its source.

A definition has the range of its name, which slices the source to the name.
The range of a constructor or a field begins with a word: the name of the
constructor, or that of the type of the field.  Definitions, and constructors of
one sum, stand one behind the other.
-/

import Asdl.Proofs.Module.Ranges
import Asdl.Proofs.Resolution.Reports

namespace Asdl

/-- The text at the range begins with the name, and cut on its own it begins
with the name as a token. -/
def Span.OpensWith (span : Span) (source name : String) : Prop :=
  ∃ rest slice others,
    span.Selects source (name ++ rest) ∧
      tokenize (name ++ rest) = .ok slice ∧
      slice.lexemes = ⟨.ofWord name, ⟨0, name.utf8ByteSize⟩⟩ :: others

theorem Span.OpensWith.exists_selects {span : Span} {source name : String}
    (opens : span.OpensWith source name) :
    ∃ text, span.Selects source text := by
  obtain ⟨rest, _, _, selects, _⟩ := opens
  exact ⟨name ++ rest, selects⟩

/-- A text without layout in front of its first token begins with the token. -/
theorem exists_append_of_tokenize {text : String} {slice : Tokenization}
    (tokenized : tokenize text = .ok slice) {first : Lexeme}
    {others : List Lexeme} (isFirst : slice.lexemes = first :: others)
    (atStart : first.span.start = 0) :
    ∃ rest, text = first.token.text ++ rest ∧
      first.span.stop = first.token.text.utf8ByteSize := by
  obtain ⟨decomposes, _⟩ := (Cursor.tokenize_eq_ok_iff _ _).mp tokenized
  rw [isFirst] at decomposes
  cases decomposes with
  | @lexeme _ later _ _ meets behind =>
      obtain ⟨gap, split, _, _, _, starts, stops, _⟩ := meets
      simp only [Cursor.ofSource, Nat.zero_add] at split starts
      have noGap : gap = [] := (byteSize_eq_zero_iff gap).mp (by omega)
      refine ⟨String.ofList later.rest, ?_, ?_⟩
      · rw [← String.toList_inj, split, noGap]
        simp
      · rw [stops, atStart, Nat.zero_add, byteSize_toList]

namespace Concrete

theorem Part.Placed.opensWith {source : String}
    {lexemes own : List Lexeme} {part : Part}
    (placed : part.Placed source lexemes own) {name : String}
    (opens : part.tokens.head? = some (.ofWord name)) :
    part.span.OpensWith source name := by
  obtain ⟨first, last, isFirst, _, starts, _⟩ := placed.marks
  obtain ⟨text, slice, selects, cut, shifted⟩ := placed.slice
  rw [← placed.spelled, List.head?_map, isFirst, Option.map_some,
    Option.some.injEq] at opens
  rw [← shifted, List.head?_map, Option.map_eq_some_iff] at isFirst
  obtain ⟨own, isOwn, rfl⟩ := isFirst
  obtain ⟨others, isCons⟩ := List.head?_eq_some_iff.mp isOwn
  have atStart : own.span.start = 0 := by
    simp only [Lexeme.shift] at starts
    omega
  obtain ⟨rest, rfl, stops⟩ := exists_append_of_tokenize cut isCons atStart
  have sameToken : own.token = .ofWord name := opens
  obtain ⟨token, start, stop⟩ := own
  simp only at sameToken atStart stops
  subst sameToken atStart stops
  rw [Token.text_ofWord] at selects cut isCons
  exact ⟨rest, slice, others, selects, cut, isCons⟩

theorem Part.Within.trans {root middle part : Part}
    (outer : root.Within middle) (inner : middle.Within part) :
    root.Within part := by
  induction inner with
  | root => exact outer
  | child inside isChild ih => exact .child ih isChild

end Concrete

open Concrete (Part)

theorem Field.exists_within_of_mem_listOfConcrete? {root : Part}
    {list? : Option Concrete.FieldList} {field : Field}
    (inside : ∀ list, list? = some list → root.Within (.fields list))
    (listed : field ∈ Field.listOfConcrete? list?) :
    ∃ tree, Field.ofConcrete tree = field ∧ root.Within (.field tree) := by
  cases list? with
  | none => cases listed
  | some list =>
      obtain ⟨tree, member, same⟩ := List.mem_map.mp listed
      exact ⟨tree, same, .child (inside list rfl) (List.mem_map_of_mem member)⟩

private theorem Constructor.exists_within_of_mem_members {root : Part}
    {constructor : Concrete.Constructor} {field : Field}
    (inside : root.Within (.constructor constructor))
    (member : field ∈ (Constructor.ofConcrete constructor).members) :
    ∃ tree, Field.ofConcrete tree = field ∧ root.Within (.field tree) := by
  refine Field.exists_within_of_mem_listOfConcrete? ?_ member
  intro list isList
  apply Part.Within.child inside
  simp [Part.children, isList]

private theorem Definition.exists_within_of_mem_fields
    {tree : Concrete.Definition}
    {field : Field} (member : field ∈ (Definition.ofConcrete tree).fields) :
    ∃ fieldTree, Field.ofConcrete fieldTree = field ∧
      (Part.definition tree).Within (.field fieldTree) := by
  obtain ⟨typeId, body, attributes?, span⟩ := tree
  rcases List.mem_append.mp member with isAttribute | isMember
  · refine Field.exists_within_of_mem_listOfConcrete? ?_ isAttribute
    intro list isList
    obtain ⟨attributes, isClause, rfl⟩ := Option.map_eq_some_iff.mp isList
    apply Part.Within.child .root
    simp only at isClause
    simp [Part.children, isClause, Concrete.Attributes.parts]
  · cases body with
    | product list =>
        have listed : field ∈ Field.listOfConcrete? (some list) := isMember
        refine Field.exists_within_of_mem_listOfConcrete? ?_ listed
        rintro _ ⟨⟩
        exact .child .root (by simp [Part.children, Concrete.Body.parts])
    | sum constructors =>
        obtain ⟨_, listed, inMembers⟩ := List.mem_flatMap.mp isMember
        obtain ⟨constructor, isConstructor, rfl⟩ := List.mem_map.mp listed
        refine Constructor.exists_within_of_mem_members ?_ inMembers
        apply Part.Within.child .root
        simp [Part.children, Concrete.Body.parts, isConstructor]

private theorem Definition.exists_constructors (tree : Concrete.Definition) :
    ∃ trees : List Concrete.Constructor,
      (Definition.ofConcrete tree).body.constructors =
          trees.map Constructor.ofConcrete ∧
        (trees.map Part.constructor).Sublist
          (Part.definition tree).children := by
  obtain ⟨typeId, body, attributes?, span⟩ := tree
  cases body with
  | product list => exact ⟨[], rfl, List.nil_sublist _⟩
  | sum trees =>
      refine ⟨trees, rfl, .cons _ ?_⟩
      exact List.sublist_append_left _ _

structure Definition.Stands (source : String) (definition : Definition) :
    Prop where
  named : definition.nameSpan.Selects source definition.name
  inside :
    definition.span.start ≤ definition.nameSpan.start ∧
      definition.nameSpan.stop ≤ definition.span.stop
  fields :
    ∀ field ∈ definition.fields, field.span.OpensWith source field.typeName
  constructors :
    ∀ constructor ∈ definition.body.constructors,
      constructor.span.OpensWith source constructor.name
  apart :
    definition.body.constructors.Pairwise fun earlier later =>
      earlier.span.stop ≤ later.span.start

structure Module.Stands (source : String) (module : Module) : Prop where
  definitions :
    ∀ definition ∈ module.definitions, definition.Stands source
  apart :
    module.definitions.Pairwise fun earlier later =>
      earlier.span.stop ≤ later.span.start

private theorem Definition.stands_ofConcrete {source : String}
    {lexemes : List Lexeme} {tree : Concrete.Definition}
    (placed :
      ∀ part, (Part.definition tree).Within part →
        ∃ own, part.Placed source lexemes own) :
    (Definition.ofConcrete tree).Stands source := by
  obtain ⟨own, treePlaced⟩ := placed _ .root
  have isName :
      Part.identifier tree.typeId ∈ (Part.definition tree).children :=
    List.mem_cons_self
  obtain ⟨_, namePlaced⟩ := placed _ (.child .root isName)
  obtain ⟨trees, sameConstructors, amongChildren⟩ :=
    exists_constructors tree
  refine
    { named := namePlaced.named tree.typeId rfl
      inside := treePlaced.inside _ isName
      fields := ?_
      constructors := ?_
      apart := ?_ }
  · intro field member
    obtain ⟨fieldTree, rfl, within⟩ := exists_within_of_mem_fields member
    obtain ⟨_, fieldPlaced⟩ := placed _ within
    exact fieldPlaced.opensWith rfl
  · intro constructor member
    rw [sameConstructors, List.mem_map] at member
    obtain ⟨constructorTree, isTree, rfl⟩ := member
    have isChild := amongChildren.subset (List.mem_map_of_mem isTree)
    obtain ⟨_, constructorPlaced⟩ := placed _ (.child .root isChild)
    exact constructorPlaced.opensWith rfl
  · rw [sameConstructors, List.pairwise_map]
    exact List.pairwise_map.mp (treePlaced.apart.sublist amongChildren)

theorem Module.stands_of_parse {source : String} {module : Module}
    (parsed : Module.parse source = .ok module) : module.Stands source := by
  rw [Module.parse] at parsed
  cases read : Concrete.Module.parse source with
  | error error =>
      rw [read] at parsed
      cases parsed
  | ok tree =>
      rw [read] at parsed
      cases parsed
      obtain ⟨tokenization, tokenized, ordered, takes⟩ :=
        Concrete.Module.takes_of_parse read
      have placed (part : Part) (within : (Part.module tree).Within part) :
          ∃ own, part.Placed source tokenization.lexemes own := by
        obtain ⟨own, among, partTakes⟩ := within.exists_takes takes
        exact ⟨own, partTakes.placed tokenized ordered among⟩
      refine
        { definitions := ?_
          apart := ?_ }
      · intro definition member
        obtain ⟨definitionTree, isTree, rfl⟩ := List.mem_map.mp member
        have inModule :
            (Part.module tree).Within (.definition definitionTree) :=
          .child .root (List.mem_cons_of_mem _ (List.mem_map_of_mem isTree))
        apply Definition.stands_ofConcrete
        intro part within
        exact placed part (inModule.trans within)
      · obtain ⟨_, modulePlaced⟩ := placed _ .root
        have apart := (List.pairwise_cons.mp modulePlaced.apart).2
        exact List.pairwise_map.mpr (List.pairwise_map.mp apart)

end Asdl
