/-
The trees that the grammar asks for, and what reading keeps of them.

A tree is well formed when its names are words, its lists are as long as the
grammar wants them, and no definition called `attributes` stands where the
clause of the definition in front of it could begin.  Every state that can be
reached from a source holds well-formed parts only, so every tree read from a
source is well formed.
-/

import Mathlib.Data.List.Chain
import Mathlib.Data.Option.Basic
import Asdl.Proofs.Concrete.Erasure
import Asdl.Proofs.Token.Spelling

namespace Asdl

/-- The word that the token spells, if any, is a word and is read as the same
token again. -/
structure Token.IsLexed (token : Token) : Prop where
  canonical : token.IsCanonical
  spellsWord : token.SpellsWord

theorem isLexed_of_tokenize {source : String} {tokenization : Tokenization}
    (tokenized : tokenize source = .ok tokenization) :
    ∀ lexeme ∈ tokenization.lexemes, lexeme.token.IsLexed := by
  intro lexeme member
  exact
    { canonical := Cursor.isCanonical_of_tokenize tokenized lexeme member
      spellsWord := spellsWord_of_tokenize tokenized lexeme member }

namespace Concrete

structure Field.WellFormed (field : Field) : Prop where
  typeId : isWord field.typeId.name = true
  id : ∀ id ∈ field.id?, isWord id.name = true

structure FieldList.WellFormed (list : FieldList) : Prop where
  nonempty : list.fields ≠ []
  fields : ∀ field ∈ list.fields, field.WellFormed

structure Constructor.WellFormed (constructor : Constructor) : Prop where
  id : isWord constructor.id.name = true
  fields : ∀ fields ∈ constructor.fields?, fields.WellFormed

def Body.WellFormed : Body → Prop
  | product fields => fields.WellFormed
  | sum constructors =>
      constructors ≠ [] ∧
        ∀ constructor ∈ constructors, constructor.WellFormed

structure Definition.WellFormed (definition : Definition) : Prop where
  typeId : isWord definition.typeId.name = true
  body : definition.body.WellFormed
  attributes :
    ∀ attributes ∈ definition.attributes?, attributes.fields.WellFormed

/-- The name of the later definition cannot be taken for the beginning of a
clause of the earlier one. -/
def Definition.Apart (earlier later : Definition) : Prop :=
  earlier.attributes? = none → later.typeId.name ≠ "attributes"

instance (earlier later : Definition) : Decidable (earlier.Apart later) :=
  inferInstanceAs (Decidable (_ → _))

/-- No definition called `attributes` directly follows a definition without a
clause. -/
def Module.Separated (module : Module) : Prop :=
  module.definitions.IsChain Definition.Apart

instance (module : Module) : Decidable module.Separated :=
  inferInstanceAs (Decidable (List.IsChain _ _))

structure Module.WellFormed (module : Module) : Prop where
  id : isWord module.id.name = true
  definitions : ∀ definition ∈ module.definitions, definition.WellFormed
  separated : module.Separated

theorem Field.wellFormed_eraseSpans (field : Field) :
    field.eraseSpans.WellFormed ↔ field.WellFormed := by
  have sameId :
      (∀ id ∈ field.eraseSpans.id?, isWord id.name = true) ↔
        ∀ id ∈ field.id?, isWord id.name = true := by
    simp only [eraseSpans, Option.forall_mem_map, Identifier.eraseSpans]
  constructor
  · intro wellFormed
    exact ⟨wellFormed.typeId, sameId.mp wellFormed.id⟩
  · intro wellFormed
    exact ⟨wellFormed.typeId, sameId.mpr wellFormed.id⟩

theorem FieldList.wellFormed_eraseSpans (list : FieldList) :
    list.eraseSpans.WellFormed ↔ list.WellFormed := by
  have sameFields :
      (∀ field ∈ list.eraseSpans.fields, field.WellFormed) ↔
        ∀ field ∈ list.fields, field.WellFormed := by
    simp only [eraseSpans, List.forall_mem_map, Field.wellFormed_eraseSpans]
  constructor
  · intro wellFormed
    refine ⟨?_, sameFields.mp wellFormed.fields⟩
    intro empty
    exact wellFormed.nonempty (List.map_eq_nil_iff.mpr empty)
  · intro wellFormed
    refine ⟨?_, sameFields.mpr wellFormed.fields⟩
    intro empty
    exact wellFormed.nonempty (List.map_eq_nil_iff.mp empty)

theorem Constructor.wellFormed_eraseSpans (constructor : Constructor) :
    constructor.eraseSpans.WellFormed ↔ constructor.WellFormed := by
  have sameFields :
      (∀ fields ∈ constructor.eraseSpans.fields?, fields.WellFormed) ↔
        ∀ fields ∈ constructor.fields?, fields.WellFormed := by
    simp only [eraseSpans, Option.forall_mem_map,
      FieldList.wellFormed_eraseSpans]
  exact
    ⟨fun wellFormed => ⟨wellFormed.id, sameFields.mp wellFormed.fields⟩,
      fun wellFormed => ⟨wellFormed.id, sameFields.mpr wellFormed.fields⟩⟩

theorem Body.wellFormed_eraseSpans (body : Body) :
    body.eraseSpans.WellFormed ↔ body.WellFormed := by
  cases body with
  | product fields => exact FieldList.wellFormed_eraseSpans fields
  | sum constructors =>
      simp only [eraseSpans, WellFormed, List.forall_mem_map, ne_eq,
        List.map_eq_nil_iff, Constructor.wellFormed_eraseSpans]

theorem Definition.wellFormed_eraseSpans (definition : Definition) :
    definition.eraseSpans.WellFormed ↔ definition.WellFormed := by
  have sameBody := Body.wellFormed_eraseSpans definition.body
  have sameAttributes :
      (∀ attributes ∈ definition.eraseSpans.attributes?,
          attributes.fields.WellFormed) ↔
        ∀ attributes ∈ definition.attributes?,
          attributes.fields.WellFormed := by
    simp only [eraseSpans, Option.forall_mem_map, Attributes.eraseSpans,
      FieldList.wellFormed_eraseSpans]
  constructor
  · intro wellFormed
    exact ⟨wellFormed.typeId, sameBody.mp wellFormed.body,
      sameAttributes.mp wellFormed.attributes⟩
  · intro wellFormed
    exact ⟨wellFormed.typeId, sameBody.mpr wellFormed.body,
      sameAttributes.mpr wellFormed.attributes⟩

private theorem Module.separated_eraseSpans (module : Module) :
    module.eraseSpans.Separated ↔ module.Separated := by
  have sameApart (earlier later : Definition) :
      earlier.eraseSpans.Apart later.eraseSpans ↔ earlier.Apart later := by
    simp only [Definition.Apart, Definition.eraseSpans, Option.map_eq_none_iff,
      Identifier.eraseSpans]
  simp only [Separated, eraseSpans, List.isChain_map, sameApart]

theorem Module.wellFormed_eraseSpans (module : Module) :
    module.eraseSpans.WellFormed ↔ module.WellFormed := by
  have sameDefinitions :
      (∀ definition ∈ module.eraseSpans.definitions, definition.WellFormed) ↔
        ∀ definition ∈ module.definitions, definition.WellFormed := by
    simp only [eraseSpans, List.forall_mem_map,
      Definition.wellFormed_eraseSpans]
  have sameSeparated := Module.separated_eraseSpans module
  constructor
  · intro wellFormed
    exact ⟨wellFormed.id, sameDefinitions.mp wellFormed.definitions,
      sameSeparated.mp wellFormed.separated⟩
  · intro wellFormed
    exact ⟨wellFormed.id, sameDefinitions.mpr wellFormed.definitions,
      sameSeparated.mpr wellFormed.separated⟩

structure Opening.WellFormed (opening : Opening) : Prop where
  id : isWord opening.id.name = true
  definitions : ∀ definition ∈ opening.definitions, definition.WellFormed
  separated : opening.definitions.IsChain Definition.Apart

structure Opening.Admits (opening : Opening) (typeId : Identifier) : Prop where
  word : isWord typeId.name = true
  apart :
    ∀ last ∈ opening.definitions.getLast?,
      last.attributes? = none → typeId.name ≠ "attributes"

def FieldStage.WellFormed : FieldStage → Prop
  | start => True
  | typed typeId => isWord typeId.name = true
  | marked typeId _ => isWord typeId.name = true
  | named typeId _ id => isWord typeId.name = true ∧ isWord id.name = true

def Owner.WellFormed (opening : Opening) : Owner → Prop
  | product typeId => opening.Admits typeId
  | constructor typeId earlier id =>
      opening.Admits typeId ∧
        (∀ constructor ∈ earlier, constructor.WellFormed) ∧
        isWord id.name = true
  | attributes typeId body _ => opening.Admits typeId ∧ body.WellFormed

/-- What is read so far can be completed to a well-formed tree.  Between two
definitions the earlier one, if any, has its clause. -/
def State.WellFormed : State → Prop
  | start => True
  | moduleId _ => True
  | moduleBrace _ id => isWord id.name = true
  | between opening =>
      opening.WellFormed ∧
        ∀ last ∈ opening.definitions.getLast?, last.attributes? ≠ none
  | equals opening typeId => opening.WellFormed ∧ opening.Admits typeId
  | body opening typeId => opening.WellFormed ∧ opening.Admits typeId
  | alternative opening typeId earlier =>
      opening.WellFormed ∧ opening.Admits typeId ∧
        ∀ constructor ∈ earlier, constructor.WellFormed
  | constructorId opening typeId earlier id =>
      opening.WellFormed ∧ opening.Admits typeId ∧
        (∀ constructor ∈ earlier, constructor.WellFormed) ∧
        isWord id.name = true
  | afterConstructor opening typeId earlier last =>
      opening.WellFormed ∧ opening.Admits typeId ∧
        (∀ constructor ∈ earlier, constructor.WellFormed) ∧ last.WellFormed
  | afterProduct opening typeId members =>
      opening.WellFormed ∧ opening.Admits typeId ∧ members.WellFormed
  | attributesList opening typeId whole _ =>
      opening.WellFormed ∧ opening.Admits typeId ∧ whole.WellFormed
  | fields opening owner _ earlier stage =>
      opening.WellFormed ∧ owner.WellFormed opening ∧
        (∀ field ∈ earlier, field.WellFormed) ∧ stage.WellFormed
  | closed module => module.WellFormed

/-! ### A move keeps its parts well formed -/

variable {lexeme : Lexeme}

theorem forall_mem_concat {α : Type} {Holds : α → Prop} {items : List α}
    {last : α} (earlier : ∀ item ∈ items, Holds item) (whole : Holds last) :
    ∀ item ∈ items ++ [last], Holds item :=
  List.forall_mem_append.mpr ⟨earlier, List.forall_mem_singleton.mpr whole⟩

theorem Identifier.isWord_of_ofLexeme? {id : Identifier}
    (lexed : lexeme.token.IsLexed)
    (named : Identifier.ofLexeme? lexeme = some id) :
    isWord id.name = true := by
  obtain ⟨name, spelled, rfl⟩ := Option.map_eq_some_iff.mp named
  exact lexed.spellsWord name spelled

private theorem Identifier.name_ne_attributes_of_ofLexeme? {id : Identifier}
    (lexed : lexeme.token.IsLexed)
    (named : Identifier.ofLexeme? lexeme = some id)
    (notKeyword : lexeme.token ≠ .attributesKeyword) :
    id.name ≠ "attributes" := by
  intro isAttributes
  have sameToken := Identifier.token_of_ofLexeme? lexed.canonical named
  rw [Identifier.token, isAttributes] at sameToken
  exact notKeyword sameToken.symm

theorem Opening.WellFormed.add {opening : Opening} {definition : Definition}
    (wellFormed : opening.WellFormed)
    (admits : opening.Admits definition.typeId)
    (whole : definition.WellFormed) : (opening.add definition).WellFormed := by
  refine
    { id := wellFormed.id
      definitions := forall_mem_concat wellFormed.definitions whole
      separated := ?_ }
  refine List.isChain_append.mpr ⟨wellFormed.separated, .singleton _, ?_⟩
  intro last isLast next isNext
  cases isNext
  exact admits.apart last isLast

theorem Opening.wellFormed_of_next? {opening : Opening} {after : State}
    (lexed : lexeme.token.IsLexed) (wellFormed : opening.WellFormed)
    (settled :
      ∀ last ∈ opening.definitions.getLast?,
        last.attributes? = none → lexeme.token ≠ .attributesKeyword)
    (moved : opening.next? lexeme = some after) : after.WellFormed := by
  unfold next? at moved
  split at moved
  · cases moved
    exact
      { id := wellFormed.id
        definitions := wellFormed.definitions
        separated := wellFormed.separated }
  · obtain ⟨typeId, named, rfl⟩ := Option.map_eq_some_iff.mp moved
    refine ⟨wellFormed, Identifier.isWord_of_ofLexeme? lexed named, ?_⟩
    intro last isLast bare
    exact Identifier.name_ne_attributes_of_ofLexeme? lexed named
      (settled last isLast bare)

theorem Body.wellFormed_of_next? {opening : Opening} {typeId : Identifier}
    {body : Body} {after : State} (lexed : lexeme.token.IsLexed)
    (wellFormed : opening.WellFormed) (admits : opening.Admits typeId)
    (whole : body.WellFormed)
    (moved : Body.next? opening typeId body lexeme = some after) :
    after.WellFormed := by
  unfold next? at moved
  split at moved
  · cases moved
    exact ⟨wellFormed, admits, whole⟩
  · rename_i notKeyword
    have bareDefinition : (Definition.ofParts typeId body none).WellFormed :=
      { typeId := admits.word
        body := whole
        attributes := by
          intro attributes absent
          cases absent }
    apply Opening.wellFormed_of_next? lexed
      (wellFormed.add admits bareDefinition) _ moved
    -- The keyword would have begun a clause, so it cannot name what follows.
    intro last isLast bare
    exact notKeyword

theorem Constructor.wellFormed_of_next? {opening : Opening}
    {typeId : Identifier} {earlier : List Constructor} {last : Constructor}
    {after : State} (lexed : lexeme.token.IsLexed)
    (wellFormed : opening.WellFormed) (admits : opening.Admits typeId)
    (earlierWhole : ∀ constructor ∈ earlier, constructor.WellFormed)
    (lastWhole : last.WellFormed)
    (moved :
      Constructor.next? opening typeId earlier last lexeme = some after) :
    after.WellFormed := by
  have allWhole := forall_mem_concat earlierWhole lastWhole
  unfold next? at moved
  split at moved
  · cases moved
    exact ⟨wellFormed, admits, allWhole⟩
  · have sumWhole : (Body.sum (earlier ++ [last])).WellFormed :=
      ⟨List.concat_ne_nil _ _, allWhole⟩
    exact Body.wellFormed_of_next? lexed wellFormed admits sumWhole moved

theorem FieldStage.wellFormed_of_next? {stage after : FieldStage}
    (lexed : lexeme.token.IsLexed) (wellFormed : stage.WellFormed)
    (moved : stage.next? lexeme = some after) : after.WellFormed := by
  cases stage with
  | start =>
      obtain ⟨typeId, named, rfl⟩ := Option.map_eq_some_iff.mp moved
      exact Identifier.isWord_of_ofLexeme? lexed named
  | typed typeId =>
      simp only [next?] at moved
      split at moved
      · cases moved
        exact wellFormed
      · obtain ⟨id, named, rfl⟩ := Option.map_eq_some_iff.mp moved
        exact ⟨wellFormed, Identifier.isWord_of_ofLexeme? lexed named⟩
  | marked typeId marker =>
      obtain ⟨id, named, rfl⟩ := Option.map_eq_some_iff.mp moved
      exact ⟨wellFormed, Identifier.isWord_of_ofLexeme? lexed named⟩
  | named typeId marker? id =>
      cases moved

theorem FieldStage.wellFormed_of_field? {stage : FieldStage} {field : Field}
    (wellFormed : stage.WellFormed) (whole : stage.field? = some field) :
    field.WellFormed := by
  cases stage with
  | start =>
      cases whole
  | typed typeId =>
      cases whole
      exact
        { typeId := wellFormed
          id := by
            intro id absent
            cases absent }
  | marked typeId marker =>
      cases whole
      exact
        { typeId := wellFormed
          id := by
            intro id absent
            cases absent }
  | named typeId marker? id =>
      cases whole
      exact
        { typeId := wellFormed.1
          id := by
            intro other present
            cases present
            exact wellFormed.2 }

private theorem Owner.wellFormed_close {opening : Opening} {owner : Owner}
    {list : FieldList} (wellFormed : opening.WellFormed)
    (ownerWhole : owner.WellFormed opening) (listWhole : list.WellFormed) :
    (owner.close opening list).WellFormed := by
  cases owner with
  | product typeId =>
      exact ⟨wellFormed, ownerWhole, listWhole⟩
  | constructor typeId earlier id =>
      obtain ⟨admits, earlierWhole, word⟩ := ownerWhole
      refine ⟨wellFormed, admits, earlierWhole, word, ?_⟩
      intro fields present
      cases present
      exact listWhole
  | attributes typeId body keyword =>
      obtain ⟨admits, bodyWhole⟩ := ownerWhole
      constructor
      · apply wellFormed.add admits
        refine
          { typeId := admits.word
            body := bodyWhole
            attributes := ?_ }
        intro attributes present
        cases present
        exact listWhole
      · intro last isLast
        simp only [Opening.add, List.getLast?_append, List.getLast?_singleton,
          Option.some_or, Option.mem_some_iff] at isLast
        rw [← isLast]
        exact Option.some_ne_none _

theorem Owner.wellFormed_of_next? {opening : Opening} {owner : Owner}
    {bracket : Span} {earlier : List Field} {stage : FieldStage}
    {after : State} (lexed : lexeme.token.IsLexed)
    (wellFormed :
      (State.fields opening owner bracket earlier stage).WellFormed)
    (moved :
      owner.next? opening bracket earlier stage lexeme = some after) :
    after.WellFormed := by
  obtain ⟨openingWhole, ownerWhole, earlierWhole, stageWhole⟩ := wellFormed
  unfold next? at moved
  split at moved
  · rename_i longer isLonger
    cases moved
    exact ⟨openingWhole, ownerWhole, earlierWhole,
      FieldStage.wellFormed_of_next? lexed stageWhole isLonger⟩
  · split at moved
    · rename_i field isField isComma
      cases moved
      have fieldWhole := FieldStage.wellFormed_of_field? stageWhole isField
      exact ⟨openingWhole, ownerWhole,
        forall_mem_concat earlierWhole fieldWhole, trivial⟩
    · rename_i field isField isBracket
      cases moved
      have fieldWhole := FieldStage.wellFormed_of_field? stageWhole isField
      apply Owner.wellFormed_close openingWhole ownerWhole
      exact
        { nonempty := List.concat_ne_nil _ _
          fields := forall_mem_concat earlierWhole fieldWhole }
    · cases moved

/-- A move on a token from a source keeps what is read so far well formed. -/
theorem State.wellFormed_of_next? {state after : State}
    (lexed : lexeme.token.IsLexed) (wellFormed : state.WellFormed)
    (moved : state.next? lexeme = some after) : after.WellFormed := by
  cases state with
  | start =>
      simp only [next?] at moved
      split at moved
      · cases moved
        trivial
      · cases moved
  | moduleId keyword =>
      obtain ⟨id, named, rfl⟩ := Option.map_eq_some_iff.mp moved
      exact Identifier.isWord_of_ofLexeme? lexed named
  | moduleBrace keyword id =>
      simp only [next?] at moved
      split at moved
      · cases moved
        refine ⟨⟨wellFormed, ?_, .nil⟩, ?_⟩
        · intro definition absent
          cases absent
        · intro last absent
          cases absent
      · cases moved
  | between opening =>
      apply Opening.wellFormed_of_next? lexed wellFormed.1 _ moved
      intro last isLast bare
      exact absurd bare (wellFormed.2 last isLast)
  | equals opening typeId =>
      simp only [next?] at moved
      split at moved
      · cases moved
        exact wellFormed
      · cases moved
  | body opening typeId =>
      obtain ⟨openingWhole, admits⟩ := wellFormed
      have noneYet : ∀ item ∈ ([] : List Constructor), item.WellFormed := by
        intro item absent
        cases absent
      simp only [next?] at moved
      split at moved
      · cases moved
        refine ⟨openingWhole, admits, ?_, trivial⟩
        intro field absent
        cases absent
      · obtain ⟨id, named, rfl⟩ := Option.map_eq_some_iff.mp moved
        exact ⟨openingWhole, admits, noneYet,
          Identifier.isWord_of_ofLexeme? lexed named⟩
  | alternative opening typeId earlier =>
      obtain ⟨openingWhole, admits, earlierWhole⟩ := wellFormed
      obtain ⟨id, named, rfl⟩ := Option.map_eq_some_iff.mp moved
      exact ⟨openingWhole, admits, earlierWhole,
        Identifier.isWord_of_ofLexeme? lexed named⟩
  | constructorId opening typeId earlier id =>
      obtain ⟨openingWhole, admits, earlierWhole, word⟩ := wellFormed
      simp only [next?] at moved
      split at moved
      · cases moved
        refine ⟨openingWhole, ⟨admits, earlierWhole, word⟩, ?_, trivial⟩
        intro field absent
        cases absent
      · have bareConstructor : (Constructor.ofParts id none).WellFormed :=
          { id := word
            fields := by
              intro fields absent
              cases absent }
        exact Constructor.wellFormed_of_next? lexed openingWhole admits
          earlierWhole bareConstructor moved
  | afterConstructor opening typeId earlier last =>
      obtain ⟨openingWhole, admits, earlierWhole, lastWhole⟩ := wellFormed
      exact Constructor.wellFormed_of_next? lexed openingWhole admits
        earlierWhole lastWhole moved
  | afterProduct opening typeId members =>
      obtain ⟨openingWhole, admits, membersWhole⟩ := wellFormed
      have bodyWhole : (Body.product members).WellFormed := membersWhole
      exact Body.wellFormed_of_next? lexed openingWhole admits bodyWhole moved
  | attributesList opening typeId whole keyword =>
      obtain ⟨openingWhole, admits, bodyWhole⟩ := wellFormed
      simp only [next?] at moved
      split at moved
      · cases moved
        refine ⟨openingWhole, ⟨admits, bodyWhole⟩, ?_, trivial⟩
        intro field absent
        cases absent
      · cases moved
  | fields opening owner bracket earlier stage =>
      exact Owner.wellFormed_of_next? lexed wellFormed moved
  | closed module =>
      cases moved

private theorem State.wellFormed_of_read {size : Nat} {state : State}
    {lexemes : List Lexeme} {module : Module}
    (lexed : ∀ lexeme ∈ lexemes, lexeme.token.IsLexed)
    (wellFormed : state.WellFormed)
    (accepted : state.read size lexemes = .ok module) : module.WellFormed := by
  induction lexemes generalizing state with
  | nil =>
      cases state with
      | closed closedModule =>
          cases accepted
          exact wellFormed
      | _ =>
          cases accepted
  | cons first rest ih =>
      simp only [read] at accepted
      split at accepted
      · rename_i after moved
        obtain ⟨firstLexed, restLexed⟩ := List.forall_mem_cons.mp lexed
        exact ih restLexed
          (State.wellFormed_of_next? firstLexed wellFormed moved) accepted
      · cases accepted

theorem Module.wellFormed_of_parse {source : String} {module : Module}
    (parsed : Module.parse source = .ok module) : module.WellFormed := by
  unfold Module.parse at parsed
  split at parsed
  · cases parsed
  · rename_i tokenization tokenized
    have lexed := isLexed_of_tokenize tokenized
    have started : State.start.WellFormed := trivial
    exact State.wellFormed_of_read lexed started parsed

end Concrete

end Asdl
