/-
The ranges of a tree read from a source, and of the description it writes down.

A range marks exactly the text of its part: it begins where the first token of
the part begins and ends where the last one ends, the text between stands on
its own as the same tokens, and the children of a part divide it from left to
right.  A description has its ranges from the tree, one for one.
-/

import Asdl.Module.OfConcrete
import Asdl.Proofs.Concrete.Placement
import Mathlib.Data.List.Forall2

namespace Asdl

/-- A field stands where its tree stood. -/
def Field.KeepsRange (field : Field) (tree : Concrete.Field) : Prop :=
  field.span = tree.span

/-- Fields and the list that they come from, which may be absent. -/
inductive Field.KeepRanges : List Field → Option Concrete.FieldList → Prop
  | absent : KeepRanges [] none
  | listed {fields : List Field} {list : Concrete.FieldList}
      (each : List.Forall₂ Field.KeepsRange fields list.fields) :
      KeepRanges fields (some list)

structure Constructor.KeepsRanges (constructor : Constructor)
    (tree : Concrete.Constructor) : Prop where
  span : constructor.span = tree.span
  members : Field.KeepRanges constructor.members tree.fields?

inductive Body.KeepsRanges : Body → Concrete.Body → Prop
  | product {members : List Field} {list : Concrete.FieldList}
      (kept : Field.KeepRanges members (some list)) :
      KeepsRanges (.product members) (.product list)
  | sum {constructors : List Constructor}
      {trees : List Concrete.Constructor}
      (each : List.Forall₂ Constructor.KeepsRanges constructors trees) :
      KeepsRanges (.sum constructors) (.sum trees)

structure Definition.KeepsRanges (definition : Definition)
    (tree : Concrete.Definition) : Prop where
  span : definition.span = tree.span
  nameSpan : definition.nameSpan = tree.typeId.span
  body : definition.body.KeepsRanges tree.body
  attributes :
    Field.KeepRanges definition.attributes
      (tree.attributes?.map Concrete.Attributes.fields)

structure Module.KeepsRanges (module : Module)
    (tree : Concrete.Module) : Prop where
  span : module.span = tree.span
  definitions :
    List.Forall₂ Definition.KeepsRanges module.definitions tree.definitions

theorem forall₂_map_left {Node Tree : Type} {Keeps : Node → Tree → Prop}
    {build : Tree → Node} (kept : ∀ tree, Keeps (build tree) tree)
    (trees : List Tree) : List.Forall₂ Keeps (trees.map build) trees := by
  rw [List.forall₂_map_left_iff, List.forall₂_same]
  intro tree _
  exact kept tree

private theorem Field.keepsRange_ofConcrete (tree : Concrete.Field) :
    (Field.ofConcrete tree).KeepsRange tree :=
  rfl

theorem Field.keepRanges_listOfConcrete?
    (list? : Option Concrete.FieldList) :
    Field.KeepRanges (Field.listOfConcrete? list?) list? := by
  cases list? with
  | none => exact .absent
  | some list =>
      exact .listed (forall₂_map_left Field.keepsRange_ofConcrete list.fields)

theorem Constructor.keepsRanges_ofConcrete (tree : Concrete.Constructor) :
    (Constructor.ofConcrete tree).KeepsRanges tree :=
  { span := rfl
    members := Field.keepRanges_listOfConcrete? tree.fields? }

theorem Body.keepsRanges_ofConcrete (tree : Concrete.Body) :
    (Body.ofConcrete tree).KeepsRanges tree := by
  cases tree with
  | product list =>
      exact .product (Field.keepRanges_listOfConcrete? (some list))
  | sum trees =>
      exact .sum (forall₂_map_left Constructor.keepsRanges_ofConcrete trees)

theorem Definition.keepsRanges_ofConcrete (tree : Concrete.Definition) :
    (Definition.ofConcrete tree).KeepsRanges tree :=
  { span := rfl
    nameSpan := rfl
    body := Body.keepsRanges_ofConcrete tree.body
    attributes := Field.keepRanges_listOfConcrete? _ }

theorem Module.keepsRanges_ofConcrete (tree : Concrete.Module) :
    (Module.ofConcrete tree).KeepsRanges tree :=
  { span := rfl
    definitions :=
      forall₂_map_left Definition.keepsRanges_ofConcrete tree.definitions }

namespace Concrete

/-- Where a part stands in a source.  Of the lexemes of the source the part
takes its own, which spell it.  Its range goes from the first of them to the
last, and the text there on its own is cut into them and nothing else; for an
identifier it is the name.  The children stand in it, one behind the other. -/
structure Part.Placed (source : String) (lexemes : List Lexeme) (part : Part)
    (own : List Lexeme) : Prop where
  among : own <:+: lexemes
  spelled : own.map Lexeme.token = part.tokens
  marks : part.span.Marks own
  slice :
    ∃ text slice,
      part.span.Selects source text ∧ tokenize text = .ok slice ∧
        slice.lexemes.map (Lexeme.shift part.span.start) = own
  named :
    ∀ id, part = .identifier id → part.span.Selects source id.name
  inside :
    ∀ child ∈ part.children,
      part.span.start ≤ child.span.start ∧ child.span.stop ≤ part.span.stop
  apart :
    part.children.Pairwise fun earlier later =>
      earlier.span.stop ≤ later.span.start

variable {source : String} {tokenization : Tokenization}

theorem Part.Takes.placed {part : Part} {own : List Lexeme}
    (takes : part.Takes own) (tokenized : tokenize source = .ok tokenization)
    (ordered : Lexeme.Ordered tokenization.lexemes)
    (among : own <:+: tokenization.lexemes) :
    part.Placed source tokenization.lexemes own := by
  cases takes with
  | intro spelled marks children =>
      obtain ⟨text, slice, selects, cut, shifted, single⟩ :=
        exists_slice tokenized among marks
      have ownOrdered := ordered.of_infix among
      refine
        { among := among
          spelled := spelled
          marks := marks
          slice := ⟨text, slice, selects, cut, shifted⟩
          named := ?_
          inside := ?_
          apart := ?_ }
      · rintro id rfl
        obtain ⟨lexeme, rfl, sameToken⟩ := List.map_eq_singleton_iff.mp spelled
        have sameText : text = id.name := by
          rw [single lexeme rfl, sameToken]
          exact Token.text_ofWord id.name
        rw [← sameText]
        exact selects
      · intro child isChild
        obtain ⟨childOwn, childAmong, childTakes⟩ :=
          children.exists_of_mem child isChild
        exact marks.within childTakes.marks ownOrdered childAmong
      · exact
          children.pairwise_span (fun _ _ childTakes => childTakes.marks)
            ownOrdered

/-- Every part of a tree read from a source is placed in it, and a description
made from a tree has the ranges of the tree. -/
theorem Module.placed_of_parse {module : Module}
    (parsed : Module.parse source = .ok module) :
    (∃ tokenization,
      tokenize source = .ok tokenization ∧
        ∀ part, (Part.module module).Within part →
          ∃ own, part.Placed source tokenization.lexemes own) ∧
      ∀ tree, (Asdl.Module.ofConcrete tree).KeepsRanges tree := by
  refine ⟨?_, Module.keepsRanges_ofConcrete⟩
  obtain ⟨tokenization, tokenized, ordered, takes⟩ :=
    Module.takes_of_parse parsed
  refine ⟨tokenization, tokenized, ?_⟩
  intro part within
  obtain ⟨own, among, partTakes⟩ := within.exists_takes takes
  exact ⟨own, partTakes.placed tokenized ordered among⟩

/-- A sum with its attributes, behind a comment with a character of two
bytes. -/
def Module.accentedText : String :=
  "-- é\nmodule M \x7b a = B(int? x) | C attributes (t*) \x7d"

def Module.accented : Module :=
  let id (name : String) (start stop : Nat) : Identifier :=
    { name := name
      span := ⟨start, stop⟩ }
  let optional : Field :=
    { typeId := id "int" 23 26
      marker? := some ⟨.question, ⟨26, 27⟩⟩
      id? := some (id "x" 28 29)
      span := ⟨23, 29⟩ }
  let sequence : Field :=
    { typeId := id "t" 47 48
      marker? := some ⟨.star, ⟨48, 49⟩⟩
      id? := none
      span := ⟨47, 49⟩ }
  { id := id "M" 13 14
    definitions :=
      [{ typeId := id "a" 17 18
         body :=
           .sum
             [{ id := id "B" 21 22
                fields? := some ⟨[optional], ⟨22, 30⟩⟩
                span := ⟨21, 30⟩ },
              { id := id "C" 33 34
                fields? := none
                span := ⟨33, 34⟩ }]
         attributes? := some ⟨⟨35, 45⟩, ⟨[sequence], ⟨46, 50⟩⟩⟩
         span := ⟨17, 50⟩ }]
    span := ⟨6, 52⟩ }

theorem Module.placed_accented :
    Module.parse Module.accentedText = .ok Module.accented ∧
      ∃ tokenization own,
        tokenize Module.accentedText = .ok tokenization ∧
          (Part.keyword ⟨35, 45⟩).Placed Module.accentedText
            tokenization.lexemes own := by
  have parsed :
      Module.parse Module.accentedText = .ok Module.accented := by
    decide +kernel
  obtain ⟨⟨tokenization, tokenized, placed⟩, _⟩ :=
    Module.placed_of_parse parsed
  let definition := Module.accented.definitions.head (by decide)
  have isDefinition :
      Part.definition definition ∈ (Part.module Module.accented).children := by
    decide
  have isKeyword :
      Part.keyword ⟨35, 45⟩ ∈ (Part.definition definition).children := by
    decide
  obtain ⟨own, keywordPlaced⟩ :=
    placed _ (.child (.child .root isDefinition) isKeyword)
  exact ⟨parsed, tokenization, own, tokenized, keywordPlaced⟩

end Concrete

end Asdl
