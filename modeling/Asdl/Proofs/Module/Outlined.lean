/-
The outline of a description determines the description.

A line shows one part, and names are words, so each line can be read off by
itself.  Which lines belong to a part is shown by what comes behind them: a line
that is less deep, or one that is as deep and begins with another mark.  Lists
may be empty here, so a heading may have nothing below it.
-/

import Asdl.Module.Outline
import Asdl.Proofs.Module.Printable
import Asdl.Proofs.Text.Legible

namespace Asdl

open Cursor (EndsWord)

def indent (depth : Nat) : List Char :=
  (String.join (List.replicate depth "  ")).toList

theorem indent_succ (depth : Nat) :
    indent (depth + 1) = indent depth ++ [' ', ' '] := by
  simp [indent, List.replicate_succ']

theorem toList_outlineLine_append (depth : Nat) (text : String)
    (rest : List Char) :
    (outlineLine depth text).toList ++ rest =
      indent depth ++ (text.toList ++ '\n' :: rest) := by
  simp [outlineLine, indent]

/-- The text goes on with a line at the depth that begins with one of the
marks. -/
def LineAt (depth : Nat) (marks text : List Char) : Prop :=
  ∃ line, text = indent depth ++ line ∧ BeginsWith marks line

/-- The text is at its end, goes on with a line that is less deep, or goes on at
the depth with one of the marks. -/
def Resumes (depth : Nat) (marks text : List Char) : Prop :=
  ¬ indent depth <+: text ∨ LineAt depth marks text

theorem LineAt.resumes {depth : Nat} {marks text : List Char}
    (line : LineAt depth marks text) : Resumes depth marks text :=
  .inr line

theorem LineAt.ne_of_resumes {depth : Nat} {marks others text rest : List Char}
    (line : LineAt depth marks text) (resumes : Resumes depth others rest)
    (disjoint : marks.any others.contains = false) : text ≠ rest := by
  rintro rfl
  obtain ⟨own, rfl, begins⟩ := line
  rcases resumes with shallower | ⟨other, same, otherBegins⟩
  · exact shallower (List.prefix_append _ _)
  · exact begins.ne otherBegins disjoint (List.append_cancel_left same)

namespace Resumes

variable {depth : Nat} {marks others text : List Char}

theorem mono (resumes : Resumes depth marks text)
    (further : marks.all others.contains = true) :
    Resumes depth others text := by
  refine resumes.imp_right ?_
  rintro ⟨line, split, begins⟩
  exact ⟨line, split, begins.mono further⟩

/-- What goes on at a depth does not go on any deeper. -/
theorem deeper (resumes : Resumes depth marks text)
    (noBlank : marks.contains ' ' = false) :
    Resumes (depth + 1) others text := by
  left
  rw [indent_succ]
  intro deep
  rcases resumes with shallower | ⟨line, rfl, begins⟩
  · exact shallower ((List.prefix_append _ _).trans deep)
  · obtain ⟨rest, rfl⟩ := (List.prefix_append_right_inj _).mp deep
    have blank : BeginsWith [' '] ([' ', ' '] ++ rest) :=
      .cons _ (List.mem_singleton_self ' ')
    exact blank.ne begins (by simpa using noBlank) rfl

theorem nil (depth : Nat) (marks : List Char) :
    Resumes (depth + 1) marks [] := by
  left
  rw [indent_succ]
  simp

end Resumes

namespace Field

def typed (field : Field) : String :=
  field.typeName ++ field.cardinality.marker

theorem toList_typed_append (field : Field) (rest : List Char) :
    field.typed.toList ++ rest =
      field.typeName.toList ++ (field.cardinality.marker.toList ++ rest) := by
  rw [typed, String.toList_append, List.append_assoc]

theorem begins_behind_name (rest : List Char) :
    BeginsWith [':'] (": ".toList ++ rest) :=
  .cons _ (by decide)

theorem begins_behind_typeName (cardinality : Cardinality) {rest : List Char}
    (lineEnds : BeginsWith ['\n'] rest) :
    BeginsWith ['?', '*', '\n'] (cardinality.marker.toList ++ rest) := by
  apply (cardinality.begins_marker lineEnds).mono
  cases cardinality <;> decide

theorem legible_typed :
    Legible Printable (BeginsWith ['\n']) typed fun field =>
      (field.typeName, field.cardinality) := by
  intro left right leftRest rightRest leftPrintable rightPrintable leftEnds
    rightEnds same
  rw [toList_typed_append, toList_typed_append] at same
  obtain ⟨sameType, behind⟩ :=
    isWord_append_inj leftPrintable.typeName rightPrintable.typeName
      ((begins_behind_typeName _ leftEnds).endsWord (by decide))
      ((begins_behind_typeName _ rightEnds).endsWord (by decide)) same
  obtain ⟨sameCardinality, sameRest⟩ :=
    Cardinality.legible_marker (by decide) left.cardinality right.cardinality
      _ _ trivial trivial leftEnds rightEnds behind
  exact ⟨Prod.ext sameType sameCardinality, sameRest⟩

def label (field : Field) : String :=
  match field.name? with
  | some name => name ++ ": " ++ field.typed
  | none => field.typed

theorem toList_label_of_none {field : Field} (unnamed : field.name? = none)
    (rest : List Char) :
    field.label.toList ++ rest = field.typed.toList ++ rest := by
  rw [label, unnamed]

theorem toList_label_of_some {field : Field} {name : String}
    (named : field.name? = some name) (rest : List Char) :
    field.label.toList ++ rest =
      name.toList ++ (": ".toList ++ (field.typed.toList ++ rest)) := by
  simp only [label, named, String.toList_append, List.append_assoc]

/-- A colon follows the name of a field and never its type. -/
theorem label_some_ne_label_none {left right : Field} {name : String}
    {leftRest rightRest : List Char} (named : left.name? = some name)
    (unnamed : right.name? = none) (leftPrintable : left.Printable)
    (rightPrintable : right.Printable)
    (rightEnds : BeginsWith ['\n'] rightRest) :
    left.label.toList ++ leftRest ≠ right.label.toList ++ rightRest := by
  rw [toList_label_of_some named, toList_label_of_none unnamed,
    right.toList_typed_append]
  intro same
  have behindName := begins_behind_name (left.typed.toList ++ leftRest)
  have behindType := begins_behind_typeName right.cardinality rightEnds
  obtain ⟨_, behind⟩ :=
    isWord_append_inj (leftPrintable.name name named) rightPrintable.typeName
      (behindName.endsWord (by decide)) (behindType.endsWord (by decide)) same
  exact behindName.ne behindType (by decide) behind

private theorem legible_label :
    Legible Printable (BeginsWith ['\n']) label eraseSpans := by
  have sameField {left right : Field}
      (sameTyped :
        (left.typeName, left.cardinality) = (right.typeName, right.cardinality))
      (sameName : left.name? = right.name?) :
      left.eraseSpans = right.eraseSpans := by
    obtain ⟨sameType, sameCardinality⟩ := Prod.mk.inj sameTyped
    rw [eraseSpans, eraseSpans, sameType, sameCardinality, sameName]
  intro left right leftRest rightRest leftPrintable rightPrintable leftEnds
    rightEnds same
  cases leftName : left.name? with
  | none =>
      cases rightName : right.name? with
      | none =>
          rw [toList_label_of_none leftName, toList_label_of_none rightName]
            at same
          obtain ⟨sameTyped, sameRest⟩ :=
            legible_typed left right _ _ leftPrintable rightPrintable leftEnds
              rightEnds same
          exact ⟨sameField sameTyped (leftName.trans rightName.symm), sameRest⟩
      | some name =>
          exact absurd same.symm
            (label_some_ne_label_none rightName leftName rightPrintable
              leftPrintable leftEnds)
  | some name =>
      cases rightName : right.name? with
      | none =>
          exact absurd same
            (label_some_ne_label_none leftName rightName leftPrintable
              rightPrintable rightEnds)
      | some other =>
          rw [toList_label_of_some leftName, toList_label_of_some rightName]
            at same
          obtain ⟨rfl, behindName⟩ :=
            isWord_append_inj (leftPrintable.name name leftName)
              (rightPrintable.name other rightName)
              ((begins_behind_name _).endsWord (by decide))
              ((begins_behind_name _).endsWord (by decide)) same
          obtain ⟨sameTyped, sameRest⟩ :=
            legible_typed left right _ _ leftPrintable rightPrintable leftEnds
              rightEnds (List.append_cancel_left behindName)
          exact ⟨sameField sameTyped (leftName.trans rightName.symm), sameRest⟩

theorem toList_outline_append (depth : Nat) (field : Field)
    (rest : List Char) :
    (field.outline depth).toList ++ rest =
      indent depth ++
        ("Field ".toList ++ (field.label.toList ++ '\n' :: rest)) := by
  rw [outline, label]
  cases field.name? with
  | none => simp [toList_outlineLine_append, typed]
  | some name => simp [toList_outlineLine_append, typed]

theorem lineAt_outline (depth : Nat) (field : Field) (rest : List Char) :
    LineAt depth ['F'] ((field.outline depth).toList ++ rest) :=
  ⟨_, field.toList_outline_append depth rest, .cons _ (by decide)⟩

theorem legible_outline (depth : Nat) :
    Legible Printable (fun _ => True) (outline depth) eraseSpans := by
  intro left right leftRest rightRest leftPrintable rightPrintable _ _ same
  rw [toList_outline_append, toList_outline_append] at same
  obtain ⟨sameField, behind⟩ :=
    legible_label left right _ _ leftPrintable rightPrintable
      (.cons _ (by decide)) (.cons _ (by decide))
      (List.append_cancel_left (List.append_cancel_left same))
  exact ⟨sameField, (List.cons.inj behind).2⟩

theorem legible_listOutline (depth : Nat) :
    Legible (fun fields => ∀ field ∈ fields, field.Printable)
      (Resumes depth ['a']) (listOutline depth) (List.map eraseSpans) := by
  refine (legible_outline depth).row (fun _ _ _ _ => trivial) ?_
  intro field other rest _ resumes
  exact (field.lineAt_outline depth other).ne_of_resumes resumes (by decide)

end Field

namespace Constructor

theorem toList_outline_append (depth : Nat) (constructor : Constructor)
    (rest : List Char) :
    (constructor.outline depth).toList ++ rest =
      indent depth ++
        ("| ".toList ++
          (constructor.name.toList ++
            ('\n' ::
              ((Field.listOutline (depth + 1) constructor.members).toList ++
                rest)))) := by
  rw [outline, String.toList_append, List.append_assoc,
    toList_outlineLine_append, String.toList_append, List.append_assoc]

theorem lineAt_outline (depth : Nat) (constructor : Constructor)
    (rest : List Char) :
    LineAt depth ['|'] ((constructor.outline depth).toList ++ rest) :=
  ⟨_, constructor.toList_outline_append depth rest, .cons _ (by decide)⟩

theorem legible_outline (depth : Nat) :
    Legible Printable (Resumes (depth + 1) []) (outline depth) eraseSpans := by
  intro left right leftRest rightRest leftPrintable rightPrintable leftEnds
    rightEnds same
  rw [toList_outline_append, toList_outline_append] at same
  obtain ⟨sameName, behindName⟩ :=
    isWord_append_inj leftPrintable.name rightPrintable.name
      (.cons _ (by decide)) (.cons _ (by decide))
      (List.append_cancel_left (List.append_cancel_left same))
  obtain ⟨sameMembers, sameRest⟩ :=
    Field.legible_listOutline (depth + 1) _ _ _ _ leftPrintable.members
      rightPrintable.members (leftEnds.mono (by decide))
      (rightEnds.mono (by decide)) (List.cons.inj behindName).2
  rw [eraseSpans, eraseSpans, sameName, sameMembers]
  exact ⟨rfl, sameRest⟩

private theorem legible_row (depth : Nat) :
    Legible
      (fun constructors => ∀ constructor ∈ constructors, constructor.Printable)
      (Resumes depth ['a']) (rowText (outline depth)) (List.map eraseSpans) := by
  refine (legible_outline depth).row ?_ ?_
  · intro constructors rest _ resumes
    cases constructors with
    | nil => exact resumes.deeper (by decide)
    | cons first others =>
        rw [toList_rowText_cons, List.append_assoc]
        exact (first.lineAt_outline depth _).resumes.deeper (by decide)
  · intro constructor other rest _ resumes
    exact
      (constructor.lineAt_outline depth other).ne_of_resumes resumes
        (by decide)

end Constructor

namespace Field

theorem toList_attributesOutline_cons (depth : Nat) (first : Field)
    (others : List Field) (rest : List Char) :
    (attributesOutline depth (first :: others)).toList ++ rest =
      indent depth ++
        ("attributes:".toList ++
          ('\n' :: ((listOutline (depth + 1) (first :: others)).toList ++
            rest))) := by
  rw [attributesOutline, List.isEmpty_cons, if_neg (by decide),
    String.toList_append, List.append_assoc, toList_outlineLine_append]

theorem lineAt_attributesOutline (depth : Nat) (first : Field)
    (others : List Field) (rest : List Char) :
    LineAt depth ['a']
      ((attributesOutline depth (first :: others)).toList ++ rest) :=
  ⟨_, toList_attributesOutline_cons depth first others rest,
    .cons _ (by decide)⟩

theorem resumes_attributesOutline (depth : Nat) (attributes : List Field)
    {rest : List Char} (ends : Resumes depth [] rest) :
    Resumes depth ['a']
      ((attributesOutline depth attributes).toList ++ rest) := by
  cases attributes with
  | nil => exact ends.mono (by decide)
  | cons first others =>
      exact (lineAt_attributesOutline depth first others rest).resumes

private theorem legible_attributesOutline (depth : Nat) :
    Legible (fun attributes => ∀ field ∈ attributes, field.Printable)
      (Resumes depth []) (attributesOutline depth) (List.map eraseSpans) := by
  intro left right leftRest rightRest leftPrintable rightPrintable leftEnds
    rightEnds same
  cases left with
  | nil =>
      cases right with
      | nil => exact ⟨rfl, same⟩
      | cons first others =>
          have announced :=
            lineAt_attributesOutline depth first others rightRest
          exact absurd same.symm (announced.ne_of_resumes leftEnds (by decide))
  | cons first others =>
      cases right with
      | nil =>
          have announced :=
            lineAt_attributesOutline depth first others leftRest
          exact absurd same (announced.ne_of_resumes rightEnds (by decide))
      | cons second later =>
          rw [toList_attributesOutline_cons, toList_attributesOutline_cons]
            at same
          have lists :=
            List.append_cancel_left (List.append_cancel_left same)
          exact
            legible_listOutline (depth + 1) _ _ _ _ leftPrintable
              rightPrintable (leftEnds.deeper (by decide))
              (rightEnds.deeper (by decide)) (List.cons.inj lists).2

end Field

/-! ### Definitions -/

/-- Every name in the body is a word. -/
def Body.Worded : Body → Prop
  | sum constructors => ∀ constructor ∈ constructors, constructor.Printable
  | product members => ∀ member ∈ members, member.Printable

/-- Every name in the definition is a word; the lists may be empty. -/
structure Definition.Worded (definition : Definition) : Prop where
  name : isWord definition.name = true
  body : definition.body.Worded
  attributes : ∀ field ∈ definition.attributes, field.Printable

instance (body : Body) : Decidable body.Worded :=
  match body with
  | .sum constructors =>
      inferInstanceAs
        (Decidable (∀ constructor ∈ constructors, constructor.Printable))
  | .product members =>
      inferInstanceAs (Decidable (∀ member ∈ members, member.Printable))

instance (definition : Definition) : Decidable definition.Worded :=
  decidable_of_iff
    (isWord definition.name = true ∧ definition.body.Worded ∧
      ∀ field ∈ definition.attributes, field.Printable)
    ⟨fun ⟨name, body, attributes⟩ => ⟨name, body, attributes⟩,
      fun ⟨name, body, attributes⟩ => ⟨name, body, attributes⟩⟩

namespace Body

def heading : Body → String
  | sum _ => "Sum "
  | product _ => "Product "

def listing (depth : Nat) : Body → String
  | sum constructors => rowText (Constructor.outline depth) constructors
  | product members => Field.listOutline depth members

theorem begins_sum (constructors : List Constructor) (rest : List Char) :
    BeginsWith ['S'] ((sum constructors).heading.toList ++ rest) := by
  change BeginsWith ['S'] ("Sum ".toList ++ rest)
  exact .cons _ (by decide)

theorem begins_product (members : List Field) (rest : List Char) :
    BeginsWith ['P'] ((product members).heading.toList ++ rest) := by
  change BeginsWith ['P'] ("Product ".toList ++ rest)
  exact .cons _ (by decide)

private theorem begins_heading (body : Body) (rest : List Char) :
    BeginsWith ['S', 'P'] (body.heading.toList ++ rest) := by
  cases body with
  | sum constructors => exact (begins_sum constructors rest).mono (by decide)
  | product members => exact (begins_product members rest).mono (by decide)

private theorem heading_eq {left right : Body} {leftRest rightRest : List Char}
    (same :
      left.heading.toList ++ leftRest = right.heading.toList ++ rightRest) :
    left.heading = right.heading := by
  cases left with
  | sum constructors =>
      cases right with
      | sum others => rfl
      | product members =>
          exact absurd same
            ((begins_sum constructors leftRest).ne
              (begins_product members rightRest) (by decide))
  | product members =>
      cases right with
      | sum constructors =>
          exact absurd same
            ((begins_product members leftRest).ne
              (begins_sum constructors rightRest) (by decide))
      | product others => rfl

private theorem eraseSpans_eq_of_listing {depth : Nat} {left right : Body}
    {leftRest rightRest : List Char} (sameHeading : left.heading = right.heading)
    (leftWorded : left.Worded) (rightWorded : right.Worded)
    (leftEnds : Resumes depth ['a'] leftRest)
    (rightEnds : Resumes depth ['a'] rightRest)
    (same :
      (left.listing depth).toList ++ leftRest =
        (right.listing depth).toList ++ rightRest) :
    left.eraseSpans = right.eraseSpans ∧ leftRest = rightRest := by
  cases left with
  | sum constructors =>
      cases right with
      | sum others =>
          obtain ⟨sameConstructors, sameRest⟩ :=
            Constructor.legible_row depth _ _ _ _ leftWorded rightWorded
              leftEnds rightEnds same
          exact ⟨congrArg sum sameConstructors, sameRest⟩
      | product members => exact absurd sameHeading (by simp [heading])
  | product members =>
      cases right with
      | sum constructors => exact absurd sameHeading (by simp [heading])
      | product others =>
          obtain ⟨sameMembers, sameRest⟩ :=
            Field.legible_listOutline depth _ _ _ _ leftWorded rightWorded
              leftEnds rightEnds same
          exact ⟨congrArg product sameMembers, sameRest⟩

end Body

namespace Definition

def remark (simple : Bool) : String :=
  if simple then " (simple)" else ""

theorem endsWord_remark (simple : Bool) (rest : List Char) :
    EndsWord ((remark simple).toList ++ '\n' :: rest) := by
  cases simple with
  | true => exact .cons _ (by decide)
  | false => exact .cons _ (by decide)

/-- A remark begins with a blank, so it is told from the end of the line. -/
theorem legible_remark :
    Legible (fun _ => True) (BeginsWith ['\n']) remark id := by
  have remarked (rest : List Char) :
      BeginsWith [' '] ((remark true).toList ++ rest) :=
    .cons _ (by decide)
  intro left right leftRest rightRest _ _ leftEnds rightEnds same
  cases left with
  | true =>
      cases right with
      | true => exact ⟨rfl, List.append_cancel_left same⟩
      | false =>
          exact absurd same ((remarked leftRest).ne rightEnds (by decide))
  | false =>
      cases right with
      | true =>
          exact absurd same (leftEnds.ne (remarked rightRest) (by decide))
      | false => exact ⟨rfl, same⟩

private theorem outline_eq (depth : Nat) (definition : Definition) :
    definition.outline depth =
      outlineLine depth
          (definition.body.heading ++ definition.name ++
            remark definition.isSimple) ++
        definition.body.listing (depth + 1) ++
        Field.attributesOutline (depth + 1) definition.attributes := by
  obtain ⟨name, body, attributes, nameSpan, span⟩ := definition
  cases body with
  | sum constructors => rfl
  | product members =>
      simp [outline, remark, isSimple, Body.heading, Body.listing]

theorem toList_outline_append (depth : Nat) (definition : Definition)
    (rest : List Char) :
    (definition.outline depth).toList ++ rest =
      indent depth ++
        (definition.body.heading.toList ++
          (definition.name.toList ++
            ((remark definition.isSimple).toList ++
              ('\n' :: ((definition.body.listing (depth + 1)).toList ++
                ((Field.attributesOutline (depth + 1)
                    definition.attributes).toList ++
                  rest)))))) := by
  rw [outline_eq]
  simp only [String.toList_append, List.append_assoc, List.cons_append,
    toList_outlineLine_append]

theorem lineAt_outline (depth : Nat) (definition : Definition)
    (rest : List Char) :
    LineAt depth ['S', 'P'] ((definition.outline depth).toList ++ rest) :=
  ⟨_, definition.toList_outline_append depth rest,
    definition.body.begins_heading _⟩

theorem legible_outline (depth : Nat) :
    Legible Worded (Resumes (depth + 1) []) (outline depth) eraseSpans := by
  intro left right leftRest rightRest leftWorded rightWorded leftEnds rightEnds
    same
  rw [toList_outline_append, toList_outline_append] at same
  have lines := List.append_cancel_left same
  have sameHeading := Body.heading_eq lines
  rw [sameHeading] at lines
  obtain ⟨sameName, behindName⟩ :=
    isWord_append_inj leftWorded.name rightWorded.name (endsWord_remark _ _)
      (endsWord_remark _ _) (List.append_cancel_left lines)
  obtain ⟨_, behindRemark⟩ :=
    legible_remark _ _ _ _ trivial trivial (.cons _ (by decide))
      (.cons _ (by decide)) behindName
  obtain ⟨sameBody, behindBody⟩ :=
    Body.eraseSpans_eq_of_listing sameHeading leftWorded.body rightWorded.body
      (Field.resumes_attributesOutline _ _ leftEnds)
      (Field.resumes_attributesOutline _ _ rightEnds)
      (List.cons.inj behindRemark).2
  obtain ⟨sameAttributes, sameRest⟩ :=
    Field.legible_attributesOutline (depth + 1) _ _ _ _ leftWorded.attributes
      rightWorded.attributes leftEnds rightEnds behindBody
  rw [eraseSpans, eraseSpans, sameName, sameBody, sameAttributes]
  exact ⟨rfl, sameRest⟩

end Definition

namespace Module

structure Worded (module : Module) : Prop where
  name : isWord module.name = true
  definitions : ∀ definition ∈ module.definitions, definition.Worded

instance (module : Module) : Decidable module.Worded :=
  decidable_of_iff
    (isWord module.name = true ∧
      ∀ definition ∈ module.definitions, definition.Worded)
    ⟨fun ⟨name, definitions⟩ => ⟨name, definitions⟩,
      fun ⟨name, definitions⟩ => ⟨name, definitions⟩⟩

private theorem legible_outlines :
    Legible
      (fun definitions => ∀ definition ∈ definitions, definition.Worded)
      (· = []) (rowText (Definition.outline 1))
      (List.map Definition.eraseSpans) := by
  refine (Definition.legible_outline 1).row ?_ ?_
  · rintro definitions _ _ rfl
    cases definitions with
    | nil => exact .nil 1 []
    | cons first others =>
        rw [toList_rowText_cons, List.append_assoc]
        exact (first.lineAt_outline 1 _).resumes.deeper (by decide)
  · rintro definition other _ _ rfl
    exact
      (definition.lineAt_outline 1 other).ne_of_resumes (.nil 0 [])
        (by decide)

theorem toList_outline (module : Module) :
    module.outline.toList =
      "Module ".toList ++
        (module.name.toList ++
          ('\n' :: (rowText (Definition.outline 1)
            module.definitions).toList)) := by
  rw [outline, String.toList_append, toList_outlineLine_append,
    String.toList_append, List.append_assoc]
  rfl

/-- Modules whose names are words have the same outline only if they are the
same, up to where their parts stand in a source. -/
theorem eraseSpans_eq_of_outline_eq {left right : Module}
    (leftWorded : left.Worded) (rightWorded : right.Worded)
    (same : left.outline = right.outline) :
    left.eraseSpans = right.eraseSpans := by
  have sameText := congrArg String.toList same
  rw [toList_outline, toList_outline] at sameText
  obtain ⟨sameName, behindName⟩ :=
    isWord_append_inj leftWorded.name rightWorded.name (.cons _ (by decide))
      (.cons _ (by decide)) (List.append_cancel_left sameText)
  have sameLines := (List.cons.inj behindName).2
  obtain ⟨sameDefinitions, _⟩ :=
    legible_outlines left.definitions right.definitions [] []
      leftWorded.definitions rightWorded.definitions rfl rfl
      (by rw [List.append_nil, List.append_nil, sameLines])
  rw [eraseSpans, eraseSpans, sameName, sameDefinitions]

/-- A sum and a product with nothing in them, a sum that has only an attribute,
and a sum with two constructors, where all parts stand at one range. -/
def sparse (span : Span) : Module :=
  let field (typeName : String) (cardinality : Cardinality)
      (name? : Option String) : Field :=
    { typeName := typeName
      cardinality := cardinality
      name? := name?
      span := span }
  let definition (name : String) (body : Body) (attributes : List Field) :
      Definition :=
    { name := name
      body := body
      attributes := attributes
      nameSpan := span
      span := span }
  { name := "Sparse"
    definitions :=
      [definition "void" (.sum []) [],
        definition "unit" (.product []) [],
        definition "attributes" (.sum []) [field "int" .optional none],
        definition "tree"
          (.sum
            [{ name := "Leaf"
               members := []
               span := span },
              { name := "Fork"
                members :=
                  [field "tree" .single (some "left"),
                    field "tree" .sequence none]
                span := span }])
          []]
    span := span }

theorem eraseSpans_sparse :
    sparse .zero ≠ sparse ⟨3, 8⟩ ∧
      (sparse .zero).eraseSpans = (sparse ⟨3, 8⟩).eraseSpans := by
  have sameOutline : (sparse .zero).outline = (sparse ⟨3, 8⟩).outline := rfl
  exact
    ⟨by decide,
      eraseSpans_eq_of_outline_eq (by decide) (by decide) sameOutline⟩

end Module

end Asdl
