/-
The text of a clean tree determines the description.

Where every type is known, the text of a tree without renderings holds every
name as the description has it.  Names are words, and none of the marks that
the text puts between them continues a word, so each name can be read off where
it stands.  What a field ends in and what a constructor goes on with are
different marks; that is how a sum is told from a product.
-/

import Asdl.Proofs.Module.RoundTrip
import Asdl.Proofs.Resolution.Reports
import Asdl.Proofs.Text.Legible
import Asdl.Proofs.Tree.Dumped

namespace Asdl

open Cursor (EndsWord)
open Resolved (DefinitionId)

def listText {Item : Type} (text : Item → String) (items : List Item) :
    String :=
  Tree.bracketed (items.map text)

def ClosesItem (rest : List Char) : Prop :=
  BeginsWith [',', ']'] rest

theorem ClosesItem.endsWord {rest : List Char} (closes : ClosesItem rest) :
    EndsWord rest :=
  BeginsWith.endsWord closes (by decide)

section Lists

variable {Item View : Type}

def behindText (text : Item → String) (item : Item) : String :=
  ", " ++ text item

private theorem intercalate_map_cons (text : Item → String) (first : Item)
    (rest : List Item) :
    String.intercalate ", " ((first :: rest).map text) =
      text first ++ rowText (behindText text) rest := by
  induction rest generalizing first with
  | nil => simp [rowText]
  | cons second others ih =>
      rw [List.map_cons, List.map_cons, String.intercalate_cons_cons,
        ← List.map_cons, ih]
      simp [rowText, behindText, String.append_assoc]

private theorem toList_listText_nil (text : Item → String) :
    (listText text []).toList = ['[', ']'] := by
  simp [listText, Tree.bracketed]

theorem toList_listText_cons (text : Item → String) (first : Item)
    (rest : List Item) :
    (listText text (first :: rest)).toList =
      '[' :: ((text first).toList ++
        ((rowText (behindText text) rest).toList ++ [']'])) := by
  rw [listText, Tree.bracketed, intercalate_map_cons]
  simp [List.append_assoc]

variable {valid : Item → Prop} {text : Item → String} {view : Item → View}

theorem closesItem_row (text : Item → String) (items : List Item)
    {rest : List Char} (closed : BeginsWith [']'] rest) :
    ClosesItem ((rowText (behindText text) items).toList ++ rest) := by
  cases items with
  | nil => exact closed.mono (by decide)
  | cons first others =>
      rw [toList_rowText_cons, behindText, String.toList_append]
      exact .cons _ (by decide)

theorem Legible.behind (legible : Legible valid ClosesItem text view) :
    Legible valid ClosesItem (behindText text) view := by
  intro left right leftRest rightRest leftValid rightValid leftCloses
    rightCloses same
  simp only [behindText, String.toList_append, List.append_assoc] at same
  exact
    legible left right leftRest rightRest leftValid rightValid leftCloses
      rightCloses (List.append_cancel_left same)

/-- A list between brackets is legible wherever it stands, if no item begins
with a closing bracket. -/
theorem Legible.list (legible : Legible valid ClosesItem text view)
    (begins : ∀ item other rest, valid item → BeginsWith [']'] rest →
      (text item).toList ++ other ≠ rest) :
    Legible (fun items => ∀ item ∈ items, valid item) (fun _ => True)
      (listText text) (List.map view) := by
  have row :
      Legible (fun items => ∀ item ∈ items, valid item) (BeginsWith [']'])
        (rowText (behindText text)) (List.map view) := by
    refine legible.behind.row (fun items _ _ => closesItem_row text items) ?_
    intro item other rest _ closed
    rw [behindText, String.toList_append]
    have isBehind : BeginsWith [','] (", ".toList ++ (text item).toList) :=
      .cons _ (by decide)
    exact (isBehind.append other).ne closed (by decide)
  have closing (rest : List Char) : BeginsWith [']'] (']' :: rest) :=
    .cons rest (by decide)
  have nonempty (item : Item) (others : List Item) (itemValid : valid item)
      (leftRest rightRest : List Char) :
      (listText text (item :: others)).toList ++ leftRest ≠
        (listText text ([] : List Item)).toList ++ rightRest := by
    rw [toList_listText_nil, toList_listText_cons, List.cons_append,
      List.append_assoc]
    intro same
    exact begins item _ _ itemValid (closing rightRest) (List.cons.inj same).2
  intro left right leftRest rightRest leftValid rightValid _ _ same
  cases left with
  | nil =>
      cases right with
      | nil => exact ⟨rfl, List.append_cancel_left same⟩
      | cons item others =>
          have itemValid := (List.forall_mem_cons.mp rightValid).1
          exact absurd same.symm (nonempty item others itemValid _ _)
  | cons first rest =>
      obtain ⟨firstValid, restValid⟩ := List.forall_mem_cons.mp leftValid
      cases right with
      | nil => exact absurd same (nonempty first rest firstValid _ _)
      | cons item others =>
          obtain ⟨itemValid, othersValid⟩ := List.forall_mem_cons.mp rightValid
          simp only [toList_listText_cons, List.cons_append, List.append_assoc,
            List.nil_append, List.cons.injEq, true_and] at same
          obtain ⟨sameFirst, behind⟩ :=
            legible first item _ _ firstValid itemValid
              (closesItem_row text rest (closing leftRest))
              (closesItem_row text others (closing rightRest)) same
          obtain ⟨sameOthers, sameRest⟩ :=
            row rest others _ _ restValid othersValid (closing leftRest)
              (closing rightRest) behind
          rw [List.map_cons, List.map_cons, sameFirst, sameOthers]
          exact ⟨rfl, (List.cons.inj sameRest).2⟩

end Lists

namespace Field

def nameText : Option String → String
  | some name => " " ++ name
  | none => ""

theorem toList_source_append (field : Field) (rest : List Char) :
    field.source.toList ++ rest =
      field.typeName.toList ++
        (field.cardinality.marker.toList ++
          ((nameText field.name?).toList ++ rest)) := by
  have parts :
      field.source =
        field.typeName ++ field.cardinality.marker ++
          nameText field.name? :=
    rfl
  rw [parts, String.toList_append, String.toList_append, List.append_assoc,
    List.append_assoc]

/-- A name is behind a blank, so it is told from the end of a field. -/
theorem legible_nameText :
    Legible (fun name? : Option String => ∀ name ∈ name?, isWord name = true)
      ClosesItem nameText id := by
  have named (name : String) (rest : List Char) :
      BeginsWith [' '] ((nameText (some name)).toList ++ rest) := by
    rw [nameText, String.toList_append]
    exact .cons _ (by decide)
  intro left right leftRest rightRest leftWord rightWord leftCloses
    rightCloses same
  cases left with
  | none =>
      cases right with
      | none => exact ⟨rfl, same⟩
      | some name =>
          exact absurd same
            (BeginsWith.ne leftCloses (named name rightRest) (by decide))
  | some leftName =>
      cases right with
      | none =>
          exact absurd same
            (BeginsWith.ne (named leftName leftRest) rightCloses (by decide))
      | some rightName =>
          simp only [nameText, String.toList_append, List.append_assoc] at same
          obtain ⟨rfl, sameRest⟩ :=
            isWord_append_inj (leftWord _ rfl) (rightWord _ rfl)
              leftCloses.endsWord rightCloses.endsWord
              (List.append_cancel_left same)
          exact ⟨rfl, sameRest⟩

theorem begins_behind_marker (name? : Option String) {rest : List Char}
    (closes : ClosesItem rest) :
    BeginsWith [' ', ',', ']'] ((nameText name?).toList ++ rest) := by
  cases name? with
  | none => exact BeginsWith.mono closes (by decide)
  | some name =>
      rw [nameText, String.toList_append]
      exact .cons _ (by decide)

theorem begins_behind_type (cardinality : Cardinality) (name? : Option String)
    {rest : List Char} (closes : ClosesItem rest) :
    BeginsWith ['?', '*', ' ', ',', ']']
      (cardinality.marker.toList ++ ((nameText name?).toList ++ rest)) := by
  apply (cardinality.begins_marker (begins_behind_marker name? closes)).mono
  cases cardinality <;> decide

private theorem legible_source :
    Legible Printable ClosesItem source eraseSpans := by
  intro left right leftRest rightRest leftPrintable rightPrintable leftCloses
    rightCloses same
  rw [toList_source_append, toList_source_append] at same
  obtain ⟨sameType, behindType⟩ :=
    isWord_append_inj leftPrintable.typeName rightPrintable.typeName
      ((begins_behind_type _ _ leftCloses).endsWord (by decide))
      ((begins_behind_type _ _ rightCloses).endsWord (by decide)) same
  obtain ⟨sameCardinality, behindMarker⟩ :=
    Cardinality.legible_marker (by decide) left.cardinality right.cardinality
      _ _ trivial trivial (begins_behind_marker left.name? leftCloses)
      (begins_behind_marker right.name? rightCloses) behindType
  obtain ⟨sameName, sameRest⟩ :=
    legible_nameText left.name? right.name? _ _ leftPrintable.name
      rightPrintable.name leftCloses rightCloses behindMarker
  simp only [id] at sameCardinality sameName
  rw [eraseSpans, eraseSpans, sameType, sameCardinality, sameName]
  exact ⟨rfl, sameRest⟩

theorem legible_list :
    Legible (fun fields => ∀ field ∈ fields, field.Printable) (fun _ => True)
      (listText source) (List.map eraseSpans) := by
  refine legible_source.list ?_
  intro field other rest printable closed
  rw [toList_source_append]
  exact isWord_append_ne printable.typeName closed (by decide)

end Field

theorem begins_listText {Item : Type} (text : Item → String)
    (items : List Item) (rest : List Char) :
    BeginsWith ['['] ((listText text items).toList ++ rest) := by
  rw [listText, Tree.bracketed, String.toList_append, String.toList_append]
  exact .cons _ (by decide)

namespace Constructor

def shown (constructor : Constructor) : String :=
  constructor.name ++ listText Field.source constructor.members

theorem toList_shown_append (constructor : Constructor) (rest : List Char) :
    constructor.shown.toList ++ rest =
      constructor.name.toList ++
        ((listText Field.source constructor.members).toList ++ rest) := by
  rw [shown, String.toList_append, List.append_assoc]

theorem endsWord_members (constructor : Constructor) (rest : List Char) :
    EndsWord
      ((listText Field.source constructor.members).toList ++ rest) :=
  (begins_listText _ _ _).endsWord (by decide)

theorem legible_shown :
    Legible Printable (fun _ => True) shown eraseSpans := by
  intro left right leftRest rightRest leftPrintable rightPrintable _ _ same
  rw [toList_shown_append, toList_shown_append] at same
  obtain ⟨sameName, behindName⟩ :=
    isWord_append_inj leftPrintable.name rightPrintable.name
      (left.endsWord_members leftRest) (right.endsWord_members rightRest) same
  obtain ⟨sameMembers, sameRest⟩ :=
    Field.legible_list _ _ _ _ leftPrintable.members rightPrintable.members
      trivial trivial behindName
  rw [eraseSpans, eraseSpans, sameName, sameMembers]
  exact ⟨rfl, sameRest⟩

/-- A constructor goes on with a bracket, and a field never does. -/
theorem shown_ne_source {constructor : Constructor} {field : Field}
    {leftRest rightRest : List Char} (printable : constructor.Printable)
    (fieldPrintable : field.Printable) (closes : ClosesItem rightRest) :
    constructor.shown.toList ++ leftRest ≠
      field.source.toList ++ rightRest := by
  rw [toList_shown_append, Field.toList_source_append]
  intro same
  have behindType :=
    Field.begins_behind_type field.cardinality field.name? closes
  obtain ⟨_, behindName⟩ :=
    isWord_append_inj printable.name fieldPrintable.typeName
      (constructor.endsWord_members leftRest)
      (behindType.endsWord (by decide)) same
  exact (begins_listText _ _ _).ne behindType (by decide) behindName

end Constructor

namespace Body

def shown : Body → String
  | sum constructors => listText Constructor.shown constructors
  | product members => listText Field.source members

private theorem legible_constructors :
    Legible
      (fun constructors => ∀ constructor ∈ constructors, constructor.Printable)
      (fun _ => True) (listText Constructor.shown)
      (List.map Constructor.eraseSpans) := by
  refine (Constructor.legible_shown.narrow fun _ _ => trivial).list ?_
  intro constructor other rest printable closed
  rw [Constructor.toList_shown_append]
  exact isWord_append_ne printable.name closed (by decide)

/-- Neither body is empty, so the first constructor and the first member tell a
sum from a product. -/
theorem shown_sum_ne_shown_product {constructors : List Constructor}
    {members : List Field} (leftRest rightRest : List Char)
    (sumPrintable : (sum constructors).Printable)
    (productPrintable : (product members).Printable) :
    (sum constructors).shown.toList ++ leftRest ≠
      (product members).shown.toList ++ rightRest := by
  obtain ⟨constructorsNonempty, constructorsPrintable⟩ := sumPrintable
  obtain ⟨membersNonempty, membersPrintable⟩ := productPrintable
  cases constructors with
  | nil => exact absurd rfl constructorsNonempty
  | cons constructor others =>
      cases members with
      | nil => exact absurd rfl membersNonempty
      | cons member rest =>
          have constructorPrintable :=
            (List.forall_mem_cons.mp constructorsPrintable).1
          have memberPrintable := (List.forall_mem_cons.mp membersPrintable).1
          simp only [shown, toList_listText_cons, List.cons_append,
            List.append_assoc, List.nil_append, ne_eq, List.cons.injEq,
            true_and]
          exact Constructor.shown_ne_source constructorPrintable
            memberPrintable
            (closesItem_row Field.source rest (.cons rightRest (by decide)))

theorem legible_shown :
    Legible Printable (fun _ => True) shown eraseSpans := by
  intro left right leftRest rightRest leftPrintable rightPrintable _ _ same
  cases left with
  | sum leftConstructors =>
      cases right with
      | sum rightConstructors =>
          obtain ⟨sameConstructors, sameRest⟩ :=
            legible_constructors _ _ _ _ leftPrintable.2 rightPrintable.2
              trivial trivial same
          exact ⟨congrArg sum sameConstructors, sameRest⟩
      | product members =>
          exact absurd same
            (shown_sum_ne_shown_product _ _ leftPrintable rightPrintable)
  | product leftMembers =>
      cases right with
      | sum constructors =>
          exact absurd same.symm
            (shown_sum_ne_shown_product _ _ rightPrintable leftPrintable)
      | product rightMembers =>
          obtain ⟨sameMembers, sameRest⟩ :=
            Field.legible_list _ _ _ _ leftPrintable.2 rightPrintable.2 trivial
              trivial same
          exact ⟨congrArg product sameMembers, sameRest⟩

end Body

namespace Definition

def shown (definition : Definition) : String :=
  definition.name ++ "(" ++ definition.body.shown ++ ", attr=" ++
    listText Field.source definition.attributes ++ ")"

def line (definition : Definition) : String :=
  "  " ++ definition.shown ++ "\n"

theorem toList_line_append (definition : Definition) (rest : List Char) :
    definition.line.toList ++ rest =
      "  ".toList ++
        (definition.name.toList ++
          ('(' :: (definition.body.shown.toList ++
            (", attr=".toList ++
              ((listText Field.source definition.attributes).toList ++
                (')' :: '\n' :: rest)))))) := by
  simp only [line, shown, String.toList_append, List.append_assoc]
  rfl

private theorem legible_line :
    Legible Printable (fun _ => True) line eraseSpans := by
  intro left right leftRest rightRest leftPrintable rightPrintable _ _ same
  rw [toList_line_append, toList_line_append] at same
  obtain ⟨sameName, behindName⟩ :=
    isWord_append_inj leftPrintable.name rightPrintable.name
      (.cons _ (by decide)) (.cons _ (by decide))
      (List.append_cancel_left same)
  obtain ⟨sameBody, behindBody⟩ :=
    Body.legible_shown _ _ _ _ leftPrintable.body rightPrintable.body trivial
      trivial (List.cons.inj behindName).2
  obtain ⟨sameAttributes, behindAttributes⟩ :=
    Field.legible_list _ _ _ _ leftPrintable.attributes
      rightPrintable.attributes trivial trivial
      (List.append_cancel_left behindBody)
  rw [eraseSpans, eraseSpans, sameName, sameBody, sameAttributes]
  exact ⟨rfl, (List.cons.inj (List.cons.inj behindAttributes).2).2⟩

end Definition

namespace Module

def shown (module : Module) : String :=
  "module " ++ module.name ++ "\n" ++
    rowText Definition.line module.definitions

private theorem legible_definitions :
    Legible
      (fun definitions => ∀ definition ∈ definitions, definition.Printable)
      (· = []) (rowText Definition.line)
      (List.map Definition.eraseSpans) := by
  refine Definition.legible_line.row (fun _ _ _ _ => trivial) ?_
  rintro definition other rest _ rfl
  rw [Definition.toList_line_append]
  exact List.cons_ne_nil _ _

private theorem eraseSpans_eq_of_shown_eq {left right : Module}
    (leftPrintable : left.Printable) (rightPrintable : right.Printable)
    (same : left.shown = right.shown) : left.eraseSpans = right.eraseSpans := by
  have lineEnds (rest : List Char) : EndsWord ("\n".toList ++ rest) :=
    .cons _ (by decide)
  have sameText := congrArg String.toList same
  simp only [shown, String.toList_append, List.append_assoc] at sameText
  obtain ⟨sameName, behindName⟩ :=
    isWord_append_inj leftPrintable.name rightPrintable.name (lineEnds _)
      (lineEnds _) (List.append_cancel_left sameText)
  have sameLines := List.append_cancel_left behindName
  obtain ⟨sameDefinitions, _⟩ :=
    legible_definitions left.definitions right.definitions [] []
      leftPrintable.definitions rightPrintable.definitions rfl rfl
      (by rw [List.append_nil, List.append_nil, sameLines])
  rw [eraseSpans, eraseSpans, sameName, sameDefinitions]

end Module

/-! ### The text of a clean tree -/

def Site.declared (_ : Site) (name : String) : String :=
  name

private theorem Site.spelling_none : spelling (fun _ => none) = declared :=
  rfl

section Shown

variable {typeText : String → String}

/-- The types of the fields are written as the description has them. -/
def Field.Kept (typeText : String → String) (fields : List Field) : Prop :=
  ∀ field ∈ fields, typeText field.typeName = field.typeName

theorem Field.listDumped_eq_listText (siteAt : Nat → Site)
    {fields : List Field} (kept : Kept typeText fields) :
    listDumped typeText Site.declared siteAt fields =
      listText source fields := by
  refine congrArg Tree.bracketed (mapIdx_eq_map ?_)
  intro place field member
  rw [dumped, kept field member]
  rfl

theorem Body.dumped_eq_shown (id : DefinitionId) {body : Body}
    (kept : Field.Kept typeText body.fields) :
    body.dumped typeText Site.declared id = body.shown := by
  cases body with
  | product members => exact Field.listDumped_eq_listText _ kept
  | sum constructors =>
      refine congrArg Tree.bracketed (mapIdx_eq_map ?_)
      intro index constructor member
      have membersKept : Field.Kept typeText constructor.members := by
        intro field inside
        exact kept field (List.mem_flatMap_of_mem member inside)
      rw [Constructor.dumped, Field.listDumped_eq_listText _ membersKept]
      rfl

theorem Definition.dumped_eq_shown (id : DefinitionId)
    {definition : Definition} (kept : Field.Kept typeText definition.fields) :
    definition.dumped typeText Site.declared id = definition.shown := by
  obtain ⟨attributesKept, bodyKept⟩ := List.forall_mem_append.mp kept
  rw [dumped, Body.dumped_eq_shown id bodyKept,
    Field.listDumped_eq_listText _ attributesKept]
  rfl

end Shown

namespace Module

/-- A type that is known leads to a definition of its name. -/
theorem typeText_of_knows {module : Module} {typeName : String}
    (known : module.Knows typeName) :
    module.typeText Site.declared typeName = typeName := by
  rw [typeText]
  cases own : (module.definitions.map Definition.name).idxOf? typeName with
  | some index => rfl
  | none =>
      have notOwn := List.idxOf?_eq_none_iff.mp own
      exact if_pos (known.resolve_left notOwn)

theorem dump_linked_of_isClean {module : Module}
    (clean : module.linked.isClean = true) :
    module.linked.tree.dump = module.shown := by
  have unset := module.dump_rendered_linked fun _ => none
  rw [module.rendered_linked, Site.spelling_none] at unset
  have sameLines :
      (module.definitions.mapIdx fun index definition =>
          "  " ++
            definition.dumped (module.typeText Site.declared) Site.declared
              (.user index) ++
            "\n") =
        module.definitions.map Definition.line := by
    apply mapIdx_eq_map
    intro index definition member
    have allKnown := ((isClean_linked_iff module).mp clean definition member).1
    have kept :
        Field.Kept (module.typeText Site.declared) definition.fields :=
      fun field inside => typeText_of_knows (allKnown field inside)
    rw [Definition.dumped_eq_shown _ kept, Definition.line]
  rw [unset, dumped, sameLines]
  rfl

/-- Two sources that compile without a report have trees of the same text only
if they describe the same module, up to where its parts stand in the
sources. -/
theorem eraseSpans_eq_of_dump_eq {leftSource rightSource : String}
    {left right : Module} {leftCompilation rightCompilation : Compilation}
    (leftParsed : Module.parse leftSource = .ok left)
    (rightParsed : Module.parse rightSource = .ok right)
    (leftCompiled : compile left = .ok leftCompilation)
    (rightCompiled : compile right = .ok rightCompilation)
    (leftClean : leftCompilation.isClean = true)
    (rightClean : rightCompilation.isClean = true)
    (same : leftCompilation.tree.dump = rightCompilation.tree.dump) :
    left.eraseSpans = right.eraseSpans := by
  obtain ⟨_, rfl⟩ := (compile_eq_ok_iff _ _).mp leftCompiled
  obtain ⟨_, rfl⟩ := (compile_eq_ok_iff _ _).mp rightCompiled
  rw [dump_linked_of_isClean leftClean, dump_linked_of_isClean rightClean]
    at same
  exact eraseSpans_eq_of_shown_eq (printable_of_parse leftParsed)
    (printable_of_parse rightParsed) same

/-- A product that mentions itself and a sum with an attribute, whose parts
stand at the ranges. -/
def mixed (spans : List Span) : Module :=
  let span (index : Nat) : Span := spans.getD index .zero
  { name := "M"
    definitions :=
      [{ name := "a"
         body :=
           .product
             [{ typeName := "int"
                cardinality := .optional
                name? := none
                span := span 3 },
              { typeName := "a"
                cardinality := .sequence
                name? := some "b"
                span := span 4 }]
         attributes := []
         nameSpan := span 2
         span := span 1 },
       { name := "c"
         body :=
           .sum
             [{ name := "D"
                members := []
                span := span 7 }]
         attributes :=
           [{ typeName := "c"
              cardinality := .single
              name? := some "f"
              span := span 8 }]
         nameSpan := span 6
         span := span 5 }]
    span := span 0 }

def roomy : Module :=
  mixed
    [⟨0, 52⟩, ⟨11, 27⟩, ⟨11, 12⟩, ⟨16, 20⟩, ⟨22, 26⟩, ⟨28, 50⟩, ⟨28, 29⟩,
      ⟨32, 33⟩, ⟨46, 49⟩]

def dense : Module :=
  mixed
    [⟨0, 41⟩, ⟨9, 21⟩, ⟨9, 10⟩, ⟨12, 16⟩, ⟨17, 20⟩, ⟨21, 40⟩, ⟨21, 22⟩,
      ⟨23, 24⟩, ⟨36, 39⟩]

/-- The same module with much layout and with little. -/
theorem eraseSpans_roomy_eq_dense :
    Module.parse
        "module M \x7b a = (int?, a* b) c = D attributes (c f) \x7d" =
        .ok roomy ∧
      Module.parse
          "module M\x7ba=(int?,a*b)c=D attributes(c f)\x7d" =
        .ok dense ∧
      roomy ≠ dense ∧ roomy.eraseSpans = dense.eraseSpans := by
  have roomyParsed :
      Module.parse
          "module M \x7b a = (int?, a* b) c = D attributes (c f) \x7d" =
        .ok roomy := by
    decide +kernel
  have denseParsed :
      Module.parse "module M\x7ba=(int?,a*b)c=D attributes(c f)\x7d" =
        .ok dense := by
    decide +kernel
  have roomyCompiled : compile roomy = .ok roomy.linked :=
    (compile_eq_ok_iff _ _).mpr ⟨by decide, rfl⟩
  have denseCompiled : compile dense = .ok dense.linked :=
    (compile_eq_ok_iff _ _).mpr ⟨by decide, rfl⟩
  have sameText : roomy.linked.tree.dump = dense.linked.tree.dump := by
    decide +kernel
  refine ⟨roomyParsed, denseParsed, by decide, ?_⟩
  exact eraseSpans_eq_of_dump_eq roomyParsed denseParsed roomyCompiled
    denseCompiled (by decide) (by decide) sameText

end Module

end Asdl
