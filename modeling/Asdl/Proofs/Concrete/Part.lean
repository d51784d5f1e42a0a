/-
The parts of a concrete tree that have a range, and the lexemes they take.

A part takes lexemes that stand one behind the other.  They spell its tokens,
its range begins with the first of them and ends with the last, and each of its
children takes some of them in turn, one child behind the other.  The makers of
nodes keep this: a node made from parts takes the lexemes of the parts and of
the marks between them.
-/

import Asdl.Concrete.Yield
import Asdl.Proofs.Token.Slice

namespace Asdl.Concrete

inductive Part where
  | module (module : Module)
  | definition (definition : Definition)
  | constructor (constructor : Constructor)
  | fields (list : FieldList)
  | field (field : Field)
  | marker (marker : Marker)
  | keyword (span : Span)
  | identifier (id : Identifier)
deriving DecidableEq

def Body.parts : Body → List Part
  | product fields => [.fields fields]
  | sum constructors => constructors.map .constructor

def Attributes.parts (attributes : Attributes) : List Part :=
  [.keyword attributes.keyword, .fields attributes.fields]

namespace Part

def span : Part → Span
  | module node => node.span
  | definition node => node.span
  | constructor node => node.span
  | fields node => node.span
  | field node => node.span
  | marker node => node.span
  | keyword span => span
  | identifier node => node.span

def tokens : Part → List Token
  | module node => node.tokens
  | definition node => node.tokens
  | constructor node => node.tokens
  | fields node => node.tokens
  | field node => node.tokens
  | marker node => [node.token]
  | keyword _ => [.attributesKeyword]
  | identifier node => [node.token]

def children : Part → List Part
  | module node =>
      .identifier node.id :: node.definitions.map .definition
  | definition node =>
      .identifier node.typeId ::
        (node.body.parts ++
          node.attributes?.toList.flatMap Attributes.parts)
  | constructor node =>
      .identifier node.id :: node.fields?.toList.map .fields
  | fields node => node.fields.map .field
  | field node =>
      .identifier node.typeId ::
        (node.marker?.toList.map .marker ++
          node.id?.toList.map .identifier)
  | marker _ | keyword _ | identifier _ => []

/-- The part is the root or lies under it at some depth. -/
inductive Within (root : Part) : Part → Prop
  | root : Within root root
  | child {parent part : Part} (inside : Within root parent)
      (isChild : part ∈ parent.children) : Within root part

end Part

section Spread

variable {Item : Type} {Takes : Item → List Lexeme → Prop}

/-- Each item takes some of the lexemes, each behind those of the item in
front of it. -/
inductive Spread (Takes : Item → List Lexeme → Prop) :
    List Item → List Lexeme → Prop
  | nil (lexemes : List Lexeme) : Spread Takes [] lexemes
  | cons {item : Item} {items : List Item} {own rest : List Lexeme}
      (between : List Lexeme) (here : Takes item own)
      (further : Spread Takes items rest) :
      Spread Takes (item :: items) (between ++ (own ++ rest))

theorem Spread.single {item : Item} {own : List Lexeme}
    (here : Takes item own) : Spread Takes [item] own := by
  simpa using Spread.cons [] here (.nil [])

theorem Spread.behind {items : List Item} {lexemes : List Lexeme}
    (front : List Lexeme) (spread : Spread Takes items lexemes) :
    Spread Takes items (front ++ lexemes) := by
  cases spread with
  | nil lexemes => exact .nil _
  | cons between here further =>
      rw [← List.append_assoc]
      exact .cons (front ++ between) here further

theorem Spread.append {left right : List Item}
    {leftLexemes rightLexemes : List Lexeme}
    (leftSpread : Spread Takes left leftLexemes)
    (rightSpread : Spread Takes right rightLexemes) :
    Spread Takes (left ++ right) (leftLexemes ++ rightLexemes) := by
  induction leftSpread with
  | nil lexemes => exact rightSpread.behind lexemes
  | cons between here further ih =>
      rw [List.append_assoc, List.append_assoc]
      exact .cons between here ih

theorem Spread.exists_of_mem {items : List Item} {lexemes : List Lexeme}
    (spread : Spread Takes items lexemes) :
    ∀ item ∈ items, ∃ own, own <:+: lexemes ∧ Takes item own := by
  induction spread with
  | nil lexemes =>
      intro item absent
      cases absent
  | @cons first items own rest between here further ih =>
      intro item member
      rcases List.mem_cons.mp member with rfl | later
      · exact ⟨own, ⟨between, rest, by simp⟩, here⟩
      · obtain ⟨ownLater, inside, takes⟩ := ih item later
        refine ⟨ownLater, inside.trans ?_, takes⟩
        exact ⟨between ++ own, [], by simp⟩

theorem Spread.pairwise_span {span : Item → Span}
    (marks : ∀ item own, Takes item own → (span item).Marks own)
    {items : List Item} {lexemes : List Lexeme}
    (spread : Spread Takes items lexemes)
    (ordered : Lexeme.Ordered lexemes) :
    items.Pairwise fun earlier later =>
      (span earlier).stop ≤ (span later).start := by
  induction spread with
  | nil lexemes => exact .nil
  | @cons first items own rest between here further ih =>
      have restOrdered : Lexeme.Ordered rest :=
        ordered.of_infix ⟨between ++ own, [], by simp⟩
      refine List.pairwise_cons.mpr ⟨?_, ih restOrdered⟩
      intro later isLater
      obtain ⟨ownLater, inside, takes⟩ := further.exists_of_mem later isLater
      obtain ⟨_, last, _, isLast, _, stops⟩ := marks first own here
      obtain ⟨start, _, isStart, _, starts, _⟩ := marks later ownLater takes
      have apart :=
        (List.pairwise_append.mp
          (List.pairwise_append.mp ordered.apart).2.1).2.2 last
          (List.mem_of_getLast? isLast) start
          (inside.subset (List.mem_of_head? isStart))
      omega

end Spread

/-! ### The lexemes of a part -/

/-- The lexemes spell the part, the range of the part marks them, and the
children of the part are spread over them in the same way. -/
inductive Part.Takes : Part → List Lexeme → Prop
  | intro {part : Part} {lexemes : List Lexeme}
      (spelled : lexemes.map Lexeme.token = part.tokens)
      (marks : part.span.Marks lexemes)
      (children : Spread Part.Takes part.children lexemes) :
      Takes part lexemes

theorem Part.Takes.marks {part : Part} {lexemes : List Lexeme}
    (takes : part.Takes lexemes) : part.span.Marks lexemes := by
  cases takes with
  | intro spelled marks children => exact marks

theorem Part.Within.exists_takes {root part : Part} {lexemes : List Lexeme}
    (within : root.Within part) (takes : root.Takes lexemes) :
    ∃ own, own <:+: lexemes ∧ part.Takes own := by
  induction within with
  | root => exact ⟨lexemes, List.infix_refl lexemes, takes⟩
  | child inside isChild ih =>
      obtain ⟨parentOwn, parentInside, parentTakes⟩ := ih
      cases parentTakes with
      | intro spelled marks children =>
          obtain ⟨own, ownInside, ownTakes⟩ :=
            children.exists_of_mem _ isChild
          exact ⟨own, ownInside.trans parentInside, ownTakes⟩

structure Run (parts : List Part) (tokens : List Token)
    (lexemes : List Lexeme) : Prop where
  spelled : lexemes.map Lexeme.token = tokens
  spread : Spread Part.Takes parts lexemes

namespace Run

theorem nil : Run [] [] [] :=
  ⟨rfl, .nil []⟩

theorem token (lexeme : Lexeme) : Run [] [lexeme.token] [lexeme] :=
  ⟨rfl, .nil [lexeme]⟩

theorem append {left right : List Part} {leftTokens rightTokens : List Token}
    {leftLexemes rightLexemes : List Lexeme}
    (leftRun : Run left leftTokens leftLexemes)
    (rightRun : Run right rightTokens rightLexemes) :
    Run (left ++ right) (leftTokens ++ rightTokens)
      (leftLexemes ++ rightLexemes) :=
  ⟨by rw [List.map_append, leftRun.spelled, rightRun.spelled],
    leftRun.spread.append rightRun.spread⟩

theorem part {part : Part} {lexemes : List Lexeme}
    (takes : part.Takes lexemes) : Run [part] part.tokens lexemes := by
  refine ⟨?_, .single takes⟩
  cases takes with
  | intro spelled marks children => exact spelled

theorem takes {part : Part} {lexemes : List Lexeme}
    (run : Run part.children part.tokens lexemes)
    (marks : part.span.Marks lexemes) : part.Takes lexemes :=
  .intro run.spelled marks run.spread

end Run

def Identifier.lexeme (id : Identifier) : Lexeme :=
  { token := id.token
    span := id.span }

def Marker.lexeme (marker : Marker) : Lexeme :=
  { token := marker.token
    span := marker.span }

theorem Identifier.takes (id : Identifier) :
    (Part.identifier id).Takes [id.lexeme] :=
  Run.takes (.token id.lexeme) (.singleton id.lexeme)

theorem Marker.takes (marker : Marker) :
    (Part.marker marker).Takes [marker.lexeme] :=
  Run.takes (.token marker.lexeme) (.singleton marker.lexeme)

private theorem Attributes.takes_keyword (span : Span) :
    (Part.keyword span).Takes [⟨.attributesKeyword, span⟩] :=
  Run.takes (.token ⟨.attributesKeyword, span⟩)
    (.singleton ⟨.attributesKeyword, span⟩)

theorem Field.takes_ofParts (typeId : Identifier) (marker? : Option Marker)
    (id? : Option Identifier)
    (ordered :
      Lexeme.Ordered
        (typeId.lexeme ::
          (marker?.toList.map Marker.lexeme ++
            id?.toList.map Identifier.lexeme))) :
    (Part.field (.ofParts typeId marker? id?)).Takes
      (typeId.lexeme ::
        (marker?.toList.map Marker.lexeme ++
          id?.toList.map Identifier.lexeme)) := by
  have typeMarks : typeId.span.Marks [typeId.lexeme] :=
    .singleton typeId.lexeme
  have typeRun := Run.part typeId.takes
  cases marker? with
  | none =>
      cases id? with
      | none =>
          refine Run.takes typeRun ?_
          change (typeId.span.cover typeId.span).Marks _
          rw [Span.cover_self]
          exact typeMarks
      | some id =>
          exact Run.takes (typeRun.append (.part id.takes))
            (typeMarks.cover [] (.singleton id.lexeme) ordered)
  | some marker =>
      cases id? with
      | none =>
          exact Run.takes (typeRun.append (.part marker.takes))
            (typeMarks.cover [] (.singleton marker.lexeme) ordered)
      | some id =>
          exact
            Run.takes
              (typeRun.append
                ((Run.part marker.takes).append (.part id.takes)))
              (typeMarks.cover [marker.lexeme] (.singleton id.lexeme) ordered)

def Field.Before (earlier : List Field) (lexemes : List Lexeme) : Prop :=
  Run (earlier.map .field) (followed .comma (earlier.map Field.tokens))
    lexemes

theorem FieldList.takes_ofParts {opening closing : Span}
    {earlier : List Field} {last : Field} {inner own : List Lexeme}
    (before : Field.Before earlier inner)
    (takes : (Part.field last).Takes own)
    (ordered :
      Lexeme.Ordered
        (⟨.leftParen, opening⟩ ::
          (inner ++ own ++ [⟨.rightParen, closing⟩]))) :
    (Part.fields (.ofParts opening (earlier ++ [last]) closing)).Takes
      (⟨.leftParen, opening⟩ ::
        (inner ++ own ++ [⟨.rightParen, closing⟩])) := by
  have bracketed :=
    (Run.token ⟨.leftParen, opening⟩).append
      ((before.append (.part takes)).append (.token ⟨.rightParen, closing⟩))
  refine Run.takes ?_ ?_
  · simpa [Part.children, Part.tokens, FieldList.ofParts, FieldList.tokens,
      intercalate_concat] using bracketed
  · exact
      (Span.Marks.singleton ⟨.leftParen, opening⟩).cover (inner ++ own)
        (.singleton ⟨.rightParen, closing⟩) ordered

theorem Constructor.takes_ofParts_none (id : Identifier) :
    (Part.constructor (.ofParts id none)).Takes [id.lexeme] := by
  refine Run.takes (.part id.takes) ?_
  change (id.span.cover id.span).Marks _
  rw [Span.cover_self]
  exact .singleton id.lexeme

theorem Constructor.takes_ofParts_some {id : Identifier} {list : FieldList}
    {own : List Lexeme} (takes : (Part.fields list).Takes own)
    (ordered : Lexeme.Ordered (id.lexeme :: own)) :
    (Part.constructor (.ofParts id (some list))).Takes (id.lexeme :: own) := by
  refine Run.takes ?_ ?_
  · simpa [Part.children, Part.tokens, Constructor.ofParts,
      Constructor.tokens] using (Run.part id.takes).append (.part takes)
  · exact
      (Span.Marks.singleton id.lexeme).cover [] takes.marks ordered

def Constructor.Before (earlier : List Constructor)
    (lexemes : List Lexeme) : Prop :=
  Run (earlier.map .constructor)
    (followed .bar (earlier.map Constructor.tokens)) lexemes

/-- The lexemes spell a body, its parts are among them, and the last part ends
where they end. -/
structure Body.Takes (body : Body) (lexemes : List Lexeme) : Prop where
  run : Run body.parts body.tokens lexemes
  last :
    ∃ span front own,
      body.lastSpan? = some span ∧ lexemes = front ++ own ∧ span.Marks own

theorem Body.takes_product {list : FieldList} {own : List Lexeme}
    (takes : (Part.fields list).Takes own) : (Body.product list).Takes own :=
  { run := .part takes
    last := ⟨list.span, [], own, rfl, rfl, takes.marks⟩ }

theorem Body.takes_sum {earlier : List Constructor} {last : Constructor}
    {inner own : List Lexeme} (before : Constructor.Before earlier inner)
    (takes : (Part.constructor last).Takes own) :
    (Body.sum (earlier ++ [last])).Takes (inner ++ own) := by
  refine
    { run := ?_
      last := ⟨last.span, inner, own, ?_, rfl, takes.marks⟩ }
  · simpa [Body.parts, Body.tokens, intercalate_concat, Part.tokens] using
      before.append (.part takes)
  · simp [Body.lastSpan?]

theorem Definition.takes_ofParts_none {typeId : Identifier} {body : Body}
    {equals : Span} {inner : List Lexeme} (takes : body.Takes inner)
    (ordered :
      Lexeme.Ordered (typeId.lexeme :: ⟨.equals, equals⟩ :: inner)) :
    (Part.definition (.ofParts typeId body none)).Takes
      (typeId.lexeme :: ⟨.equals, equals⟩ :: inner) := by
  obtain ⟨run, span, front, own, isLast, rfl, marks⟩ := takes
  refine Run.takes ?_ ?_
  · simpa [Part.children, Part.tokens, Definition.ofParts,
      Definition.tokens] using
      (Run.part typeId.takes).append ((Run.token ⟨.equals, equals⟩).append run)
  · simp only [Part.span, Definition.ofParts, isLast, Option.getD_some]
    exact
      (Span.Marks.singleton typeId.lexeme).cover (⟨.equals, equals⟩ :: front)
        marks ordered

theorem Definition.takes_ofParts_some {typeId : Identifier} {body : Body}
    {equals keyword : Span} {list : FieldList} {inner own : List Lexeme}
    (bodyTakes : body.Takes inner) (takes : (Part.fields list).Takes own)
    (ordered :
      Lexeme.Ordered
        (typeId.lexeme :: ⟨.equals, equals⟩ ::
          (inner ++ ⟨.attributesKeyword, keyword⟩ :: own))) :
    (Part.definition (.ofParts typeId body (some ⟨keyword, list⟩))).Takes
      (typeId.lexeme :: ⟨.equals, equals⟩ ::
        (inner ++ ⟨.attributesKeyword, keyword⟩ :: own)) := by
  have clause :=
    (Run.part (Attributes.takes_keyword keyword)).append (.part takes)
  refine Run.takes ?_ ?_
  · simpa [Part.children, Part.tokens, Definition.ofParts,
      Definition.tokens, Attributes.parts, Attributes.tokens] using
      (Run.part typeId.takes).append
        ((Run.token ⟨.equals, equals⟩).append (bodyTakes.run.append clause))
  · have marks :=
      (Span.Marks.singleton typeId.lexeme).cover
        (⟨.equals, equals⟩ :: (inner ++ [⟨.attributesKeyword, keyword⟩]))
        takes.marks
    simp only [List.append_assoc, List.cons_append, List.nil_append] at marks
    exact marks ordered

theorem Module.takes_ofParts {keyword brace closing : Span} {id : Identifier}
    {definitions : List Definition} {inner : List Lexeme}
    (run :
      Run (definitions.map .definition)
        (definitions.flatMap Definition.tokens) inner)
    (ordered :
      Lexeme.Ordered
        (⟨.moduleKeyword, keyword⟩ :: id.lexeme :: ⟨.leftBrace, brace⟩ ::
          (inner ++ [⟨.rightBrace, closing⟩]))) :
    (Part.module (.ofParts keyword id definitions closing)).Takes
      (⟨.moduleKeyword, keyword⟩ :: id.lexeme :: ⟨.leftBrace, brace⟩ ::
        (inner ++ [⟨.rightBrace, closing⟩])) := by
  refine Run.takes ?_ ?_
  · simpa [Part.children, Part.tokens, Module.ofParts, Module.tokens] using
      (Run.token ⟨.moduleKeyword, keyword⟩).append
        ((Run.part id.takes).append
          ((Run.token ⟨.leftBrace, brace⟩).append
            (run.append (.token ⟨.rightBrace, closing⟩))))
  · exact
      (Span.Marks.singleton ⟨.moduleKeyword, keyword⟩).cover
        (id.lexeme :: ⟨.leftBrace, brace⟩ :: inner)
        (.singleton ⟨.rightBrace, closing⟩) ordered

end Asdl.Concrete
