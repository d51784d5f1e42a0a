/-
The lexemes that a reader has read, and the parts that it has put over them.

Every state accounts for all lexemes read so far: the finished parts take
theirs, and the unfinished ones are waiting at the end.  A move keeps the
account, because the range of a new part runs from its first lexeme to its
last.  A tree read from a source therefore takes all lexemes of the source.
-/

import Asdl.Proofs.Concrete.Part

namespace Asdl

theorem Lexeme.eq_mk_of_token_eq {lexeme : Lexeme} {token : Token}
    (same : lexeme.token = token) : lexeme = ⟨token, lexeme.span⟩ := by
  rw [← same]

namespace Concrete

def FieldStage.lexemes : FieldStage → List Lexeme
  | start => []
  | typed typeId => [typeId.lexeme]
  | marked typeId marker => [typeId.lexeme, marker.lexeme]
  | named typeId marker? id =>
      typeId.lexeme :: (marker?.toList.map Marker.lexeme ++ [id.lexeme])

def Opening.Takes (opening : Opening) (lexemes : List Lexeme) : Prop :=
  ∃ brace inner,
    lexemes =
        ⟨.moduleKeyword, opening.keyword⟩ :: opening.id.lexeme ::
          ⟨.leftBrace, brace⟩ :: inner ∧
      Run (opening.definitions.map .definition)
        (opening.definitions.flatMap Definition.tokens) inner

def Owner.Takes (owner : Owner) (lexemes : List Lexeme) : Prop :=
  match owner with
  | product typeId =>
      ∃ equals, lexemes = [typeId.lexeme, ⟨.equals, equals⟩]
  | constructor typeId earlier id =>
      ∃ equals inner,
        lexemes =
            typeId.lexeme :: ⟨.equals, equals⟩ :: (inner ++ [id.lexeme]) ∧
          Constructor.Before earlier inner
  | attributes typeId body keyword =>
      ∃ equals inner,
        lexemes =
            typeId.lexeme :: ⟨.equals, equals⟩ ::
              (inner ++ [⟨.attributesKeyword, keyword⟩]) ∧
          body.Takes inner

def State.Takes (state : State) (lexemes : List Lexeme) : Prop :=
  match state with
  | start => lexemes = []
  | moduleId keyword => lexemes = [⟨.moduleKeyword, keyword⟩]
  | moduleBrace keyword id =>
      lexemes = [⟨.moduleKeyword, keyword⟩, id.lexeme]
  | between opening => opening.Takes lexemes
  | equals opening typeId =>
      ∃ front, lexemes = front ++ [typeId.lexeme] ∧ opening.Takes front
  | body opening typeId =>
      ∃ front equals,
        lexemes = front ++ [typeId.lexeme, ⟨.equals, equals⟩] ∧
          opening.Takes front
  | alternative opening typeId earlier =>
      ∃ front equals inner,
        lexemes = front ++ typeId.lexeme :: ⟨.equals, equals⟩ :: inner ∧
          opening.Takes front ∧ Constructor.Before earlier inner
  | constructorId opening typeId earlier id =>
      ∃ front equals inner,
        lexemes =
            front ++
              typeId.lexeme :: ⟨.equals, equals⟩ :: (inner ++ [id.lexeme]) ∧
          opening.Takes front ∧ Constructor.Before earlier inner
  | afterConstructor opening typeId earlier last =>
      ∃ front equals inner own,
        lexemes =
            front ++ typeId.lexeme :: ⟨.equals, equals⟩ :: (inner ++ own) ∧
          opening.Takes front ∧ Constructor.Before earlier inner ∧
          (Part.constructor last).Takes own
  | afterProduct opening typeId members =>
      ∃ front equals own,
        lexemes = front ++ typeId.lexeme :: ⟨.equals, equals⟩ :: own ∧
          opening.Takes front ∧ (Part.fields members).Takes own
  | attributesList opening typeId whole keyword =>
      ∃ front equals inner,
        lexemes =
            front ++
              typeId.lexeme :: ⟨.equals, equals⟩ ::
                (inner ++ [⟨.attributesKeyword, keyword⟩]) ∧
          opening.Takes front ∧ whole.Takes inner
  | fields opening owner bracket earlier stage =>
      ∃ front mine inner,
        lexemes =
            front ++
              (mine ++ ⟨.leftParen, bracket⟩ :: (inner ++ stage.lexemes)) ∧
          opening.Takes front ∧ owner.Takes mine ∧ Field.Before earlier inner
  | closed module => (Part.module module).Takes lexemes

/-! ### A move keeps the account -/

variable {lexeme : Lexeme} {lexemes : List Lexeme}

theorem Identifier.lexeme_of_ofLexeme? {id : Identifier}
    (canonical : lexeme.token.IsCanonical)
    (named : Identifier.ofLexeme? lexeme = some id) : id.lexeme = lexeme := by
  have sameToken := Identifier.token_of_ofLexeme? canonical named
  obtain ⟨name, _, rfl⟩ := Option.map_eq_some_iff.mp named
  rw [Identifier.lexeme, sameToken]

theorem Marker.lexeme_of_ofLexeme? {marker : Marker}
    (marked : Marker.ofLexeme? lexeme = some marker) :
    marker.lexeme = lexeme := by
  obtain ⟨token, span⟩ := lexeme
  unfold Marker.ofLexeme? at marked
  split at marked
  · rename_i isQuestion
    cases isQuestion
    cases marked
    rfl
  · rename_i isStar
    cases isStar
    cases marked
    rfl
  · cases marked

private theorem FieldStage.lexemes_of_next? {stage after : FieldStage}
    (canonical : lexeme.token.IsCanonical)
    (moved : stage.next? lexeme = some after) :
    after.lexemes = stage.lexemes ++ [lexeme] := by
  cases stage with
  | start =>
      obtain ⟨typeId, named, rfl⟩ := Option.map_eq_some_iff.mp moved
      rw [← Identifier.lexeme_of_ofLexeme? canonical named]
      rfl
  | typed typeId =>
      simp only [next?] at moved
      split at moved
      · rename_i marker marked
        cases moved
        rw [← Marker.lexeme_of_ofLexeme? marked]
        rfl
      · obtain ⟨id, named, rfl⟩ := Option.map_eq_some_iff.mp moved
        rw [← Identifier.lexeme_of_ofLexeme? canonical named]
        rfl
  | marked typeId marker =>
      obtain ⟨id, named, rfl⟩ := Option.map_eq_some_iff.mp moved
      rw [← Identifier.lexeme_of_ofLexeme? canonical named]
      rfl
  | named typeId marker? id =>
      cases moved

theorem FieldStage.takes_of_field? {stage : FieldStage} {field : Field}
    (ordered : Lexeme.Ordered stage.lexemes)
    (whole : stage.field? = some field) :
    (Part.field field).Takes stage.lexemes := by
  cases stage with
  | start =>
      cases whole
  | typed typeId =>
      cases whole
      exact Field.takes_ofParts typeId none none ordered
  | marked typeId marker =>
      cases whole
      exact Field.takes_ofParts typeId (some marker) none ordered
  | named typeId marker? id =>
      cases whole
      exact Field.takes_ofParts typeId marker? (some id) ordered

theorem Opening.Takes.add {opening : Opening} {definition : Definition}
    {front own : List Lexeme} (takes : opening.Takes front)
    (whole : (Part.definition definition).Takes own) :
    (opening.add definition).Takes (front ++ own) := by
  obtain ⟨brace, inner, rfl, run⟩ := takes
  refine ⟨brace, inner ++ own, rfl, ?_⟩
  simpa [Opening.add, Part.tokens] using run.append (.part whole)

theorem Opening.takes_of_next? {opening : Opening} {after : State}
    (canonical : lexeme.token.IsCanonical)
    (ordered : Lexeme.Ordered (lexemes ++ [lexeme]))
    (takes : opening.Takes lexemes)
    (moved : opening.next? lexeme = some after) :
    after.Takes (lexemes ++ [lexeme]) := by
  unfold next? at moved
  split at moved
  · rename_i isBrace
    cases moved
    obtain ⟨brace, inner, rfl, run⟩ := takes
    rw [Lexeme.eq_mk_of_token_eq isBrace] at ordered ⊢
    exact Module.takes_ofParts run ordered
  · obtain ⟨typeId, named, rfl⟩ := Option.map_eq_some_iff.mp moved
    refine ⟨lexemes, ?_, takes⟩
    rw [Identifier.lexeme_of_ofLexeme? canonical named]

theorem Body.takes_of_next? {opening : Opening} {typeId : Identifier}
    {body : Body} {after : State} {front inner : List Lexeme} {equals : Span}
    (canonical : lexeme.token.IsCanonical)
    (ordered :
      Lexeme.Ordered
        (front ++ typeId.lexeme :: ⟨.equals, equals⟩ :: inner ++ [lexeme]))
    (takes : opening.Takes front) (bodyTakes : body.Takes inner)
    (moved : Body.next? opening typeId body lexeme = some after) :
    after.Takes
      (front ++ typeId.lexeme :: ⟨.equals, equals⟩ :: inner ++ [lexeme]) := by
  unfold next? at moved
  split at moved
  · rename_i isKeyword
    cases moved
    refine ⟨front, equals, inner, ?_, takes, bodyTakes⟩
    rw [Lexeme.eq_mk_of_token_eq isKeyword]
    simp
  · have definitionTakes :=
      Definition.takes_ofParts_none bodyTakes
        (ordered.of_infix ⟨front, [lexeme], rfl⟩)
    exact Opening.takes_of_next? canonical ordered (takes.add definitionTakes)
      moved

theorem Constructor.takes_of_next? {opening : Opening} {typeId : Identifier}
    {earlier : List Constructor} {last : Constructor} {after : State}
    {front inner own : List Lexeme} {equals : Span}
    (canonical : lexeme.token.IsCanonical)
    (ordered :
      Lexeme.Ordered
        (front ++ typeId.lexeme :: ⟨.equals, equals⟩ :: (inner ++ own) ++
          [lexeme]))
    (takes : opening.Takes front) (before : Constructor.Before earlier inner)
    (lastTakes : (Part.constructor last).Takes own)
    (moved :
      Constructor.next? opening typeId earlier last lexeme = some after) :
    after.Takes
      (front ++ typeId.lexeme :: ⟨.equals, equals⟩ :: (inner ++ own) ++
        [lexeme]) := by
  unfold next? at moved
  split at moved
  · rename_i isBar
    cases moved
    refine ⟨front, equals, inner ++ own ++ [lexeme], by simp, takes, ?_⟩
    have longer := (before.append (.part lastTakes)).append (.token lexeme)
    simpa [Constructor.Before, followed_concat, isBar, Part.tokens] using
      longer
  · exact Body.takes_of_next? canonical ordered takes
      (Body.takes_sum before lastTakes) moved

private theorem Owner.takes_close {opening : Opening} {owner : Owner}
    {list : FieldList} {front mine own : List Lexeme}
    (ordered : Lexeme.Ordered (front ++ (mine ++ own)))
    (takes : opening.Takes front) (ownerTakes : owner.Takes mine)
    (listTakes : (Part.fields list).Takes own) :
    (owner.close opening list).Takes (front ++ (mine ++ own)) := by
  cases owner with
  | product typeId =>
      obtain ⟨equals, rfl⟩ := ownerTakes
      exact ⟨front, equals, own, rfl, takes, listTakes⟩
  | constructor typeId earlier id =>
      obtain ⟨equals, inner, rfl, before⟩ := ownerTakes
      have constructorOrdered : Lexeme.Ordered (id.lexeme :: own) :=
        ordered.of_infix
          ⟨front ++ typeId.lexeme :: ⟨.equals, equals⟩ :: inner, [],
            by simp⟩
      exact
        ⟨front, equals, inner, id.lexeme :: own, by simp, takes, before,
          Constructor.takes_ofParts_some listTakes constructorOrdered⟩
  | attributes typeId body keyword =>
      obtain ⟨equals, inner, rfl, bodyTakes⟩ := ownerTakes
      have definitionOrdered :
          Lexeme.Ordered
            (typeId.lexeme :: ⟨.equals, equals⟩ ::
              (inner ++ ⟨.attributesKeyword, keyword⟩ :: own)) :=
        ordered.of_infix ⟨front, [], by simp⟩
      simpa [close, State.Takes] using
        takes.add
          (Definition.takes_ofParts_some bodyTakes listTakes definitionOrdered)

theorem Owner.takes_of_next? {opening : Opening} {owner : Owner}
    {bracket : Span} {earlier : List Field} {stage : FieldStage}
    {after : State} (canonical : lexeme.token.IsCanonical)
    (ordered : Lexeme.Ordered (lexemes ++ [lexeme]))
    (takes : (State.fields opening owner bracket earlier stage).Takes lexemes)
    (moved :
      owner.next? opening bracket earlier stage lexeme = some after) :
    after.Takes (lexemes ++ [lexeme]) := by
  obtain ⟨front, mine, inner, rfl, openingTakes, ownerTakes, before⟩ := takes
  have stageOrdered : Lexeme.Ordered stage.lexemes :=
    ordered.of_infix
      ⟨front ++ (mine ++ ⟨.leftParen, bracket⟩ :: inner), [lexeme], by simp⟩
  unfold next? at moved
  split at moved
  · rename_i longer isLonger
    cases moved
    refine ⟨front, mine, inner, ?_, openingTakes, ownerTakes, before⟩
    rw [FieldStage.lexemes_of_next? canonical isLonger]
    simp
  · split at moved
    · rename_i field isField isComma
      cases moved
      have fieldTakes := FieldStage.takes_of_field? stageOrdered isField
      refine
        ⟨front, mine, inner ++ stage.lexemes ++ [lexeme], ?_, openingTakes,
          ownerTakes, ?_⟩
      · simp [FieldStage.lexemes]
      · have longer := (before.append (.part fieldTakes)).append (.token lexeme)
        simpa [Field.Before, followed_concat, isComma, Part.tokens] using
          longer
    · rename_i field isField isBracket
      cases moved
      have fieldTakes := FieldStage.takes_of_field? stageOrdered isField
      rw [Lexeme.eq_mk_of_token_eq isBracket] at ordered ⊢
      have listOrdered :
          Lexeme.Ordered
            (⟨.leftParen, bracket⟩ ::
              (inner ++ stage.lexemes ++ [⟨.rightParen, lexeme.span⟩])) :=
        ordered.of_infix ⟨front ++ mine, [], by simp⟩
      have listTakes := FieldList.takes_ofParts before fieldTakes listOrdered
      have reassociated :
          front ++
                (mine ++ ⟨.leftParen, bracket⟩ :: (inner ++ stage.lexemes)) ++
              [⟨.rightParen, lexeme.span⟩] =
            front ++
              (mine ++
                ⟨.leftParen, bracket⟩ ::
                  (inner ++ stage.lexemes ++
                    [⟨.rightParen, lexeme.span⟩])) := by
        simp
      rw [reassociated] at ordered ⊢
      exact Owner.takes_close ordered openingTakes ownerTakes listTakes
    · cases moved

/-- A move puts its lexeme behind those that were read before. -/
theorem State.takes_of_next? {state after : State}
    (canonical : lexeme.token.IsCanonical)
    (ordered : Lexeme.Ordered (lexemes ++ [lexeme]))
    (takes : state.Takes lexemes) (moved : state.next? lexeme = some after) :
    after.Takes (lexemes ++ [lexeme]) := by
  cases state with
  | start =>
      obtain rfl := takes
      simp only [next?] at moved
      split at moved
      · rename_i isKeyword
        cases moved
        rw [Lexeme.eq_mk_of_token_eq isKeyword]
        rfl
      · cases moved
  | moduleId keyword =>
      obtain rfl := takes
      obtain ⟨id, named, rfl⟩ := Option.map_eq_some_iff.mp moved
      rw [← Identifier.lexeme_of_ofLexeme? canonical named]
      rfl
  | moduleBrace keyword id =>
      obtain rfl := takes
      simp only [next?] at moved
      split at moved
      · rename_i isBrace
        cases moved
        refine ⟨lexeme.span, [], ?_, .nil⟩
        rw [Lexeme.eq_mk_of_token_eq isBrace]
        rfl
      · cases moved
  | between opening =>
      exact Opening.takes_of_next? canonical ordered takes moved
  | equals opening typeId =>
      obtain ⟨front, rfl, openingTakes⟩ := takes
      simp only [next?] at moved
      split at moved
      · rename_i isEquals
        cases moved
        refine ⟨front, lexeme.span, ?_, openingTakes⟩
        rw [Lexeme.eq_mk_of_token_eq isEquals]
        simp
      · cases moved
  | body opening typeId =>
      obtain ⟨front, equals, rfl, openingTakes⟩ := takes
      simp only [next?] at moved
      split at moved
      · rename_i isBracket
        cases moved
        refine
          ⟨front, [typeId.lexeme, ⟨.equals, equals⟩], [], ?_, openingTakes,
            ⟨equals, rfl⟩, .nil⟩
        rw [Lexeme.eq_mk_of_token_eq isBracket]
        simp [FieldStage.lexemes]
      · obtain ⟨id, named, rfl⟩ := Option.map_eq_some_iff.mp moved
        refine ⟨front, equals, [], ?_, openingTakes, .nil⟩
        rw [Identifier.lexeme_of_ofLexeme? canonical named]
        simp
  | alternative opening typeId earlier =>
      obtain ⟨front, equals, inner, rfl, openingTakes, before⟩ := takes
      obtain ⟨id, named, rfl⟩ := Option.map_eq_some_iff.mp moved
      refine ⟨front, equals, inner, ?_, openingTakes, before⟩
      rw [Identifier.lexeme_of_ofLexeme? canonical named]
      simp
  | constructorId opening typeId earlier id =>
      obtain ⟨front, equals, inner, rfl, openingTakes, before⟩ := takes
      simp only [next?] at moved
      split at moved
      · rename_i isBracket
        cases moved
        refine
          ⟨front, typeId.lexeme :: ⟨.equals, equals⟩ :: (inner ++ [id.lexeme]),
            [], ?_, openingTakes, ⟨equals, inner, rfl, before⟩, .nil⟩
        rw [Lexeme.eq_mk_of_token_eq isBracket]
        simp [FieldStage.lexemes]
      · exact Constructor.takes_of_next? canonical ordered openingTakes before
          (Constructor.takes_ofParts_none id) moved
  | afterConstructor opening typeId earlier last =>
      obtain ⟨front, equals, inner, own, rfl, openingTakes, before, lastTakes⟩ :=
        takes
      exact Constructor.takes_of_next? canonical ordered openingTakes before
        lastTakes moved
  | afterProduct opening typeId members =>
      obtain ⟨front, equals, own, rfl, openingTakes, membersTakes⟩ := takes
      exact Body.takes_of_next? canonical ordered openingTakes
        (Body.takes_product membersTakes) moved
  | attributesList opening typeId whole keyword =>
      obtain ⟨front, equals, inner, rfl, openingTakes, wholeTakes⟩ := takes
      simp only [next?] at moved
      split at moved
      · rename_i isBracket
        cases moved
        refine
          ⟨front,
            typeId.lexeme :: ⟨.equals, equals⟩ ::
              (inner ++ [⟨.attributesKeyword, keyword⟩]),
            [], ?_, openingTakes, ⟨equals, inner, rfl, wholeTakes⟩, .nil⟩
        rw [Lexeme.eq_mk_of_token_eq isBracket]
        simp [FieldStage.lexemes]
      · cases moved
  | fields opening owner bracket earlier stage =>
      exact Owner.takes_of_next? canonical ordered takes moved
  | closed module =>
      cases moved

private theorem State.Takes.of_read {size : Nat} {state : State}
    {module : Module}
    {front : List Lexeme} (takes : state.Takes front)
    (canonical : ∀ lexeme ∈ lexemes, lexeme.token.IsCanonical)
    (ordered : Lexeme.Ordered (front ++ lexemes))
    (accepted : state.read size lexemes = .ok module) :
    (Part.module module).Takes (front ++ lexemes) := by
  induction lexemes generalizing state front with
  | nil =>
      cases state with
      | closed closedModule =>
          cases accepted
          rw [List.append_nil]
          exact takes
      | _ =>
          cases accepted
  | cons first rest ih =>
      obtain ⟨firstCanonical, restCanonical⟩ :=
        List.forall_mem_cons.mp canonical
      simp only [State.read] at accepted
      split at accepted
      · rename_i after moved
        have firstOrdered : Lexeme.Ordered (front ++ [first]) :=
          ordered.of_infix ⟨[], rest, by simp⟩
        have afterTakes :=
          State.takes_of_next? firstCanonical firstOrdered takes moved
        rw [List.append_cons] at ordered ⊢
        exact ih afterTakes restCanonical ordered accepted
      · cases accepted

/-- A tree read from a source takes all lexemes of the source. -/
theorem Module.takes_of_parse {source : String} {module : Module}
    (parsed : Module.parse source = .ok module) :
    ∃ tokenization,
      tokenize source = .ok tokenization ∧
        Lexeme.Ordered tokenization.lexemes ∧
        (Part.module module).Takes tokenization.lexemes := by
  unfold Module.parse at parsed
  split at parsed
  · cases parsed
  · rename_i tokenization tokenized
    obtain ⟨decomposes, _⟩ := (Cursor.tokenize_eq_ok_iff _ _).mp tokenized
    have ordered := decomposes.ordered_of_le.1
    have startTakes : State.start.Takes [] := rfl
    have moduleTakes :=
      startTakes.of_read (Cursor.isCanonical_of_tokenize tokenized) ordered
        parsed
    exact ⟨tokenization, tokenized, ordered, moduleTakes⟩

end Concrete

end Asdl
