/-
Reading back the tokens that a tree writes down.

The reader goes through the tokens of a part of a tree as the grammar does, and
then stands in a state that the part decides.  A definition may end in one of
several states; all of them go on as between two definitions, except that the
word `attributes` opens a clause if the definition has none.  A tree with
well-formed definitions is therefore read back from its tokens exactly when it
is separated, and the trees read from a source are the well-formed ones that
write down its tokens.
-/

import Asdl.Proofs.Concrete.WellFormed

namespace Asdl.Concrete

theorem Identifier.word?_token (id : Identifier) :
    id.token.word? = some id.name :=
  Token.word?_ofWord id.name

theorem Identifier.token_ne {token : Token} (id : Identifier)
    (noWord : token.word? = none) : id.token ≠ token := by
  intro same
  have spelled := id.word?_token
  rw [same, noWord] at spelled
  cases spelled

private theorem Identifier.token_ne_attributesKeyword {id : Identifier}
    (other : id.name ≠ "attributes") :
    id.token ≠ .attributesKeyword := by
  intro same
  have spelled := id.word?_token
  rw [same] at spelled
  exact other (Option.some.inj spelled).symm

theorem Identifier.ofLexeme?_token (id : Identifier) :
    Identifier.ofLexeme? (.ofToken id.token) = some id.eraseSpans := by
  rw [ofLexeme?, Lexeme.token_ofToken, word?_token]
  rfl

theorem Marker.ofLexeme?_token (marker : Marker) :
    Marker.ofLexeme? (.ofToken marker.token) = some marker.eraseSpans := by
  obtain ⟨kind, span⟩ := marker
  cases kind with
  | question => rfl
  | star => rfl

private theorem Marker.ofLexeme?_token_of_identifier (id : Identifier) :
    Marker.ofLexeme? (.ofToken id.token) = none := by
  unfold ofLexeme?
  split
  · rename_i isQuestion
    exact absurd isQuestion (id.token_ne rfl)
  · rename_i isStar
    exact absurd isStar (id.token_ne rfl)
  · rfl

def FieldStage.behind (field : Field) : FieldStage :=
  match field.marker?, field.id? with
  | none, none => typed field.typeId
  | some marker, none => marked field.typeId marker
  | marker?, some id => named field.typeId marker? id

theorem FieldStage.field?_behind (field : Field) :
    (FieldStage.behind field.eraseSpans).field? = some field.eraseSpans := by
  obtain ⟨typeId, marker?, id?, span⟩ := field
  cases marker? <;> cases id? <;> rfl

theorem FieldStage.next?_behind (field : Field) (token : Token)
    (noWord : token.word? = none)
    (noMarker : Marker.ofLexeme? (.ofToken token) = none) :
    (FieldStage.behind field).next? (.ofToken token) = none := by
  have noId : Identifier.ofLexeme? (.ofToken token) = none := by
    rw [Identifier.ofLexeme?, Lexeme.token_ofToken, noWord]
    rfl
  obtain ⟨typeId, marker?, id?, span⟩ := field
  cases marker? <;> cases id? <;> simp [behind, next?, noId, noMarker]

theorem State.next?_fields_of_stage (opening : Opening) (owner : Owner)
    (bracket : Span) (earlier : List Field) {stage longer : FieldStage}
    {lexeme : Lexeme} (moved : stage.next? lexeme = some longer) :
    (State.fields opening owner bracket earlier stage).next? lexeme =
      some (.fields opening owner bracket earlier longer) := by
  simp only [next?, Owner.next?, moved]

theorem Field.follow?_tokens (opening : Opening) (owner : Owner)
    (earlier : List Field) (field : Field) :
    (State.fields opening owner .zero earlier .start).follow? field.tokens =
      some (.fields opening owner .zero earlier (.behind field.eraseSpans)) := by
  obtain ⟨typeId, marker?, id?, span⟩ := field
  have typed :
      FieldStage.start.next? (.ofToken typeId.token) =
        some (.typed typeId.eraseSpans) := by
    rw [FieldStage.next?, Identifier.ofLexeme?_token]
    rfl
  have marked (marker : Marker) :
      (FieldStage.typed typeId.eraseSpans).next? (.ofToken marker.token) =
        some (.marked typeId.eraseSpans marker.eraseSpans) := by
    rw [FieldStage.next?, Marker.ofLexeme?_token]
  have namedTyped (id : Identifier) :
      (FieldStage.typed typeId.eraseSpans).next? (.ofToken id.token) =
        some (.named typeId.eraseSpans none id.eraseSpans) := by
    rw [FieldStage.next?, Marker.ofLexeme?_token_of_identifier,
      Identifier.ofLexeme?_token]
    rfl
  have namedMarked (marker : Marker) (id : Identifier) :
      (FieldStage.marked typeId.eraseSpans marker.eraseSpans).next?
          (.ofToken id.token) =
        some
          (.named typeId.eraseSpans (some marker.eraseSpans)
            id.eraseSpans) := by
    rw [FieldStage.next?, Identifier.ofLexeme?_token]
    rfl
  have step {stage longer : FieldStage} {token : Token}
      (moved : stage.next? (.ofToken token) = some longer)
      (rest : List Token) :=
    State.follow?_cons_of_next?
      (State.next?_fields_of_stage opening owner .zero earlier moved) rest
  change State.follow? _ (typeId.token :: _) = _
  rw [step typed]
  cases marker? with
  | none =>
      cases id? with
      | none => rfl
      | some id => exact step (namedTyped id) []
  | some marker =>
      change State.follow? _ (marker.token :: _) = _
      rw [step (marked marker)]
      cases id? with
      | none => rfl
      | some id => exact step (namedMarked marker id) []

private theorem State.next?_fields_comma (opening : Opening) (owner : Owner)
    (earlier : List Field) (field : Field) :
    (State.fields opening owner .zero earlier
        (.behind field.eraseSpans)).next? (.ofToken .comma) =
      some
        (.fields opening owner .zero (earlier ++ [field.eraseSpans])
          .start) := by
  simp only [next?, Owner.next?, FieldStage.field?_behind,
    FieldStage.next?_behind field.eraseSpans .comma rfl rfl,
    Lexeme.token_ofToken]

private theorem State.next?_fields_rightParen (opening : Opening)
    (owner : Owner)
    (earlier : List Field) (field : Field) :
    (State.fields opening owner .zero earlier
        (.behind field.eraseSpans)).next? (.ofToken .rightParen) =
      some
        (owner.close opening
          (.ofParts .zero (earlier ++ [field.eraseSpans]) .zero)) := by
  simp only [next?, Owner.next?, FieldStage.field?_behind,
    FieldStage.next?_behind field.eraseSpans .rightParen rfl rfl,
    Lexeme.token_ofToken]
  rfl

theorem Field.follow?_tokens_of_list (opening : Opening) (owner : Owner)
    (earlier fields : List Field) (nonempty : fields ≠ []) :
    (State.fields opening owner .zero earlier .start).follow?
        (List.intercalate [.comma] (fields.map Field.tokens) ++
          [.rightParen]) =
      some
        (owner.close opening
          (.ofParts .zero (earlier ++ fields.map Field.eraseSpans) .zero)) := by
  induction fields generalizing earlier with
  | nil => exact absurd rfl nonempty
  | cons field rest ih =>
      have whole := Field.follow?_tokens opening owner earlier field
      cases rest with
      | nil =>
          simp only [List.map_cons, List.map_nil, List.intercalate_singleton]
          rw [State.follow?_append_of_follow? whole,
            State.follow?_cons_of_next?
              (State.next?_fields_rightParen opening owner earlier field)]
          rfl
      | cons second others =>
          have remaining :=
            ih (earlier ++ [field.eraseSpans]) (List.cons_ne_nil _ _)
          simp only [List.map_cons, List.intercalate_cons_cons,
            List.append_assoc, List.cons_append, List.nil_append] at remaining ⊢
          rw [State.follow?_append_of_follow? whole,
            State.follow?_cons_of_next?
              (State.next?_fields_comma opening owner earlier field),
            remaining]

theorem FieldList.follow?_tokens {state : State} {opening : Opening}
    {owner : Owner}
    (opens :
      state.next? (.ofToken .leftParen) =
        some (.fields opening owner .zero [] .start))
    (list : FieldList) (nonempty : list.fields ≠ []) :
    state.follow? list.tokens =
      some (owner.close opening list.eraseSpans) := by
  rw [FieldList.tokens, List.cons_append, State.follow?_cons_of_next? opens,
    Field.follow?_tokens_of_list opening owner [] list.fields nonempty]
  rfl

def State.behindConstructor (opening : Opening) (typeId : Identifier)
    (earlier : List Constructor) (last : Constructor) : State :=
  match last.fields? with
  | none => constructorId opening typeId earlier last.id
  | some _ => afterConstructor opening typeId earlier last

private theorem State.next?_behindConstructor (opening : Opening)
    (typeId : Identifier) (earlier : List Constructor) (last : Constructor)
    {token : Token} (noBracket : token ≠ .leftParen) :
    (State.behindConstructor opening typeId earlier last.eraseSpans).next?
        (.ofToken token) =
      Constructor.next? opening typeId earlier last.eraseSpans
        (.ofToken token) := by
  obtain ⟨id, fields?, span⟩ := last
  cases fields? with
  | none => exact if_neg noBracket
  | some fields => rfl

def State.NamesConstructor (state : State) (opening : Opening)
    (typeId : Identifier) (earlier : List Constructor) : Prop :=
  ∀ id : Identifier,
    state.next? (.ofToken id.token) =
      some (.constructorId opening typeId earlier id.eraseSpans)

private theorem State.namesConstructor_alternative (opening : Opening)
    (typeId : Identifier) (earlier : List Constructor) :
    (State.alternative opening typeId earlier).NamesConstructor opening typeId
      earlier := by
  intro id
  simp only [next?, Identifier.ofLexeme?_token, Option.map_some]

private theorem State.namesConstructor_body (opening : Opening)
    (typeId : Identifier) :
    (State.body opening typeId).NamesConstructor opening typeId [] := by
  intro id
  have noBracket : ¬ (Lexeme.ofToken id.token).token = .leftParen :=
    id.token_ne rfl
  simp only [next?, if_neg noBracket, Identifier.ofLexeme?_token,
    Option.map_some]

theorem Constructor.follow?_tokens {state : State} {opening : Opening}
    {typeId : Identifier} {earlier : List Constructor}
    (names : state.NamesConstructor opening typeId earlier)
    (constructor : Constructor) (wellFormed : constructor.WellFormed) :
    state.follow? constructor.tokens =
      some
        (.behindConstructor opening typeId earlier
          constructor.eraseSpans) := by
  obtain ⟨id, fields?, span⟩ := constructor
  rw [Constructor.tokens, State.follow?_cons_of_next? (names id)]
  cases fields? with
  | none => rfl
  | some fields =>
      have opens :
          (State.constructorId opening typeId earlier id.eraseSpans).next?
              (.ofToken .leftParen) =
            some
              (.fields opening (.constructor typeId earlier id.eraseSpans)
                .zero [] .start) :=
        rfl
      have nonempty := (wellFormed.fields fields rfl).nonempty
      rw [Option.toList_some, List.flatMap_singleton,
        FieldList.follow?_tokens opens fields nonempty]
      rfl

def State.EndsBody (state : State) (opening : Opening) (typeId : Identifier)
    (body : Body) : Prop :=
  ∀ token, token ≠ .leftParen → token ≠ .bar →
    state.next? (.ofToken token) =
      Body.next? opening typeId body (.ofToken token)

theorem Constructor.follow?_tokens_of_list {state : State} {opening : Opening}
    {typeId : Identifier} {earlier : List Constructor}
    (names : state.NamesConstructor opening typeId earlier)
    (constructors : List Constructor) (nonempty : constructors ≠ [])
    (wellFormed : ∀ constructor ∈ constructors, constructor.WellFormed) :
    ∃ after,
      state.follow?
          (List.intercalate [.bar] (constructors.map Constructor.tokens)) =
        some after ∧
      after.EndsBody opening typeId
        (.sum (earlier ++ constructors.map Constructor.eraseSpans)) := by
  induction constructors generalizing state earlier with
  | nil => exact absurd rfl nonempty
  | cons first rest ih =>
      obtain ⟨firstWhole, restWhole⟩ := List.forall_mem_cons.mp wellFormed
      have firstRead := Constructor.follow?_tokens names first firstWhole
      have behind (token : Token) (noBracket : token ≠ .leftParen) :=
        State.next?_behindConstructor opening typeId earlier first noBracket
      cases rest with
      | nil =>
          refine
            ⟨.behindConstructor opening typeId earlier first.eraseSpans,
              ?_, ?_⟩
          · rw [List.map_singleton, List.intercalate_singleton]
            exact firstRead
          · intro token noBracket noBar
            rw [behind token noBracket]
            exact if_neg noBar
      | cons second others =>
          have isBar :
              (State.behindConstructor opening typeId earlier
                  first.eraseSpans).next? (.ofToken .bar) =
                some
                  (.alternative opening typeId
                    (earlier ++ [first.eraseSpans])) :=
            behind .bar (by decide)
          obtain ⟨after, restRead, ends⟩ :=
            ih
              (State.namesConstructor_alternative opening typeId
                (earlier ++ [first.eraseSpans]))
              (List.cons_ne_nil _ _) restWhole
          refine ⟨after, ?_, ?_⟩
          · simp only [List.map_cons, List.intercalate_cons_cons,
              List.append_assoc, List.cons_append,
              List.nil_append] at restRead ⊢
            rw [State.follow?_append_of_follow? firstRead,
              State.follow?_cons_of_next? isBar, restRead]
          · simpa using ends

theorem Body.follow?_tokens (opening : Opening) (typeId : Identifier)
    (body : Body) (wellFormed : body.WellFormed) :
    ∃ after,
      (State.body opening typeId).follow? body.tokens = some after ∧
        after.EndsBody opening typeId body.eraseSpans := by
  cases body with
  | product fields =>
      have opens :
          (State.body opening typeId).next? (.ofToken .leftParen) =
            some (.fields opening (.product typeId) .zero [] .start) :=
        rfl
      refine
        ⟨_, FieldList.follow?_tokens opens fields wellFormed.nonempty, ?_⟩
      intro token noBracket noBar
      rfl
  | sum constructors =>
      exact Constructor.follow?_tokens_of_list
        (State.namesConstructor_body opening typeId) constructors
        wellFormed.1 wellFormed.2

/-! ### Definitions -/

/-- The state goes on as between two definitions, the earlier of which may
still get a clause. -/
structure State.Settles (state : State) (opening : Opening)
    (previous? : Option Definition) : Prop where
  moves :
    ∀ token, token ≠ .leftParen → token ≠ .bar →
      (∀ previous ∈ previous?,
        previous.attributes? = none → token ≠ .attributesKeyword) →
      state.next? (.ofToken token) = opening.next? (.ofToken token)
  clause :
    ∀ previous ∈ previous?, previous.attributes? = none →
      ∃ clause,
        state.next? (.ofToken .attributesKeyword) = some clause ∧
          clause.next? (.ofToken .equals) = none

theorem State.settles_between (opening : Opening)
    (previous? : Option Definition)
    (settled : ∀ previous ∈ previous?, previous.attributes? ≠ none) :
    (State.between opening).Settles opening previous? where
  moves := by
    intro token noBracket noBar noClause
    rfl
  clause := by
    intro previous isPrevious bare
    exact absurd bare (settled previous isPrevious)

theorem State.EndsBody.settles {state : State} {opening : Opening}
    {typeId : Identifier} {body : Body}
    (ends : state.EndsBody opening typeId body) {definition : Definition}
    (bare : definition.attributes? = none) :
    state.Settles (opening.add (.ofParts typeId body none))
      (some definition) where
  moves := by
    intro token noBracket noBar noClause
    rw [ends token noBracket noBar]
    exact if_neg (noClause definition rfl bare)
  clause := by
    intro previous isPrevious previousBare
    exact
      ⟨.attributesList opening typeId body .zero,
        ends .attributesKeyword (by decide) (by decide), rfl⟩

private theorem Definition.eraseSpans_eq_ofParts (definition : Definition) :
    definition.eraseSpans =
      .ofParts definition.typeId.eraseSpans definition.body.eraseSpans
        (definition.attributes?.map Attributes.eraseSpans) :=
  Definition.eraseSpans_ofParts definition.typeId definition.body
    definition.attributes?

private theorem State.next?_of_settles {state : State} {opening : Opening}
    {previous? : Option Definition}
    (settles : state.Settles opening previous?) (typeId : Identifier)
    (noClause :
      ∀ previous ∈ previous?,
        previous.attributes? = none → typeId.name ≠ "attributes") :
    state.next? (.ofToken typeId.token) =
      some (.equals opening typeId.eraseSpans) := by
  have noBrace : ¬ (Lexeme.ofToken typeId.token).token = .rightBrace :=
    typeId.token_ne rfl
  rw [settles.moves typeId.token (typeId.token_ne rfl) (typeId.token_ne rfl)]
  · rw [Opening.next?, if_neg noBrace, Identifier.ofLexeme?_token]
    rfl
  · intro previous isPrevious bare
    exact Identifier.token_ne_attributesKeyword
      (noClause previous isPrevious bare)

theorem Definition.follow?_tokens {state : State} {opening : Opening}
    {previous? : Option Definition}
    (settles : state.Settles opening previous?) (definition : Definition)
    (wellFormed : definition.WellFormed)
    (apart : ∀ previous ∈ previous?, previous.Apart definition) :
    ∃ after,
      state.follow? definition.tokens = some after ∧
        after.Settles (opening.add definition.eraseSpans)
          (some definition) := by
  have named := State.next?_of_settles settles definition.typeId apart
  have isEquals :
      (State.equals opening definition.typeId.eraseSpans).next?
          (.ofToken .equals) =
        some (.body opening definition.typeId.eraseSpans) :=
    rfl
  obtain ⟨behindBody, bodyRead, ends⟩ :=
    Body.follow?_tokens opening definition.typeId.eraseSpans definition.body
      wellFormed.body
  have upToBody (rest : List Token) :
      state.follow?
          (definition.typeId.token :: .equals :: definition.body.tokens ++
            rest) =
        behindBody.follow? rest := by
    simp only [List.cons_append]
    rw [State.follow?_cons_of_next? named,
      State.follow?_cons_of_next? isEquals,
      State.follow?_append_of_follow? bodyRead]
  rw [Definition.eraseSpans_eq_ofParts, Definition.tokens, upToBody]
  cases clause? : definition.attributes? with
  | none => exact ⟨behindBody, rfl, ends.settles clause?⟩
  | some attributes =>
      have isKeyword :
          behindBody.next? (.ofToken .attributesKeyword) =
            some
              (.attributesList opening definition.typeId.eraseSpans
                definition.body.eraseSpans .zero) :=
        ends .attributesKeyword (by decide) (by decide)
      have opens :
          (State.attributesList opening definition.typeId.eraseSpans
              definition.body.eraseSpans .zero).next? (.ofToken .leftParen) =
            some
              (.fields opening
                (.attributes definition.typeId.eraseSpans
                  definition.body.eraseSpans .zero) .zero [] .start) :=
        rfl
      have nonempty := (wellFormed.attributes attributes clause?).nonempty
      refine ⟨_, ?_, State.settles_between _ _ ?_⟩
      · rw [Option.toList_some, List.flatMap_singleton, Attributes.tokens,
          State.follow?_cons_of_next? isKeyword,
          FieldList.follow?_tokens opens attributes.fields nonempty]
        rfl
      · intro previous isPrevious
        cases isPrevious
        rw [clause?]
        exact Option.some_ne_none attributes

/-- Where a clause may begin, a definition called `attributes` stops the
reader. -/
theorem Definition.follow?_tokens_of_not_apart {state : State}
    {opening : Opening} {previous : Definition}
    (settles : state.Settles opening (some previous))
    (definition : Definition) (close : ¬ previous.Apart definition)
    (rest : List Token) :
    state.follow? (definition.tokens ++ rest) = none := by
  have bothSides :
      previous.attributes? = none ∧ definition.typeId.name = "attributes" := by
    simpa [Definition.Apart] using close
  obtain ⟨clause, isKeyword, noEquals⟩ :=
    settles.clause previous rfl bothSides.1
  have keyword : definition.typeId.token = .attributesKeyword := by
    rw [Identifier.token, bothSides.2]
    rfl
  simp only [Definition.tokens, keyword, List.cons_append]
  rw [State.follow?_cons_of_next? isKeyword, State.follow?, noEquals]

/-- The reader goes through the definitions that are left of a module exactly
when each stands apart from the one in front of it. -/
theorem Definition.follow?_tokens_of_list {state : State} {opening : Opening}
    {previous? : Option Definition}
    (settles : state.Settles opening previous?)
    (definitions : List Definition)
    (wellFormed : ∀ definition ∈ definitions, definition.WellFormed) :
    state.follow?
        (definitions.flatMap Definition.tokens ++ [.rightBrace]) =
      if (previous?.toList ++ definitions).IsChain Definition.Apart then
        some
          (.closed
            (.ofParts opening.keyword opening.id
              (opening.definitions ++ definitions.map Definition.eraseSpans)
              .zero))
      else
        none := by
  induction definitions generalizing state opening previous? with
  | nil =>
      have atBrace :=
        settles.moves .rightBrace (by decide) (by decide)
          (fun _ _ _ => by decide)
      have single : (previous?.toList ++ []).IsChain Definition.Apart := by
        cases previous? with
        | none => exact .nil
        | some previous => exact .singleton previous
      rw [if_pos single, List.flatMap_nil, List.nil_append, State.follow?,
        atBrace]
      simp [Opening.next?, State.follow?, Lexeme.ofToken]
  | cons definition rest ih =>
      -- The definition in front, if any, decides how the next name is taken;
      -- behind this definition it is the definition itself that decides.
      obtain ⟨definitionWhole, restWhole⟩ :=
        List.forall_mem_cons.mp wellFormed
      have chain :
          (previous?.toList ++ definition :: rest).IsChain Definition.Apart ↔
            (∀ previous ∈ previous?, previous.Apart definition) ∧
              ((some definition).toList ++ rest).IsChain Definition.Apart := by
        cases previous? with
        | none => simp
        | some previous => simp [List.isChain_cons_cons]
      rw [List.flatMap_cons, List.append_assoc]
      by_cases apart : ∀ previous ∈ previous?, previous.Apart definition
      · obtain ⟨after, definitionRead, afterSettles⟩ :=
          Definition.follow?_tokens settles definition definitionWhole apart
        rw [State.follow?_append_of_follow? definitionRead,
          ih afterSettles restWhole]
        simp only [chain, and_iff_right apart]
        simp [Opening.add]
      · have broken :
            ¬ (previous?.toList ++ definition :: rest).IsChain
              Definition.Apart := by
          intro isChain
          exact apart (chain.mp isChain).1
        rw [if_neg broken]
        cases previous? with
        | none => exact absurd (by simp) apart
        | some previous =>
            have close : ¬ previous.Apart definition := by
              simpa using apart
            exact Definition.follow?_tokens_of_not_apart settles definition
              close _

theorem Module.follow?_tokens (module : Module)
    (wellFormed :
      ∀ definition ∈ module.definitions, definition.WellFormed) :
    State.start.follow? module.tokens =
      if module.Separated then
        some (.closed module.eraseSpans)
      else
        none := by
  have isKeyword :
      State.start.next? (.ofToken .moduleKeyword) = some (.moduleId .zero) :=
    rfl
  have named :
      (State.moduleId .zero).next? (.ofToken module.id.token) =
        some (.moduleBrace .zero module.id.eraseSpans) := by
    simp only [State.next?, Identifier.ofLexeme?_token, Option.map_some]
  have isBrace :
      (State.moduleBrace .zero module.id.eraseSpans).next?
          (.ofToken .leftBrace) =
        some
          (.between
            { keyword := .zero
              id := module.id.eraseSpans
              definitions := [] }) :=
    rfl
  have settles :=
    State.settles_between
      { keyword := .zero
        id := module.id.eraseSpans
        definitions := [] } none (fun _ absent => by cases absent)
  simp only [Module.tokens, List.cons_append]
  rw [State.follow?_cons_of_next? isKeyword, State.follow?_cons_of_next? named,
    State.follow?_cons_of_next? isBrace,
    Definition.follow?_tokens_of_list settles module.definitions wellFormed]
  rfl

/-! ### Whole sources -/

/-- The tree is well formed, and written out it gives the tokens of the
source. -/
def Module.Yields (module : Module) (source : String) : Prop :=
  ∃ tokenization, tokenize source = .ok tokenization ∧ module.WellFormed ∧
    module.tokens = tokenization.lexemes.map Lexeme.token

theorem Module.WellFormed.follow?_tokens {module : Module}
    (wellFormed : module.WellFormed) :
    State.start.follow? module.tokens = some (.closed module.eraseSpans) := by
  rw [Module.follow?_tokens module wellFormed.definitions,
    if_pos wellFormed.separated]

private theorem Module.yields_of_parse {source : String} {module : Module}
    (parsed : Module.parse source = .ok module) : module.Yields source := by
  obtain ⟨tokenization, tokenized, sameTokens⟩ := Module.tokens_of_parse parsed
  exact
    ⟨tokenization, tokenized, Module.wellFormed_of_parse parsed, sameTokens⟩

theorem Module.Yields.of_eraseSpans_eq {left right : Module} {source : String}
    (yields : left.Yields source)
    (same : left.eraseSpans = right.eraseSpans) : right.Yields source := by
  obtain ⟨tokenization, tokenized, wellFormed, sameTokens⟩ := yields
  refine ⟨tokenization, tokenized, ?_, ?_⟩
  · rw [← Module.wellFormed_eraseSpans, ← same]
    exact (Module.wellFormed_eraseSpans left).mpr wellFormed
  · rw [← Module.tokens_eraseSpans, ← same, Module.tokens_eraseSpans,
      sameTokens]

theorem Module.Yields.exists_parse {module : Module} {source : String}
    (yields : module.Yields source) :
    ∃ parsed, Module.parse source = .ok parsed ∧
      parsed.eraseSpans = module.eraseSpans := by
  obtain ⟨tokenization, tokenized, wellFormed, sameTokens⟩ := yields
  rw [Module.parse_eq_ok_iff_follow?]
  exact ⟨tokenization, tokenized, sameTokens ▸ wellFormed.follow?_tokens⟩

/-- A source is read to a tree, up to ranges, exactly when the tree is well
formed and written out gives the tokens of the source; and no source has two
such trees. -/
theorem Module.parse_eq_ok_iff_yields (source : String) :
    (∀ tree : Module,
      (∃ parsed, Module.parse source = .ok parsed ∧
          parsed.eraseSpans = tree.eraseSpans) ↔
        ∃ tokenization, tokenize source = .ok tokenization ∧
          tree.WellFormed ∧
          tree.tokens = tokenization.lexemes.map Lexeme.token) ∧
      ∀ left right : Module,
        left.Yields source → right.Yields source →
          left.eraseSpans = right.eraseSpans := by
  constructor
  · intro tree
    constructor
    · rintro ⟨parsed, isParsed, same⟩
      exact (Module.yields_of_parse isParsed).of_eraseSpans_eq same
    · exact Module.Yields.exists_parse
  · intro left right leftYields rightYields
    obtain ⟨first, firstParsed, leftSame⟩ := leftYields.exists_parse
    obtain ⟨second, secondParsed, rightSame⟩ := rightYields.exists_parse
    rw [firstParsed] at secondParsed
    cases secondParsed
    rw [← leftSame, rightSame]

end Asdl.Concrete
