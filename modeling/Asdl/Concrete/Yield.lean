/-
The tokens that a concrete tree writes down, in the order of the grammar.

A state of the reader writes down the part that it has read, so a move adds the
token it reads and no other.  It follows that a tree read from a source writes
down the tokens of the source: none is lost, doubled or moved.  The other
direction, which trees are read back from their tokens, is not treated here.
-/

import Asdl.Concrete.Reader

namespace Asdl

/-- The word that a token spells, if any, is read as the same token again.
Identifiers that spell a keyword are the only tokens without this property. -/
def Token.IsCanonical (token : Token) : Prop :=
  ∀ word, token.word? = some word → Token.ofWord word = token

theorem Token.isCanonical_ofWord (word : String) :
    (Token.ofWord word).IsCanonical := by
  intro spelled hSpelled
  rw [Token.word?_ofWord] at hSpelled
  rw [Option.some.inj hSpelled]

theorem Token.isCanonical_of_ofMark? {mark : Char} {token : Token}
    (marked : Token.ofMark? mark = some token) : token.IsCanonical := by
  intro word hWord
  unfold Token.ofMark? at marked
  split at marked <;> cases marked <;> cases hWord

theorem Cursor.isCanonical_of_next {cursor after : Cursor} {lexeme : Lexeme}
    (met : cursor.next = .lexeme lexeme after) : lexeme.token.IsCanonical := by
  unfold Cursor.next at met
  simp only at met
  split at met
  · cases met
  · split at met
    · cases met
      exact Token.isCanonical_ofWord _
    · split at met
      · rename_i token marked
        cases met
        exact Token.isCanonical_of_ofMark? marked
      · cases met

theorem Cursor.isCanonical_of_tokenize {cursor : Cursor}
    {tokenization : Tokenization}
    (tokenized : cursor.tokenize = .ok tokenization) :
    ∀ lexeme ∈ tokenization.lexemes, lexeme.token.IsCanonical :=
  Cursor.forall_mem_of_tokenize (fun _ _ _ met => Cursor.isCanonical_of_next met)
    tokenized

namespace Concrete

def Identifier.token (id : Identifier) : Token :=
  .ofWord id.name

def Marker.token (marker : Marker) : Token :=
  match marker.kind with
  | .question => .question
  | .star => .star

def Field.tokens (field : Field) : List Token :=
  field.typeId.token ::
    field.marker?.toList.map Marker.token ++
    field.id?.toList.map Identifier.token

def FieldList.tokens (list : FieldList) : List Token :=
  .leftParen ::
    List.intercalate [.comma] (list.fields.map Field.tokens) ++
    [.rightParen]

def Constructor.tokens (constructor : Constructor) : List Token :=
  constructor.id.token ::
    constructor.fields?.toList.flatMap FieldList.tokens

def Body.tokens : Body → List Token
  | product fields => fields.tokens
  | sum constructors =>
      List.intercalate [.bar] (constructors.map Constructor.tokens)

def Attributes.tokens (attributes : Attributes) : List Token :=
  .attributesKeyword :: attributes.fields.tokens

def Definition.tokens (definition : Definition) : List Token :=
  definition.typeId.token :: .equals ::
    definition.body.tokens ++
    definition.attributes?.toList.flatMap Attributes.tokens

def Module.tokens (module : Module) : List Token :=
  .moduleKeyword :: module.id.token :: .leftBrace ::
    module.definitions.flatMap Definition.tokens ++
    [.rightBrace]

def followed (separator : Token) (parts : List (List Token)) : List Token :=
  parts.flatMap (· ++ [separator])

theorem followed_concat (separator : Token) (parts : List (List Token))
    (last : List Token) :
    followed separator (parts ++ [last]) =
      followed separator parts ++ last ++ [separator] := by
  simp [followed]

theorem intercalate_concat (separator : Token) (parts : List (List Token))
    (last : List Token) :
    List.intercalate [separator] (parts ++ [last]) =
      followed separator parts ++ last := by
  induction parts with
  | nil =>
      simp [followed, List.intercalate]
  | cons first rest ih =>
      cases rest with
      | nil =>
          simp [followed, List.intercalate]
      | cons second others =>
          simp only [List.intercalate, followed, List.cons_append,
            List.intersperse_cons_cons, List.flatten_cons,
            List.flatMap_cons, List.append_assoc] at ih ⊢
          rw [ih]

def Opening.tokens (opening : Opening) : List Token :=
  .moduleKeyword :: opening.id.token :: .leftBrace ::
    opening.definitions.flatMap Definition.tokens

def FieldStage.tokens : FieldStage → List Token
  | start => []
  | typed typeId => [typeId.token]
  | marked typeId marker => [typeId.token, marker.token]
  | named typeId marker? id =>
      typeId.token :: marker?.toList.map Marker.token ++ [id.token]

def Owner.tokens : Owner → List Token
  | product typeId => [typeId.token, .equals]
  | constructor typeId earlier id =>
      typeId.token :: .equals ::
        followed .bar (earlier.map Constructor.tokens) ++ [id.token]
  | attributes typeId body _ =>
      typeId.token :: .equals :: body.tokens ++ [.attributesKeyword]

def State.tokens : State → List Token
  | start => []
  | moduleId _ => [.moduleKeyword]
  | moduleBrace _ id => [.moduleKeyword, id.token]
  | between opening => opening.tokens
  | equals opening typeId => opening.tokens ++ [typeId.token]
  | body opening typeId => opening.tokens ++ [typeId.token, .equals]
  | alternative opening typeId earlier =>
      opening.tokens ++ typeId.token :: .equals ::
        followed .bar (earlier.map Constructor.tokens)
  | constructorId opening typeId earlier id =>
      opening.tokens ++ typeId.token :: .equals ::
        followed .bar (earlier.map Constructor.tokens) ++ [id.token]
  | afterConstructor opening typeId earlier last =>
      opening.tokens ++ typeId.token :: .equals ::
        followed .bar (earlier.map Constructor.tokens) ++ last.tokens
  | afterProduct opening typeId members =>
      opening.tokens ++ typeId.token :: .equals :: members.tokens
  | attributesList opening typeId whole _ =>
      opening.tokens ++ typeId.token :: .equals :: whole.tokens ++
        [.attributesKeyword]
  | fields opening owner _ earlier stage =>
      opening.tokens ++ owner.tokens ++
        .leftParen :: followed .comma (earlier.map Field.tokens) ++
        stage.tokens
  | closed module => module.tokens

/-! ### A move adds its token -/

variable {lexeme : Lexeme}

theorem Identifier.token_of_ofLexeme? {id : Identifier}
    (canonical : lexeme.token.IsCanonical)
    (named : Identifier.ofLexeme? lexeme = some id) :
    id.token = lexeme.token := by
  obtain ⟨word, hWord, hId⟩ := Option.map_eq_some_iff.mp named
  rw [← hId]
  exact canonical word hWord

theorem Marker.token_of_ofLexeme? {marker : Marker}
    (marked : Marker.ofLexeme? lexeme = some marker) :
    marker.token = lexeme.token := by
  unfold Marker.ofLexeme? at marked
  split at marked
  · rename_i isQuestion
    cases marked
    rw [isQuestion]
    rfl
  · rename_i isStar
    cases marked
    rw [isStar]
    rfl
  · cases marked

theorem FieldStage.tokens_of_next? {stage after : FieldStage}
    (canonical : lexeme.token.IsCanonical)
    (moved : stage.next? lexeme = some after) :
    after.tokens = stage.tokens ++ [lexeme.token] := by
  cases stage with
  | start =>
      obtain ⟨typeId, isTypeId, rfl⟩ := Option.map_eq_some_iff.mp moved
      simp [tokens, Identifier.token_of_ofLexeme? canonical isTypeId]
  | typed typeId =>
      simp only [next?] at moved
      split at moved
      · rename_i marker isMarker
        cases moved
        simp [tokens, Marker.token_of_ofLexeme? isMarker]
      · obtain ⟨id, isId, rfl⟩ := Option.map_eq_some_iff.mp moved
        simp [tokens, Identifier.token_of_ofLexeme? canonical isId]
  | marked typeId marker =>
      obtain ⟨id, isId, rfl⟩ := Option.map_eq_some_iff.mp moved
      simp [tokens, Identifier.token_of_ofLexeme? canonical isId]
  | named typeId marker? id =>
      cases moved

theorem FieldStage.tokens_of_field? {stage : FieldStage} {field : Field}
    (whole : stage.field? = some field) : field.tokens = stage.tokens := by
  cases stage with
  | start =>
      cases whole
  | typed typeId =>
      cases whole
      rfl
  | marked typeId marker =>
      cases whole
      rfl
  | named typeId marker? id =>
      cases whole
      rfl

theorem Opening.tokens_of_next? {opening : Opening} {after : State}
    (canonical : lexeme.token.IsCanonical)
    (moved : opening.next? lexeme = some after) :
    after.tokens = opening.tokens ++ [lexeme.token] := by
  unfold next? at moved
  split at moved
  · rename_i isBrace
    cases moved
    simp [State.tokens, Module.tokens, Module.ofParts, tokens, isBrace]
  · obtain ⟨typeId, isTypeId, rfl⟩ := Option.map_eq_some_iff.mp moved
    simp [State.tokens, Identifier.token_of_ofLexeme? canonical isTypeId]

theorem Body.tokens_of_next? {opening : Opening} {typeId : Identifier}
    {body : Body} {after : State} (canonical : lexeme.token.IsCanonical)
    (moved : Body.next? opening typeId body lexeme = some after) :
    after.tokens =
      opening.tokens ++ typeId.token :: .equals :: body.tokens ++
        [lexeme.token] := by
  unfold next? at moved
  split at moved
  · rename_i isAttributes
    cases moved
    simp [State.tokens, isAttributes]
  · rw [Opening.tokens_of_next? canonical moved]
    simp [Opening.tokens, Opening.add, Definition.tokens, Definition.ofParts]

theorem Constructor.tokens_of_next? {opening : Opening}
    {typeId : Identifier} {earlier : List Constructor} {last : Constructor}
    {after : State} (canonical : lexeme.token.IsCanonical)
    (moved :
      Constructor.next? opening typeId earlier last lexeme = some after) :
    after.tokens =
      opening.tokens ++ typeId.token :: .equals ::
        followed .bar (earlier.map Constructor.tokens) ++ last.tokens ++
        [lexeme.token] := by
  unfold next? at moved
  split at moved
  · rename_i isBar
    cases moved
    simp [State.tokens, followed_concat, isBar]
  · rw [Body.tokens_of_next? canonical moved]
    simp [Body.tokens, intercalate_concat]

theorem Owner.tokens_close (opening : Opening) (owner : Owner)
    (list : FieldList) :
    (owner.close opening list).tokens =
      opening.tokens ++ owner.tokens ++ list.tokens := by
  cases owner with
  | product typeId =>
      simp [close, State.tokens, tokens]
  | constructor typeId earlier id =>
      simp [close, State.tokens, tokens, Constructor.tokens,
        Constructor.ofParts]
  | attributes typeId body keyword =>
      simp [close, State.tokens, tokens, Opening.tokens, Opening.add,
        Definition.tokens, Definition.ofParts, Attributes.tokens]

theorem Owner.tokens_of_next? {opening : Opening} {owner : Owner}
    {bracket : Span} {earlier : List Field} {stage : FieldStage}
    {after : State} (canonical : lexeme.token.IsCanonical)
    (moved :
      owner.next? opening bracket earlier stage lexeme = some after) :
    after.tokens =
      (State.fields opening owner bracket earlier stage).tokens ++
        [lexeme.token] := by
  unfold next? at moved
  split at moved
  · rename_i longer isLonger
    cases moved
    simp [State.tokens, FieldStage.tokens_of_next? canonical isLonger]
  · split at moved
    · rename_i field isField isComma
      cases moved
      simp [State.tokens, followed_concat, isComma, FieldStage.tokens,
        FieldStage.tokens_of_field? isField]
    · rename_i field isField isBracket
      cases moved
      rw [Owner.tokens_close]
      simp [State.tokens, FieldList.tokens, FieldList.ofParts,
        intercalate_concat, isBracket, FieldStage.tokens_of_field? isField]
    · cases moved

/-- A move writes down the token it reads behind what was read before. -/
theorem State.tokens_of_next? {state after : State}
    (canonical : lexeme.token.IsCanonical)
    (moved : state.next? lexeme = some after) :
    after.tokens = state.tokens ++ [lexeme.token] := by
  cases state with
  | start =>
      simp only [next?] at moved
      split at moved
      · rename_i isKeyword
        cases moved
        simp [tokens, isKeyword]
      · cases moved
  | moduleId keyword =>
      obtain ⟨id, isId, rfl⟩ := Option.map_eq_some_iff.mp moved
      simp [tokens, Identifier.token_of_ofLexeme? canonical isId]
  | moduleBrace keyword id =>
      simp only [next?] at moved
      split at moved
      · rename_i isBrace
        cases moved
        simp [tokens, Opening.tokens, isBrace]
      · cases moved
  | between opening =>
      exact Opening.tokens_of_next? canonical moved
  | equals opening typeId =>
      simp only [next?] at moved
      split at moved
      · rename_i isEquals
        cases moved
        simp [tokens, isEquals]
      · cases moved
  | body opening typeId =>
      simp only [next?] at moved
      split at moved
      · rename_i isBracket
        cases moved
        simp [tokens, Owner.tokens, FieldStage.tokens, followed, isBracket]
      · obtain ⟨id, isId, rfl⟩ := Option.map_eq_some_iff.mp moved
        simp [tokens, followed,
          Identifier.token_of_ofLexeme? canonical isId]
  | alternative opening typeId earlier =>
      obtain ⟨id, isId, rfl⟩ := Option.map_eq_some_iff.mp moved
      simp [tokens, Identifier.token_of_ofLexeme? canonical isId]
  | constructorId opening typeId earlier id =>
      simp only [next?] at moved
      split at moved
      · rename_i isBracket
        cases moved
        simp [tokens, Owner.tokens, FieldStage.tokens, followed, isBracket]
      · rw [Constructor.tokens_of_next? canonical moved]
        simp [tokens, Constructor.tokens, Constructor.ofParts]
  | afterConstructor opening typeId earlier last =>
      rw [Constructor.tokens_of_next? canonical moved]
      rfl
  | afterProduct opening typeId members =>
      rw [Body.tokens_of_next? canonical moved]
      rfl
  | attributesList opening typeId whole keyword =>
      simp only [next?] at moved
      split at moved
      · rename_i isBracket
        cases moved
        simp [tokens, Owner.tokens, FieldStage.tokens, followed, isBracket]
      · cases moved
  | fields opening owner bracket earlier stage =>
      exact Owner.tokens_of_next? canonical moved
  | closed module =>
      cases moved

theorem State.tokens_of_read {size : Nat} {state : State}
    {lexemes : List Lexeme} {module : Module}
    (canonical : ∀ lexeme ∈ lexemes, lexeme.token.IsCanonical)
    (accepted : state.read size lexemes = .ok module) :
    module.tokens = state.tokens ++ lexemes.map Lexeme.token := by
  induction lexemes generalizing state with
  | nil =>
      cases state with
      | closed closedModule =>
          cases accepted
          simp [tokens]
      | _ =>
          cases accepted
  | cons first rest ih =>
      simp only [read] at accepted
      split at accepted
      · rename_i after moved
        have firstCanonical := canonical first List.mem_cons_self
        have restCanonical :
            ∀ lexeme ∈ rest, lexeme.token.IsCanonical := by
          intro lexeme member
          exact canonical lexeme (List.mem_cons_of_mem first member)
        rw [ih restCanonical accepted,
          State.tokens_of_next? firstCanonical moved]
        simp
      · cases accepted

/-- A tree read from a source writes down the tokens of the source. -/
theorem Module.tokens_of_parse {source : String} {module : Module}
    (parsed : Module.parse source = .ok module) :
    ∃ tokenization, tokenize source = .ok tokenization ∧
      module.tokens = tokenization.lexemes.map Lexeme.token := by
  unfold Module.parse at parsed
  split at parsed
  · cases parsed
  · rename_i tokenization tokenized
    refine ⟨tokenization, tokenized, ?_⟩
    have canonical := Cursor.isCanonical_of_tokenize tokenized
    simpa [State.tokens] using State.tokens_of_read canonical parsed

end Concrete

end Asdl
