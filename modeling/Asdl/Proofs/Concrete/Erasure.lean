/-
Trees and states of the reader without their ranges.

No move looks at a range, so reading commutes with forgetting ranges.  What is
read from a source, up to ranges, is therefore decided by its tokens alone, and
`State.follow?` reads tokens directly.  Nothing here says which tokens can be
read to the end.
-/

import Asdl.Concrete.Yield

namespace Asdl

def Lexeme.ofToken (token : Token) : Lexeme :=
  { token := token
    span := .zero }

@[simp]
theorem Lexeme.token_ofToken (token : Token) :
    (Lexeme.ofToken token).token = token :=
  rfl

namespace Concrete

def Identifier.eraseSpans (id : Identifier) : Identifier :=
  { id with span := .zero }

def Marker.eraseSpans (marker : Marker) : Marker :=
  { marker with span := .zero }

def Field.eraseSpans (field : Field) : Field :=
  { typeId := field.typeId.eraseSpans
    marker? := field.marker?.map Marker.eraseSpans
    id? := field.id?.map Identifier.eraseSpans
    span := .zero }

def FieldList.eraseSpans (list : FieldList) : FieldList :=
  { fields := list.fields.map Field.eraseSpans
    span := .zero }

def Constructor.eraseSpans (constructor : Constructor) : Constructor :=
  { id := constructor.id.eraseSpans
    fields? := constructor.fields?.map FieldList.eraseSpans
    span := .zero }

def Attributes.eraseSpans (attributes : Attributes) : Attributes :=
  { keyword := .zero
    fields := attributes.fields.eraseSpans }

def Body.eraseSpans : Body → Body
  | product fields => product fields.eraseSpans
  | sum constructors => sum (constructors.map Constructor.eraseSpans)

def Definition.eraseSpans (definition : Definition) : Definition :=
  { typeId := definition.typeId.eraseSpans
    body := definition.body.eraseSpans
    attributes? := definition.attributes?.map Attributes.eraseSpans
    span := .zero }

def Module.eraseSpans (module : Module) : Module :=
  { id := module.id.eraseSpans
    definitions := module.definitions.map Definition.eraseSpans
    span := .zero }

theorem Field.tokens_eraseSpans (field : Field) :
    field.eraseSpans.tokens = field.tokens := by
  simp only [tokens, eraseSpans, Option.toList_map, List.map_map]
  rfl

theorem FieldList.tokens_eraseSpans (list : FieldList) :
    list.eraseSpans.tokens = list.tokens := by
  have sameFields : Field.tokens ∘ Field.eraseSpans = Field.tokens :=
    funext Field.tokens_eraseSpans
  simp only [tokens, eraseSpans, List.map_map, sameFields]

theorem Constructor.tokens_eraseSpans (constructor : Constructor) :
    constructor.eraseSpans.tokens = constructor.tokens := by
  obtain ⟨id, fields?, span⟩ := constructor
  cases fields? with
  | none => rfl
  | some fields =>
      simp only [tokens, eraseSpans, Option.map_some, Option.toList_some,
        List.flatMap_singleton, FieldList.tokens_eraseSpans]
      rfl

theorem Body.tokens_eraseSpans (body : Body) :
    body.eraseSpans.tokens = body.tokens := by
  cases body with
  | product fields => exact FieldList.tokens_eraseSpans fields
  | sum constructors =>
      have sameConstructors :
          Constructor.tokens ∘ Constructor.eraseSpans = Constructor.tokens :=
        funext Constructor.tokens_eraseSpans
      simp only [tokens, eraseSpans, List.map_map, sameConstructors]

theorem Definition.tokens_eraseSpans (definition : Definition) :
    definition.eraseSpans.tokens = definition.tokens := by
  obtain ⟨typeId, body, attributes?, span⟩ := definition
  cases attributes? with
  | none =>
      simp only [tokens, eraseSpans, Body.tokens_eraseSpans]
      rfl
  | some attributes =>
      simp only [tokens, eraseSpans, Body.tokens_eraseSpans, Option.map_some,
        Option.toList_some, List.flatMap_singleton, Attributes.tokens,
        Attributes.eraseSpans, FieldList.tokens_eraseSpans]
      rfl

theorem Module.tokens_eraseSpans (module : Module) :
    module.eraseSpans.tokens = module.tokens := by
  simp only [tokens, eraseSpans, List.flatMap_map,
    Definition.tokens_eraseSpans]
  rfl

def Opening.eraseSpans (opening : Opening) : Opening :=
  { keyword := .zero
    id := opening.id.eraseSpans
    definitions := opening.definitions.map Definition.eraseSpans }

def Owner.eraseSpans : Owner → Owner
  | product typeId => product typeId.eraseSpans
  | constructor typeId earlier id =>
      constructor typeId.eraseSpans (earlier.map Constructor.eraseSpans)
        id.eraseSpans
  | attributes typeId body _ =>
      attributes typeId.eraseSpans body.eraseSpans .zero

def FieldStage.eraseSpans : FieldStage → FieldStage
  | start => start
  | typed typeId => typed typeId.eraseSpans
  | marked typeId marker => marked typeId.eraseSpans marker.eraseSpans
  | named typeId marker? id =>
      named typeId.eraseSpans (marker?.map Marker.eraseSpans) id.eraseSpans

def State.eraseSpans : State → State
  | start => start
  | moduleId _ => moduleId .zero
  | moduleBrace _ id => moduleBrace .zero id.eraseSpans
  | between opening => between opening.eraseSpans
  | equals opening typeId => equals opening.eraseSpans typeId.eraseSpans
  | body opening typeId => body opening.eraseSpans typeId.eraseSpans
  | alternative opening typeId earlier =>
      alternative opening.eraseSpans typeId.eraseSpans
        (earlier.map Constructor.eraseSpans)
  | constructorId opening typeId earlier id =>
      constructorId opening.eraseSpans typeId.eraseSpans
        (earlier.map Constructor.eraseSpans) id.eraseSpans
  | afterConstructor opening typeId earlier last =>
      afterConstructor opening.eraseSpans typeId.eraseSpans
        (earlier.map Constructor.eraseSpans) last.eraseSpans
  | afterProduct opening typeId members =>
      afterProduct opening.eraseSpans typeId.eraseSpans members.eraseSpans
  | attributesList opening typeId whole _ =>
      attributesList opening.eraseSpans typeId.eraseSpans whole.eraseSpans
        .zero
  | fields opening owner _ earlier stage =>
      fields opening.eraseSpans owner.eraseSpans .zero
        (earlier.map Field.eraseSpans) stage.eraseSpans
  | closed module => closed module.eraseSpans

theorem Field.eraseSpans_ofParts (typeId : Identifier)
    (marker? : Option Marker) (id? : Option Identifier) :
    (Field.ofParts typeId marker? id?).eraseSpans =
      .ofParts typeId.eraseSpans (marker?.map Marker.eraseSpans)
        (id?.map Identifier.eraseSpans) := by
  cases id? with
  | none =>
      cases marker? with
      | none => rfl
      | some marker => rfl
  | some id => rfl

theorem FieldList.eraseSpans_ofParts (opening : Span) (fields : List Field)
    (closing : Span) :
    (FieldList.ofParts opening fields closing).eraseSpans =
      .ofParts .zero (fields.map Field.eraseSpans) .zero :=
  rfl

theorem Constructor.eraseSpans_ofParts (id : Identifier)
    (fields? : Option FieldList) :
    (Constructor.ofParts id fields?).eraseSpans =
      .ofParts id.eraseSpans (fields?.map FieldList.eraseSpans) := by
  cases fields? with
  | none => rfl
  | some fields => rfl

private theorem Body.lastSpan?_eraseSpans (body : Body) :
    body.eraseSpans.lastSpan? = body.lastSpan?.map fun _ => Span.zero := by
  cases body with
  | product fields => rfl
  | sum constructors =>
      simp only [eraseSpans, lastSpan?, List.getLast?_map, Option.map_map]
      rfl

theorem Definition.eraseSpans_ofParts (typeId : Identifier) (body : Body)
    (attributes? : Option Attributes) :
    (Definition.ofParts typeId body attributes?).eraseSpans =
      .ofParts typeId.eraseSpans body.eraseSpans
        (attributes?.map Attributes.eraseSpans) := by
  cases attributes? with
  | none =>
      simp only [ofParts, eraseSpans, Option.map_none,
        Body.lastSpan?_eraseSpans]
      cases body.lastSpan? with
      | none => rfl
      | some last => rfl
  | some attributes => rfl

theorem Opening.eraseSpans_add (opening : Opening) (definition : Definition) :
    (opening.add definition).eraseSpans =
      opening.eraseSpans.add definition.eraseSpans := by
  simp [add, eraseSpans]

private theorem FieldStage.field?_eraseSpans (stage : FieldStage) :
    stage.eraseSpans.field? = stage.field?.map Field.eraseSpans := by
  cases stage with
  | start => rfl
  | typed typeId => rfl
  | marked typeId marker => rfl
  | named typeId marker? id =>
      simp only [eraseSpans, field?, Option.map_some,
        Field.eraseSpans_ofParts]

private theorem Owner.eraseSpans_close (opening : Opening) (list : FieldList)
    (owner : Owner) :
    (owner.close opening list).eraseSpans =
      owner.eraseSpans.close opening.eraseSpans list.eraseSpans := by
  cases owner with
  | product typeId => rfl
  | constructor typeId earlier id => rfl
  | attributes typeId body keyword =>
      simp only [close, State.eraseSpans, eraseSpans, Opening.eraseSpans_add,
        Definition.eraseSpans_ofParts, Option.map_some]
      rfl

/-! ### Moves without ranges -/

theorem Identifier.ofLexeme?_ofToken (lexeme : Lexeme) :
    Identifier.ofLexeme? (.ofToken lexeme.token) =
      (Identifier.ofLexeme? lexeme).map Identifier.eraseSpans := by
  simp only [ofLexeme?, Option.map_map]
  rfl

theorem Marker.ofLexeme?_ofToken (lexeme : Lexeme) :
    Marker.ofLexeme? (.ofToken lexeme.token) =
      (Marker.ofLexeme? lexeme).map Marker.eraseSpans := by
  obtain ⟨token, span⟩ := lexeme
  cases token <;> rfl

theorem FieldStage.next?_eraseSpans (stage : FieldStage) (lexeme : Lexeme) :
    stage.eraseSpans.next? (.ofToken lexeme.token) =
      (stage.next? lexeme).map FieldStage.eraseSpans := by
  cases stage with
  | start =>
      simp only [eraseSpans, next?, Identifier.ofLexeme?_ofToken,
        Option.map_map]
      rfl
  | typed typeId =>
      simp only [eraseSpans, next?, Marker.ofLexeme?_ofToken,
        Identifier.ofLexeme?_ofToken]
      cases Marker.ofLexeme? lexeme with
      | none =>
          simp only [Option.map_none, Option.map_map]
          rfl
      | some marker => rfl
  | marked typeId marker =>
      simp only [eraseSpans, next?, Identifier.ofLexeme?_ofToken,
        Option.map_map]
      rfl
  | named typeId marker? id => rfl

theorem Opening.next?_eraseSpans (opening : Opening) (lexeme : Lexeme) :
    opening.eraseSpans.next? (.ofToken lexeme.token) =
      (opening.next? lexeme).map State.eraseSpans := by
  unfold next?
  rw [Lexeme.token_ofToken, Identifier.ofLexeme?_ofToken]
  by_cases isBrace : lexeme.token = .rightBrace
  · rw [if_pos isBrace, if_pos isBrace]
    rfl
  · rw [if_neg isBrace, if_neg isBrace, Option.map_map, Option.map_map]
    rfl

theorem Body.next?_eraseSpans (opening : Opening) (typeId : Identifier)
    (body : Body) (lexeme : Lexeme) :
    Body.next? opening.eraseSpans typeId.eraseSpans body.eraseSpans
        (.ofToken lexeme.token) =
      (Body.next? opening typeId body lexeme).map State.eraseSpans := by
  have added :
      opening.eraseSpans.add (.ofParts typeId.eraseSpans body.eraseSpans none) =
        (opening.add (.ofParts typeId body none)).eraseSpans := by
    rw [Opening.eraseSpans_add, Definition.eraseSpans_ofParts]
    rfl
  unfold next?
  rw [Lexeme.token_ofToken, added, Opening.next?_eraseSpans]
  by_cases isAttributes : lexeme.token = .attributesKeyword
  · rw [if_pos isAttributes, if_pos isAttributes]
    rfl
  · rw [if_neg isAttributes, if_neg isAttributes]

theorem Constructor.next?_eraseSpans (opening : Opening)
    (typeId : Identifier) (earlier : List Constructor) (last : Constructor)
    (lexeme : Lexeme) :
    Constructor.next? opening.eraseSpans typeId.eraseSpans
        (earlier.map Constructor.eraseSpans) last.eraseSpans
        (.ofToken lexeme.token) =
      (Constructor.next? opening typeId earlier last lexeme).map
        State.eraseSpans := by
  have extended :
      earlier.map Constructor.eraseSpans ++ [last.eraseSpans] =
        (earlier ++ [last]).map Constructor.eraseSpans := by
    rw [List.map_append]
    rfl
  have ended :=
    Body.next?_eraseSpans opening typeId (.sum (earlier ++ [last])) lexeme
  unfold next?
  rw [Lexeme.token_ofToken, extended]
  by_cases isBar : lexeme.token = .bar
  · rw [if_pos isBar, if_pos isBar]
    rfl
  · rw [if_neg isBar, if_neg isBar]
    exact ended

theorem Owner.next?_eraseSpans (opening : Opening) (owner : Owner)
    (bracket : Span) (earlier : List Field) (stage : FieldStage)
    (lexeme : Lexeme) :
    owner.eraseSpans.next? opening.eraseSpans .zero
        (earlier.map Field.eraseSpans) stage.eraseSpans
        (.ofToken lexeme.token) =
      (owner.next? opening bracket earlier stage lexeme).map
        State.eraseSpans := by
  unfold next?
  rw [FieldStage.next?_eraseSpans, FieldStage.field?_eraseSpans]
  cases stage.next? lexeme with
  | some longer => rfl
  | none =>
      cases stage.field? with
      | none => rfl
      | some field =>
          obtain ⟨token, span⟩ := lexeme
          cases token
          case comma =>
            simp [Lexeme.ofToken, State.eraseSpans, FieldStage.eraseSpans]
          case rightParen =>
            simp [Lexeme.ofToken, Owner.eraseSpans_close,
              FieldList.eraseSpans_ofParts]
          all_goals rfl

theorem State.next?_eraseSpans (state : State) (lexeme : Lexeme) :
    state.eraseSpans.next? (.ofToken lexeme.token) =
      (state.next? lexeme).map State.eraseSpans := by
  have named := Identifier.ofLexeme?_ofToken lexeme
  cases state with
  | start =>
      simp only [eraseSpans, next?]
      rw [Lexeme.token_ofToken]
      by_cases isKeyword : lexeme.token = .moduleKeyword
      · rw [if_pos isKeyword, if_pos isKeyword]
        rfl
      · rw [if_neg isKeyword, if_neg isKeyword]
        rfl
  | moduleId keyword =>
      simp only [eraseSpans, next?, named, Option.map_map]
      rfl
  | moduleBrace keyword id =>
      simp only [eraseSpans, next?]
      rw [Lexeme.token_ofToken]
      by_cases isBrace : lexeme.token = .leftBrace
      · rw [if_pos isBrace, if_pos isBrace]
        rfl
      · rw [if_neg isBrace, if_neg isBrace]
        rfl
  | between opening =>
      exact Opening.next?_eraseSpans opening lexeme
  | equals opening typeId =>
      simp only [eraseSpans, next?]
      rw [Lexeme.token_ofToken]
      by_cases isEquals : lexeme.token = .equals
      · rw [if_pos isEquals, if_pos isEquals]
        rfl
      · rw [if_neg isEquals, if_neg isEquals]
        rfl
  | body opening typeId =>
      simp only [eraseSpans, next?, named]
      rw [Lexeme.token_ofToken]
      by_cases isBracket : lexeme.token = .leftParen
      · rw [if_pos isBracket, if_pos isBracket]
        rfl
      · rw [if_neg isBracket, if_neg isBracket, Option.map_map, Option.map_map]
        rfl
  | alternative opening typeId earlier =>
      simp only [eraseSpans, next?, named, Option.map_map]
      rfl
  | constructorId opening typeId earlier id =>
      have ended :=
        Constructor.next?_eraseSpans opening typeId earlier (.ofParts id none)
          lexeme
      simp only [eraseSpans, next?]
      rw [Lexeme.token_ofToken]
      by_cases isBracket : lexeme.token = .leftParen
      · rw [if_pos isBracket, if_pos isBracket]
        rfl
      · rw [if_neg isBracket, if_neg isBracket]
        exact ended
  | afterConstructor opening typeId earlier last =>
      exact Constructor.next?_eraseSpans opening typeId earlier last lexeme
  | afterProduct opening typeId members =>
      exact Body.next?_eraseSpans opening typeId (.product members) lexeme
  | attributesList opening typeId whole keyword =>
      simp only [eraseSpans, next?]
      rw [Lexeme.token_ofToken]
      by_cases isBracket : lexeme.token = .leftParen
      · rw [if_pos isBracket, if_pos isBracket]
        rfl
      · rw [if_neg isBracket, if_neg isBracket]
        rfl
  | fields opening owner bracket earlier stage =>
      exact Owner.next?_eraseSpans opening owner bracket earlier stage lexeme
  | closed module => rfl

/-- The state behind some tokens, if each of them can stand where it does. -/
def State.follow? : State → List Token → Option State
  | state, [] => some state
  | state, token :: rest =>
      match state.next? (.ofToken token) with
      | some after => after.follow? rest
      | none => none

private theorem State.follow?_append (state : State) (left right : List Token) :
    state.follow? (left ++ right) =
      (state.follow? left).bind fun after => after.follow? right := by
  induction left generalizing state with
  | nil => rfl
  | cons token rest ih =>
      simp only [List.cons_append, follow?]
      cases state.next? (.ofToken token) with
      | none => rfl
      | some after => exact ih after

theorem State.follow?_cons_of_next? {state after : State} {token : Token}
    (moved : state.next? (.ofToken token) = some after)
    (rest : List Token) :
    state.follow? (token :: rest) = after.follow? rest := by
  rw [follow?, moved]

theorem State.follow?_append_of_follow? {state after : State}
    {left : List Token} (followed : state.follow? left = some after)
    (right : List Token) :
    state.follow? (left ++ right) = after.follow? right := by
  rw [follow?_append, followed]
  rfl

/-- Lexemes are read to a tree exactly when their tokens lead to the end, and
the tokens decide the tree up to ranges. -/
theorem State.read_eq_ok_iff (size : Nat) (state : State)
    (lexemes : List Lexeme) (tree : Module) :
    (∃ module, state.read size lexemes = .ok module ∧
        module.eraseSpans = tree) ↔
      state.eraseSpans.follow? (lexemes.map Lexeme.token) =
        some (.closed tree) := by
  induction lexemes generalizing state with
  | nil =>
      cases state with
      | closed whole =>
          simp [read, finish, follow?, eraseSpans]
      | _ =>
          simp [read, finish, follow?, eraseSpans]
  | cons lexeme rest ih =>
      simp only [List.map_cons, follow?, next?_eraseSpans, read]
      cases state.next? lexeme with
      | none => simp
      | some after =>
          simp only [Option.map_some]
          exact ih after

theorem Module.parse_eq_ok_iff_follow? (source : String) (tree : Module) :
    (∃ module, Module.parse source = .ok module ∧
        module.eraseSpans = tree) ↔
      ∃ tokenization, tokenize source = .ok tokenization ∧
        State.start.follow? (tokenization.lexemes.map Lexeme.token) =
          some (.closed tree) := by
  unfold Module.parse
  cases tokenize source with
  | error error => simp
  | ok tokenization =>
      simp only [Except.ok.injEq, exists_eq_left']
      exact State.read_eq_ok_iff tokenization.size .start
        tokenization.lexemes tree

end Concrete

end Asdl
