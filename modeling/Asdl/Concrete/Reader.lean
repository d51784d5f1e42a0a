/-
Reading a concrete tree from lexemes.

The grammar nests to a fixed depth, so a reader needs no stack: it is a machine
whose state is the part of the tree read so far.  `State.next?` is one move on
one lexeme, and `State.fault` says what a state wanted when it has no move.
A definition has no closing mark; it ends where the next lexeme cannot continue
it, and that lexeme is then read as what follows a definition.
-/

import Asdl.Concrete
import Asdl.Token.Cursor

namespace Asdl

inductive SyntaxFault where
  | lexical (fault : LexicalFault)
  | expectedToken (wanted found : Token)
  | expectedIdentifier (found : Token)
  | afterModule (found : Token)
deriving DecidableEq

def SyntaxFault.message : SyntaxFault → String
  | lexical fault => fault.message
  | expectedToken wanted found =>
      "expected '" ++ wanted.text ++ "', found '" ++ found.text ++ "'"
  | expectedIdentifier found =>
      "expected identifier, found '" ++ found.text ++ "'"
  | afterModule found =>
      "unexpected '" ++ found.text ++ "' after end of module"

abbrev SyntaxError := Located SyntaxFault

def LexicalError.toSyntaxError (error : LexicalError) : SyntaxError :=
  { fault := .lexical error.fault
    span := error.span }

namespace Concrete

def Identifier.ofLexeme? (lexeme : Lexeme) : Option Identifier :=
  lexeme.token.word?.map fun name =>
    { name := name
      span := lexeme.span }

def Marker.ofLexeme? (lexeme : Lexeme) : Option Marker :=
  match lexeme.token with
  | .question =>
      some
        { kind := .question
          span := lexeme.span }
  | .star =>
      some
        { kind := .star
          span := lexeme.span }
  | _ => none

structure Opening where
  keyword : Span
  id : Identifier
  definitions : List Definition
deriving DecidableEq

def Opening.add (opening : Opening) (definition : Definition) : Opening :=
  { opening with definitions := opening.definitions ++ [definition] }

/-- What a list of fields belongs to, with the part of the definition in front
of it. -/
inductive Owner where
  | product (typeId : Identifier)
  | constructor (typeId : Identifier) (earlier : List Constructor)
      (id : Identifier)
  | attributes (typeId : Identifier) (body : Body) (keyword : Span)
deriving DecidableEq

inductive FieldStage where
  | start
  | typed (typeId : Identifier)
  | marked (typeId : Identifier) (marker : Marker)
  | named (typeId : Identifier) (marker? : Option Marker) (id : Identifier)
deriving DecidableEq

def FieldStage.field? : FieldStage → Option Field
  | start => none
  | typed typeId => some (.ofParts typeId none none)
  | marked typeId marker => some (.ofParts typeId (some marker) none)
  | named typeId marker? id => some (.ofParts typeId marker? (some id))

def FieldStage.next? (stage : FieldStage) (lexeme : Lexeme) :
    Option FieldStage :=
  match stage with
  | start => (Identifier.ofLexeme? lexeme).map typed
  | typed typeId =>
      match Marker.ofLexeme? lexeme with
      | some marker => some (marked typeId marker)
      | none => (Identifier.ofLexeme? lexeme).map (named typeId none)
  | marked typeId marker =>
      (Identifier.ofLexeme? lexeme).map (named typeId (some marker))
  | named _ _ _ => none

/-- A module up to some point, named for what was read last or for what has to
follow. -/
inductive State where
  | start
  | moduleId (keyword : Span)
  | moduleBrace (keyword : Span) (id : Identifier)
  | between (opening : Opening)
  | equals (opening : Opening) (typeId : Identifier)
  | body (opening : Opening) (typeId : Identifier)
  | alternative (opening : Opening) (typeId : Identifier)
      (earlier : List Constructor)
  | constructorId (opening : Opening) (typeId : Identifier)
      (earlier : List Constructor) (id : Identifier)
  | afterConstructor (opening : Opening) (typeId : Identifier)
      (earlier : List Constructor) (last : Constructor)
  | afterProduct (opening : Opening) (typeId : Identifier)
      (fields : FieldList)
  | attributesList (opening : Opening) (typeId : Identifier) (body : Body)
      (keyword : Span)
  | fields (opening : Opening) (owner : Owner) (bracket : Span)
      (earlier : List Field) (stage : FieldStage)
  | closed (module : Module)
deriving DecidableEq

/-! ### Moves -/

def Opening.next? (opening : Opening) (lexeme : Lexeme) : Option State :=
  if lexeme.token = .rightBrace then
    some
      (.closed
        (.ofParts opening.keyword opening.id opening.definitions lexeme.span))
  else
    (Identifier.ofLexeme? lexeme).map (State.equals opening)

def Body.next? (opening : Opening) (typeId : Identifier) (body : Body)
    (lexeme : Lexeme) : Option State :=
  if lexeme.token = .attributesKeyword then
    some (.attributesList opening typeId body lexeme.span)
  else
    (opening.add (.ofParts typeId body none)).next? lexeme

def Constructor.next? (opening : Opening) (typeId : Identifier)
    (earlier : List Constructor) (last : Constructor) (lexeme : Lexeme) :
    Option State :=
  if lexeme.token = .bar then
    some (.alternative opening typeId (earlier ++ [last]))
  else
    Body.next? opening typeId (.sum (earlier ++ [last])) lexeme

/-- The state behind the bracket that closes a list of fields. -/
def Owner.close (opening : Opening) (fields : FieldList) : Owner → State
  | product typeId => .afterProduct opening typeId fields
  | constructor typeId earlier id =>
      .afterConstructor opening typeId earlier (.ofParts id (some fields))
  | attributes typeId body keyword =>
      .between
        (opening.add
          (.ofParts typeId body
            (some
              { keyword := keyword
                fields := fields })))

def Owner.next? (opening : Opening) (owner : Owner) (bracket : Span)
    (earlier : List Field) (stage : FieldStage) (lexeme : Lexeme) :
    Option State :=
  match stage.next? lexeme with
  | some longer => some (.fields opening owner bracket earlier longer)
  | none =>
      match stage.field?, lexeme.token with
      | some field, .comma =>
          some (.fields opening owner bracket (earlier ++ [field]) .start)
      | some field, .rightParen =>
          some
            (owner.close opening
              (.ofParts bracket (earlier ++ [field]) lexeme.span))
      | _, _ => none

namespace State

/-- The state behind one more lexeme, if the lexeme can stand there. -/
def next? (state : State) (lexeme : Lexeme) : Option State :=
  match state with
  | start =>
      if lexeme.token = .moduleKeyword then
        some (moduleId lexeme.span)
      else
        none
  | moduleId keyword =>
      (Identifier.ofLexeme? lexeme).map (moduleBrace keyword)
  | moduleBrace keyword id =>
      if lexeme.token = .leftBrace then
        some
          (between
            { keyword := keyword
              id := id
              definitions := [] })
      else
        none
  | between opening => opening.next? lexeme
  | equals opening typeId =>
      if lexeme.token = .equals then
        some (body opening typeId)
      else
        none
  | body opening typeId =>
      if lexeme.token = .leftParen then
        some (fields opening (.product typeId) lexeme.span [] .start)
      else
        (Identifier.ofLexeme? lexeme).map (constructorId opening typeId [])
  | alternative opening typeId earlier =>
      (Identifier.ofLexeme? lexeme).map (constructorId opening typeId earlier)
  | constructorId opening typeId earlier id =>
      if lexeme.token = .leftParen then
        some
          (fields opening (.constructor typeId earlier id) lexeme.span []
            .start)
      else
        Constructor.next? opening typeId earlier (.ofParts id none) lexeme
  | afterConstructor opening typeId earlier last =>
      Constructor.next? opening typeId earlier last lexeme
  | afterProduct opening typeId members =>
      Body.next? opening typeId (.product members) lexeme
  | attributesList opening typeId whole keyword =>
      if lexeme.token = .leftParen then
        some
          (fields opening (.attributes typeId whole keyword) lexeme.span []
            .start)
      else
        none
  | fields opening owner bracket earlier stage =>
      owner.next? opening bracket earlier stage lexeme
  | closed _ => none

/-- What is wrong with a token that a state has no move for. -/
def fault (state : State) (found : Token) : SyntaxFault :=
  match state with
  | start => .expectedToken .moduleKeyword found
  | moduleId _ => .expectedIdentifier found
  | moduleBrace _ _ => .expectedToken .leftBrace found
  | between _ | constructorId _ _ _ _ | afterConstructor _ _ _ _
  | afterProduct _ _ _ =>
      if found = .endOfInput then
        .expectedToken .rightBrace found
      else
        .expectedIdentifier found
  | equals _ _ => .expectedToken .equals found
  | body _ _ => .expectedIdentifier found
  | alternative _ _ _ => .expectedIdentifier found
  | attributesList _ _ _ _ => .expectedToken .leftParen found
  | fields _ _ _ _ .start => .expectedIdentifier found
  | fields _ _ _ _ _ => .expectedToken .rightParen found
  | closed _ => .afterModule found

def reject (state : State) (lexeme : Lexeme) : SyntaxError :=
  { fault := state.fault lexeme.token
    span := lexeme.span }

def finish (state : State) (size : Nat) : Except SyntaxError Module :=
  match state with
  | closed module => .ok module
  | other => .error (other.reject (.endOfInput size))

def read (size : Nat) : State → List Lexeme → Except SyntaxError Module
  | state, [] => state.finish size
  | state, lexeme :: rest =>
      match state.next? lexeme with
      | some after => after.read size rest
      | none => .error (state.reject lexeme)

end State

def Module.ofTokenization (tokenization : Tokenization) :
    Except SyntaxError Module :=
  State.start.read tokenization.size tokenization.lexemes

/-- The concrete tree of a source.  The whole source is cut into lexemes first,
so a character that begins no token is the fault wherever it stands. -/
def Module.parse (source : String) : Except SyntaxError Module :=
  match tokenize source with
  | .error error => .error (LexicalError.toSyntaxError error)
  | .ok tokenization => Module.ofTokenization tokenization

end Concrete

end Asdl
