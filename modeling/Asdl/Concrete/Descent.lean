/-
Reading a concrete tree by descent.

Each rule of the grammar has a procedure, and the procedures share a tape of
lexemes and a place on it.  A procedure looks at the lexeme at its place, takes
it or leaves it, and builds its node from what the procedures it called have
built.  A repeated part is a loop without a bound, so a run may have no end; it
has no outcome then.

A run keeps a trail: every index that it asked the tape for, every lexeme that
it took, and where each call of a rule and each round of a loop began and ended.
-/

import Asdl.Concrete.Reader

namespace Asdl

namespace Concrete

/-- Lexemes with the end of the input as the last one. -/
structure Tape where
  lexemes : Array Lexeme
  ends : lexemes.back?.map Lexeme.token = some .endOfInput

namespace Tape

def size (tape : Tape) : Nat :=
  tape.lexemes.size

theorem size_pos (tape : Tape) : 0 < tape.size := by
  have ends := tape.ends
  rcases Nat.eq_zero_or_pos tape.size with isEmpty | filled
  · rw [size, Array.size_eq_zero_iff] at isEmpty
    rw [isEmpty] at ends
    cases ends
  · exact filled

/-- An index of the tape for any number: the last index stands in for the
numbers behind it. -/
def clamp (tape : Tape) (index : Nat) : Fin tape.lexemes.size :=
  ⟨min index (tape.size - 1), by
    have filled := tape.size_pos
    unfold size at filled ⊢
    omega⟩

def lexemeAt (tape : Tape) (index : Nat) : Lexeme :=
  tape.lexemes[tape.clamp index]

end Tape

end Concrete

def Tokenization.tape (tokenization : Tokenization) : Concrete.Tape :=
  { lexemes := tokenization.toList.toArray
    ends := by simp [toList, Lexeme.endOfInput] }

namespace Concrete

inductive Procedure where
  | definition
  | constructor
  | fields
  | field
deriving DecidableEq

inductive Loop where
  | definitions
  | constructors
  | fields
deriving DecidableEq

/-- What a run did.  Calls and rounds are noted when they succeed, with the
places where they began and ended. -/
inductive Event where
  | asked (index : Nat)
  | took (lexeme : Lexeme) (behind : Nat)
  | called (procedure : Procedure) (start stop : Nat)
  | repeated (loop : Loop) (start stop : Nat)
deriving DecidableEq

def Event.lexeme? : Event → Option Lexeme
  | took lexeme _ => some lexeme
  | _ => none

structure Trail where
  place : Nat
  events : Array Event
deriving DecidableEq

namespace Trail

def start : Trail :=
  { place := 0
    events := #[] }

def note (trail : Trail) (event : Event) : Trail :=
  { trail with events := trail.events.push event }

def take (trail : Trail) (lexeme : Lexeme) (behind : Nat) : Trail :=
  { place := behind
    events := trail.events.push (.took lexeme behind) }

def taken (trail : Trail) : List Lexeme :=
  trail.events.toList.filterMap Event.lexeme?

theorem taken_note {event : Event} (trail : Trail)
    (takesNothing : event.lexeme? = none) :
    (trail.note event).taken = trail.taken := by
  simp [taken, note, takesNothing]

theorem taken_take (trail : Trail) (lexeme : Lexeme) (behind : Nat) :
    (trail.take lexeme behind).taken = trail.taken ++ [lexeme] := by
  simp [taken, take, Event.lexeme?]

end Trail

/-- A procedure that goes along a trail.  It ends with a result or a fault, and
with the trail so far in either case, or it does not end. -/
abbrev Reading :=
  ExceptT SyntaxError (StateT Trail Option)

namespace Reading

def outcome? {Result : Type} (reading : Reading Result) (trail : Trail) :
    Option (Except SyntaxError Result × Trail) :=
  reading.run.run trail

theorem outcome?_pure {Result : Type} (result : Result) (trail : Trail) :
    (pure result : Reading Result).outcome? trail = some (.ok result, trail) :=
  rfl

theorem outcome?_bind {First Result : Type} (reading : Reading First)
    (next : First → Reading Result) (trail : Trail) :
    (reading >>= next).outcome? trail =
      match reading.outcome? trail with
      | some (.ok result, after) => (next result).outcome? after
      | some (.error error, after) => some (.error error, after)
      | none => none := by
  change Option.bind (reading.outcome? trail) _ = _
  rcases reading.outcome? trail with _ | ⟨_ | _, _⟩ <;> rfl

def place : Reading Nat :=
  return (← get).place

theorem outcome?_place (trail : Trail) :
    place.outcome? trail = some (.ok trail.place, trail) :=
  rfl

def note (event : Event) : Reading Unit :=
  modify fun trail => trail.note event

theorem outcome?_note (event : Event) (trail : Trail) :
    (note event).outcome? trail = some (.ok (), trail.note event) :=
  rfl

def noting {Result : Type} (event : Nat → Nat → Event)
    (reading : Reading Result) : Reading Result := do
  let start ← place
  let result ← reading
  let stop ← place
  note (event start stop)
  return result

theorem outcome?_noting {Result : Type} (event : Nat → Nat → Event)
    (reading : Reading Result) (trail : Trail) :
    (noting event reading).outcome? trail =
      match reading.outcome? trail with
      | some (.ok result, after) =>
          some (.ok result, after.note (event trail.place after.place))
      | some (.error error, after) => some (.error error, after)
      | none => none := by
  unfold noting
  simp only [outcome?_bind, outcome?_place, outcome?_note, outcome?_pure]

end Reading

/-- One item after another, each appended to the earlier ones, until none comes
back. -/
def Loop.rounds {Item : Type} (loop : Loop) (next? : Reading (Option Item))
    (earlier : List Item) : Reading (List Item) := do
  let start ← Reading.place
  match ← next? with
  | none => return earlier
  | some item =>
      let stop ← Reading.place
      Reading.note (.repeated loop start stop)
      loop |>.rounds next? (earlier ++ [item])
partial_fixpoint

theorem Loop.outcome?_rounds {Item : Type} (loop : Loop)
    (next? : Reading (Option Item)) (earlier : List Item) (trail : Trail) :
    (loop.rounds next? earlier).outcome? trail =
      match next?.outcome? trail with
      | some (.ok none, after) => some (.ok earlier, after)
      | some (.ok (some item), after) =>
          (loop.rounds next? (earlier ++ [item])).outcome?
            (after.note (.repeated loop trail.place after.place))
      | some (.error error, after) => some (.error error, after)
      | none => none := by
  rw [Loop.rounds]
  simp only [Reading.outcome?_bind, Reading.outcome?_place]
  rcases next?.outcome? trail with _ | ⟨_ | _ | _, _⟩ <;>
    simp only [Reading.outcome?_pure, Reading.outcome?_bind,
      Reading.outcome?_place, Reading.outcome?_note]

namespace Reading

section Lexemes

variable (tape : Tape)

def ask (index : Nat) : Reading Lexeme := do
  note (.asked index)
  return tape.lexemeAt index

def current : Reading Lexeme := do
  let here ← place
  ask tape here

def previousSpan : Reading Span := do
  let here ← place
  if here = 0 then
    return .zero
  else
    let previous ← ask tape (here - 1)
    return previous.span

/-- Takes the current lexeme.  Behind the last lexeme the place stays. -/
def advance : Reading Lexeme := do
  let here ← place
  let lexeme ← ask tape here
  let behind := if here < tape.size then here + 1 else here
  modify fun trail => trail.take lexeme behind
  return lexeme

def check (token : Token) : Reading Bool := do
  let lexeme ← current tape
  return lexeme.token = token

def eat (token : Token) : Reading (Option Span) := do
  if ← check tape token then
    let lexeme ← advance tape
    return some lexeme.span
  else
    return none

def refuse {Result : Type} (fault : Token → SyntaxFault) :
    Reading Result := do
  let found ← current tape
  let lexeme ← current tape
  throw
    { fault := fault found.token
      span := lexeme.span }

def expect (token : Token) : Reading Lexeme := do
  if ← check tape token then
    advance tape
  else
    refuse tape (.expectedToken token)

def word? : Reading (Option String) := do
  let lexeme ← current tape
  return lexeme.token.word?

def identifier : Reading Identifier := do
  match ← word? tape with
  | some name =>
      let lexeme ← current tape
      let _ ← advance tape
      pure
        { name := name
          span := lexeme.span }
  | none => refuse tape .expectedIdentifier

end Lexemes

/-! ### Rules -/

section Rules

variable (tape : Tape)

def marker? : Reading (Option Marker) := do
  match ← eat tape .question with
  | some span =>
      return some
        { kind := .question
          span := span }
  | none =>
      match ← eat tape .star with
      | some span =>
          return some
            { kind := .star
              span := span }
      | none => return none

def field : Reading Field :=
  noting (.called .field) do
    let typeId ← identifier tape
    let mark? ← marker? tape
    let name? ← word? tape
    let id? ←
      if name?.isSome then
        let id ← identifier tape
        pure (some id)
      else
        pure none
    let last ← previousSpan tape
    pure
      { typeId := typeId
        marker? := mark?
        id? := id?
        span := typeId.span.cover last }

/-- The next item of a list, if the separator stands in front of it. -/
def separated {Item : Type} (separator : Token) (item : Reading Item) :
    Reading (Option Item) := do
  match ← eat tape separator with
  | some _ =>
      let next ← item
      return some next
  | none => return none

def fields : Reading FieldList :=
  noting (.called .fields) do
    let opening ← expect tape .leftParen
    let first ← field tape
    let all ← Loop.fields.rounds (separated tape .comma (field tape)) [first]
    let closing ← expect tape .rightParen
    pure
      { fields := all
        span := opening.span.cover closing.span }

def attributes? : Reading (Option Attributes) := do
  match ← eat tape .attributesKeyword with
  | some keyword =>
      let list ← fields tape
      return some
        { keyword := keyword
          fields := list }
  | none => return none

def constructor : Reading Constructor :=
  noting (.called .constructor) do
    let id ← identifier tape
    let fields? ←
      if ← check tape .leftParen then
        let list ← fields tape
        pure (some list)
      else
        pure none
    let last ← previousSpan tape
    pure
      { id := id
        fields? := fields?
        span := id.span.cover last }

def product : Reading (Body × Option Attributes) := do
  let list ← fields tape
  let clause? ← attributes? tape
  return (.product list, clause?)

def sum : Reading (Body × Option Attributes) := do
  let first ← constructor tape
  let all ←
    Loop.constructors.rounds (separated tape .bar (constructor tape)) [first]
  let clause? ← attributes? tape
  return (.sum all, clause?)

def body : Reading (Body × Option Attributes) := do
  if ← check tape .leftParen then
    product tape
  else
    sum tape

def definition : Reading Definition :=
  noting (.called .definition) do
    let typeId ← identifier tape
    let _ ← expect tape .equals
    let (body, clause?) ← body tape
    let last ← previousSpan tape
    pure
      { typeId := typeId
        body := body
        attributes? := clause?
        span := typeId.span.cover last }

def definition? : Reading (Option Definition) := do
  if ← check tape .rightBrace then
    return none
  else if ← check tape .endOfInput then
    return none
  else
    let next ← definition tape
    return some next

def module : Reading Module := do
  let start ← current tape
  let _ ← expect tape .moduleKeyword
  let id ← identifier tape
  let _ ← expect tape .leftBrace
  let definitions ← Loop.definitions.rounds (definition? tape) []
  let closing ← expect tape .rightBrace
  if ← check tape .endOfInput then
    pure
      { id := id
        definitions := definitions
        span := start.span.cover closing.span }
  else
    refuse tape .afterModule

end Rules

end Reading

/-- The concrete tree of a source, read by descent, and the trail of the run. -/
def Module.descend (source : String) :
    Option (Except SyntaxError Module × Trail) :=
  match tokenize source with
  | .error error => some (.error (LexicalError.toSyntaxError error), .start)
  | .ok tokenization =>
      (Reading.module tokenization.tape).outcome? .start

end Concrete

end Asdl
