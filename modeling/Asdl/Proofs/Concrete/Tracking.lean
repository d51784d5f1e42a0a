/-
The reader that descends and the reader that moves lexeme by lexeme, up to the
fields of a description.

Wherever a procedure is, the other reader stands in a state from which the
lexemes ahead have one and the same outcome.  A procedure takes a lexeme where
that state has a move and refuses one where it has none, with the same fault.
A range that ends at the lexeme in front of a place is the range that the other
reader puts together from parts.
-/

import Asdl.Proofs.Concrete.Progress
import Asdl.Proofs.Concrete.Refusal
import Asdl.Proofs.Token.Slice

namespace Asdl

namespace Tokenization

variable {tokenization : Tokenization} {place : Nat}

theorem size_tape (tokenization : Tokenization) :
    tokenization.tape.size = tokenization.lexemes.length + 1 := by
  simp [tape, Concrete.Tape.size, toList]

theorem toList_lexemes_tape (tokenization : Tokenization) :
    tokenization.tape.lexemes.toList =
      tokenization.lexemes ++ [.endOfInput tokenization.size] :=
  rfl

theorem getElem?_lexemeAt (inside : place ≤ tokenization.lexemes.length) :
    (tokenization.lexemes ++ [.endOfInput tokenization.size])[place]? =
      some (tokenization.tape.lexemeAt place) := by
  have isPlace : place < tokenization.tape.size := by
    rw [size_tape]
    omega
  rw [← toList_lexemes_tape, Array.getElem?_toList,
    Concrete.Tape.getElem?_of_lt isPlace]

theorem getElem_lexemeAt (before : place < tokenization.lexemes.length) :
    tokenization.lexemes[place] = tokenization.tape.lexemeAt place := by
  have here := getElem?_lexemeAt (Nat.le_of_lt before)
  rw [List.getElem?_append_left before, List.getElem?_eq_getElem before] at here
  exact Option.some.inj here

theorem lexemeAt_length (tokenization : Tokenization) :
    tokenization.tape.lexemeAt tokenization.lexemes.length =
      .endOfInput tokenization.size := by
  have here := @getElem?_lexemeAt tokenization _ (Nat.le_refl _)
  rw [List.getElem?_concat_length] at here
  exact (Option.some.inj here).symm

theorem drop_eq_cons (before : place < tokenization.lexemes.length) :
    tokenization.lexemes.drop place =
      tokenization.tape.lexemeAt place ::
        tokenization.lexemes.drop (place + 1) := by
  rw [List.drop_eq_getElem_cons before, getElem_lexemeAt before]

theorem lexemeAt_mono (ordered : Lexeme.Ordered tokenization.lexemes)
    {left right : Nat} (inOrder : left ≤ right)
    (before : right < tokenization.lexemes.length) :
    (tokenization.tape.lexemeAt left).span.start ≤
        (tokenization.tape.lexemeAt right).span.start ∧
      (tokenization.tape.lexemeAt left).span.stop ≤
        (tokenization.tape.lexemeAt right).span.stop := by
  rcases Nat.lt_or_eq_of_le inOrder with earlier | rfl
  · have leftBefore := Nat.lt_trans earlier before
    have apart :=
      List.pairwise_iff_getElem.mp ordered.apart left right leftBefore before
        earlier
    have leftForwards := ordered.forwards _ (List.getElem_mem leftBefore)
    have rightForwards := ordered.forwards _ (List.getElem_mem before)
    rw [getElem_lexemeAt leftBefore] at apart leftForwards
    rw [getElem_lexemeAt before] at apart rightForwards
    omega
  · exact ⟨Nat.le_refl _, Nat.le_refl _⟩

end Tokenization

namespace Concrete

variable {tokenization : Tokenization} {answer : Except SyntaxError Module}
variable {place : Nat}

/-- The range runs from the lexeme at one place to the lexeme in front of the
other. -/
structure Bounds (tokenization : Tokenization) (span : Span)
    (first behind : Nat) : Prop where
  forward : first < behind
  inside : behind ≤ tokenization.lexemes.length
  start : span.start = (tokenization.tape.lexemeAt first).span.start
  stop : span.stop = (tokenization.tape.lexemeAt (behind - 1)).span.stop

theorem Bounds.eq {left right : Span} {first behind : Nat}
    (leftBounds : Bounds tokenization left first behind)
    (rightBounds : Bounds tokenization right first behind) : left = right := by
  cases left
  cases right
  rw [Span.mk.injEq]
  exact
    ⟨leftBounds.start.trans rightBounds.start.symm,
      leftBounds.stop.trans rightBounds.stop.symm⟩

theorem Bounds.single (before : place < tokenization.lexemes.length) :
    Bounds tokenization (tokenization.tape.lexemeAt place).span place
      (place + 1) :=
  { forward := Nat.lt_succ_self place
    inside := before
    start := rfl
    stop := rfl }

theorem Bounds.cover {left right : Span}
    {first leftBehind second behind : Nat}
    (ordered : Lexeme.Ordered tokenization.lexemes)
    (leftBounds : Bounds tokenization left first leftBehind)
    (rightBounds : Bounds tokenization right second behind)
    (starts : first ≤ second) (stops : leftBehind ≤ behind) :
    Bounds tokenization (left.cover right) first behind := by
  obtain ⟨leftForward, leftInside, leftStart, leftStop⟩ := leftBounds
  obtain ⟨rightForward, rightInside, rightStart, rightStop⟩ := rightBounds
  have startsBefore :=
    (Tokenization.lexemeAt_mono ordered starts (by omega)).1
  have stopsBefore :=
    (Tokenization.lexemeAt_mono ordered (Nat.sub_le_sub_right stops 1)
      (by omega)).2
  refine
    { forward := by omega
      inside := rightInside
      start := ?_
      stop := ?_ }
  · simp only [Span.cover]
    omega
  · simp only [Span.cover]
    omega

theorem Bounds.coverPrevious {span : Span} {first middle behind : Nat}
    (ordered : Lexeme.Ordered tokenization.lexemes)
    (bounds : Bounds tokenization span first middle) (stops : middle ≤ behind)
    (inside : behind ≤ tokenization.lexemes.length) :
    Bounds tokenization
      (span.cover (tokenization.tape.lexemeAt (behind - 1)).span) first
      behind := by
  have forward := bounds.forward
  have last : Bounds tokenization
      (tokenization.tape.lexemeAt (behind - 1)).span (behind - 1) behind :=
    { forward := by omega
      inside := inside
      start := rfl
      stop := rfl }
  exact bounds.cover ordered last (by omega) stops

/-! ### Where the other reader stands -/

/-- From the state, the lexemes ahead of the place have the outcome. -/
structure State.Stands (tokenization : Tokenization)
    (answer : Except SyntaxError Module) (state : State) (place : Nat) :
    Prop where
  inside : place ≤ tokenization.lexemes.length
  reads :
    state.read tokenization.size (tokenization.lexemes.drop place) = answer

/-- The state has no move for the lexeme and reports the fault there. -/
structure State.Refuses (state : State) (lexeme : Lexeme)
    (fault : SyntaxFault) : Prop where
  blocked : state.next? lexeme = none
  fault : state.fault lexeme.token = fault
  unfinished : lexeme.token = .endOfInput → state.module? = none

namespace State

variable {state after : State}

theorem stands_start (tokenization : Tokenization) :
    start.Stands tokenization (Module.ofTokenization tokenization) 0 :=
  ⟨Nat.zero_le _, rfl⟩

theorem Stands.move (stands : state.Stands tokenization answer place)
    (moved : state.next? (tokenization.tape.lexemeAt place) = some after) :
    after.Stands tokenization answer (place + 1) := by
  rcases Nat.lt_or_eq_of_le stands.inside with before | rfl
  · refine ⟨before, ?_⟩
    rw [← stands.reads, Tokenization.drop_eq_cons before, read, moved]
  · rw [Tokenization.lexemeAt_length, next?_endOfInput] at moved
    cases moved

theorem Stands.refused {fault : SyntaxFault}
    (stands : state.Stands tokenization answer place)
    (refuses : state.Refuses (tokenization.tape.lexemeAt place) fault) :
    answer =
      .error
        { fault := fault
          span := (tokenization.tape.lexemeAt place).span } := by
  obtain ⟨blocked, rfl, unfinished⟩ := refuses
  rw [← stands.reads]
  rcases Nat.lt_or_eq_of_le stands.inside with before | rfl
  · rw [Tokenization.drop_eq_cons before, read, blocked]
    rfl
  · rw [Tokenization.lexemeAt_length] at unfinished ⊢
    rw [List.drop_length, read, finish_eq, unfinished rfl]
    rfl

/-- Two states that treat the next lexeme alike can stand for each other. -/
theorem Stands.congr {other : State}
    (stands : state.Stands tokenization answer place)
    (sameMove :
      state.next? (tokenization.tape.lexemeAt place) =
        other.next? (tokenization.tape.lexemeAt place))
    (sameFault : ∀ found, state.fault found = other.fault found)
    (unfinished : state.module? = none)
    (otherUnfinished : other.module? = none) :
    other.Stands tokenization answer place := by
  refine ⟨stands.inside, ?_⟩
  rw [← stands.reads]
  rcases Nat.lt_or_eq_of_le stands.inside with before | rfl
  · rw [Tokenization.drop_eq_cons before, read, read, sameMove, reject, reject,
      sameFault]
  · rw [List.drop_length, read, read, finish_eq, finish_eq, unfinished,
      otherUnfinished, reject, reject, sameFault]

end State

/-- The reading ends on a sound trail, with the fault of the other reader or
with a result and a place that meet the goal. -/
abbrev Follows {Result : Type} (tokenization : Tokenization)
    (answer : Except SyntaxError Module)
    (reading : Reading Result) (place : Nat) (Goal : Result → Nat → Prop) :
    Prop :=
  reading.Meets tokenization.tape
    (fun error => answer = .error error) place Goal

private theorem Identifier.span_of_ofLexeme? {lexeme : Lexeme} {id : Identifier}
    (named : Identifier.ofLexeme? lexeme = some id) :
    id.span = lexeme.span := by
  obtain ⟨name, _, rfl⟩ := Option.map_eq_some_iff.mp named
  rfl

namespace State.Stands

theorem follows_expect {state : State} {token : Token} (after : State)
    (stands : state.Stands tokenization answer place)
    (isMark : token ≠ .endOfInput)
    (moves : (tokenization.tape.lexemeAt place).token = token →
      state.next? (tokenization.tape.lexemeAt place) = some after)
    (refuses : (tokenization.tape.lexemeAt place).token ≠ token →
      state.Refuses (tokenization.tape.lexemeAt place)
        (.expectedToken token (tokenization.tape.lexemeAt place).token)) :
    Follows tokenization answer (.expect tokenization.tape token) place
      fun lexeme behind =>
        after.Stands tokenization answer behind ∧ behind = place + 1 ∧
          lexeme = tokenization.tape.lexemeAt place := by
  refine
    (Reading.meets_expect isMark fun other =>
      stands.refused (refuses other)).mono ?_
  rintro _ _ ⟨rfl, same, rfl⟩
  exact ⟨stands.move (moves same), rfl, rfl⟩

theorem follows_identifier {state : State} (after : Identifier → State)
    (stands : state.Stands tokenization answer place)
    (moves : ∀ id,
      Identifier.ofLexeme? (tokenization.tape.lexemeAt place) = some id →
      state.next? (tokenization.tape.lexemeAt place) = some (after id))
    (refuses :
      Identifier.ofLexeme? (tokenization.tape.lexemeAt place) = none →
      state.Refuses (tokenization.tape.lexemeAt place)
        (.expectedIdentifier (tokenization.tape.lexemeAt place).token)) :
    Follows tokenization answer (.identifier tokenization.tape) place
      fun id behind =>
        (after id).Stands tokenization answer behind ∧ behind = place + 1 ∧
          id.span = (tokenization.tape.lexemeAt place).span := by
  refine
    (Reading.meets_identifier fun other =>
      stands.refused (refuses other)).mono ?_
  rintro id _ ⟨named, rfl⟩
  exact
    ⟨stands.move (moves id named), rfl, Identifier.span_of_ofLexeme? named⟩

end State.Stands

section Fields

variable {opening : Opening} {owner : Owner} {bracket : Span}
variable {earlier : List Field} {typeId : Identifier}

def FieldStage.ofMarker? (typeId : Identifier) : Option Marker → FieldStage
  | none => typed typeId
  | some marker => marked typeId marker

private theorem FieldStage.field?_ofMarker? (typeId : Identifier)
    (marker? : Option Marker) :
    (ofMarker? typeId marker?).field? =
      some (.ofParts typeId marker? none) := by
  cases marker? <;> rfl

private theorem follows_marker?
    (stands :
      (State.fields opening owner bracket earlier (.typed typeId)).Stands
        tokenization answer (place + 1))
    (typeSpan : typeId.span = (tokenization.tape.lexemeAt place).span) :
    Follows tokenization answer (.marker? tokenization.tape) (place + 1)
      fun marker? behind =>
        (State.fields opening owner bracket earlier
            (.ofMarker? typeId marker?)).Stands tokenization answer behind ∧
          place < behind ∧
          (Field.ofParts typeId marker? none).span =
            typeId.span.cover
              (tokenization.tape.lexemeAt (behind - 1)).span ∧
          (marker? = none →
            Marker.ofLexeme? (tokenization.tape.lexemeAt behind) = none) := by
  have marks {marker : Marker}
      (isMarker :
        Marker.ofLexeme? (tokenization.tape.lexemeAt (place + 1)) =
          some marker) :
      (State.fields opening owner bracket earlier
          (.ofMarker? typeId (some marker))).Stands tokenization answer
        (place + 1 + 1) := by
    refine stands.move (State.next?_fields_of_stage _ _ _ _ ?_)
    rw [FieldStage.next?, isMarker]
    rfl
  refine (Reading.meets_eat (by decide)).bind ?_
  rintro (_ | span) _ eaten
  · obtain ⟨notQuestion, rfl⟩ := eaten
    refine (Reading.meets_eat (by decide)).bind ?_
    rintro (_ | span) _ eaten
    · obtain ⟨notStar, rfl⟩ := eaten
      refine Reading.meets_pure ⟨stands, by omega, ?_, fun _ => ?_⟩
      · rw [Nat.add_sub_cancel, ← typeSpan]
        rfl
      · unfold Marker.ofLexeme?
        split
        · contradiction
        · contradiction
        · rfl
    · obtain ⟨isStar, rfl, rfl⟩ := eaten
      refine Reading.meets_pure ⟨marks ?_, by omega, rfl, ?_⟩
      · simp only [Marker.ofLexeme?, isStar]
      · intro absent
        cases absent
  · obtain ⟨isQuestion, rfl, rfl⟩ := eaten
    refine Reading.meets_pure ⟨marks ?_, by omega, rfl, ?_⟩
    · simp only [Marker.ofLexeme?, isQuestion]
    · intro absent
      cases absent

theorem FieldStage.next?_ofMarker? {marker? : Option Marker} {lexeme : Lexeme}
    (settled : marker? = none → Marker.ofLexeme? lexeme = none) :
    (ofMarker? typeId marker?).next? lexeme =
      (Identifier.ofLexeme? lexeme).map (named typeId marker?) := by
  cases marker? with
  | none => rw [ofMarker?, next?, settled rfl]
  | some marker => rfl

theorem follows_field
    (stands :
      (State.fields opening owner bracket earlier .start).Stands tokenization
        answer place) :
    Follows tokenization answer (.field tokenization.tape) place
      fun field behind =>
        place < behind ∧
          ∃ stage,
            (State.fields opening owner bracket earlier stage).Stands
                tokenization answer behind ∧
              stage.field? = some field ∧
              stage.next? (tokenization.tape.lexemeAt behind) = none := by
  refine Reading.Meets.noting ?_
  refine
    (stands.follows_identifier
      (fun id => .fields opening owner bracket earlier (.typed id))
      (fun id named => State.next?_fields_of_stage _ _ _ _ ?_)
      fun noWord => ?_).bind ?_
  · rw [FieldStage.next?, named]
    rfl
  · refine ⟨?_, rfl, fun _ => rfl⟩
    simp only [State.next?, Owner.next?, FieldStage.next?, noWord,
      Option.map_none, FieldStage.field?]
  rintro typeId _ ⟨typed, rfl, typeSpan⟩
  refine (follows_marker? typed typeSpan).bind ?_
  rintro marker? behind ⟨marked, movedOn, lastSpan, settled⟩
  refine Reading.meets_word?.bind ?_
  rintro name? here ⟨isWord, rfl⟩
  cases name? with
  | none =>
      simp only [Option.isSome_none, Bool.false_eq_true, if_false, pure_bind]
      refine (Reading.meets_previousSpan (by omega)).bind ?_
      rintro last _ ⟨rfl, rfl⟩
      refine Reading.meets_pure ⟨movedOn, _, marked, ?_, ?_⟩
      · rw [FieldStage.field?_ofMarker?, ← lastSpan]
        rfl
      · rw [FieldStage.next?_ofMarker? settled, Identifier.ofLexeme?, ← isWord]
        rfl
  | some name =>
      simp only [Option.isSome_some, if_true, pure_bind]
      refine
        (marked.follows_identifier
          (fun id =>
            .fields opening owner bracket earlier (.named typeId marker? id))
          (fun id named => State.next?_fields_of_stage _ _ _ _ ?_)
      fun noWord => ?_).bind ?_
      · rw [FieldStage.next?_ofMarker? settled, named]
        rfl
      · rw [Identifier.ofLexeme?, ← isWord] at noWord
        cases noWord
      rintro id _ ⟨named, rfl, idSpan⟩
      refine (Reading.meets_previousSpan (by omega)).bind ?_
      rintro last _ ⟨rfl, rfl⟩
      refine Reading.meets_pure ⟨by omega, _, named, ?_, rfl⟩
      rw [Nat.add_sub_cancel, ← idSpan]
      cases marker? <;> rfl

def State.BehindFields (tokenization : Tokenization)
    (answer : Except SyntaxError Module) (opening : Opening) (owner : Owner)
    (bracket : Span) (fields : List Field) (place : Nat) : Prop :=
  ∃ earlier last stage,
    fields = earlier ++ [last] ∧
      (State.fields opening owner bracket earlier stage).Stands tokenization
        answer place ∧
      stage.field? = some last ∧
      stage.next? (tokenization.tape.lexemeAt place) = none

theorem State.BehindFields.follows_field {fields : List Field}
    (behind :
      State.BehindFields tokenization answer opening owner bracket fields
        place)
    (isComma : (tokenization.tape.lexemeAt place).token = .comma) :
    Follows tokenization answer (.field tokenization.tape) (place + 1)
      fun field after =>
        place + 1 < after ∧
          State.BehindFields tokenization answer opening owner bracket
            (fields ++ [field]) after := by
  obtain ⟨earlier, last, stage, rfl, stands, isLast, blocked⟩ := behind
  have next :
      (State.fields opening owner bracket (earlier ++ [last]) .start).Stands
        tokenization answer (place + 1) := by
    refine stands.move ?_
    simp only [State.next?, Owner.next?, blocked, isLast, isComma]
  refine (Concrete.follows_field next).mono ?_
  rintro field after ⟨movedOn, longer, longerStands, isField, longerBlocked⟩
  exact
    ⟨movedOn, earlier ++ [last], field, longer, rfl, longerStands, isField,
      longerBlocked⟩

private theorem State.BehindFields.follows_close {fields : List Field}
    (behind :
      State.BehindFields tokenization answer opening owner bracket fields
        place)
    (notComma : (tokenization.tape.lexemeAt place).token ≠ .comma) :
    Follows tokenization answer (.expect tokenization.tape .rightParen) place
      fun closing after =>
        (owner.close opening (.ofParts bracket fields closing.span)).Stands
            tokenization answer after ∧
          after = place + 1 ∧
          closing = tokenization.tape.lexemeAt place := by
  obtain ⟨earlier, last, stage, rfl, stands, isLast, blocked⟩ := behind
  refine
    (stands.follows_expect
      (owner.close opening
        (.ofParts bracket (earlier ++ [last])
          (tokenization.tape.lexemeAt place).span))
      (by decide) (fun isBracket => ?_) fun notBracket => ?_).mono ?_
  · simp only [State.next?, Owner.next?, blocked, isLast, isBracket]
  · refine ⟨?_, ?_, fun _ => rfl⟩
    · simp only [State.next?, Owner.next?, blocked, isLast]
      split
      · contradiction
      · contradiction
      · rfl
    · cases stage with
      | start => cases isLast
      | _ => rfl
  · rintro _ _ ⟨closed, rfl, rfl⟩
    exact ⟨closed, rfl, rfl⟩

theorem follows_fields {state : State}
    (ordered : Lexeme.Ordered tokenization.lexemes) (owner : Owner)
    (stands : state.Stands tokenization answer place)
    (opens : (tokenization.tape.lexemeAt place).token = .leftParen →
      state.next? (tokenization.tape.lexemeAt place) =
        some
          (.fields opening owner (tokenization.tape.lexemeAt place).span []
            .start))
    (refuses : (tokenization.tape.lexemeAt place).token ≠ .leftParen →
      state.Refuses (tokenization.tape.lexemeAt place)
        (.expectedToken .leftParen
          (tokenization.tape.lexemeAt place).token)) :
    Follows tokenization answer (.fields tokenization.tape) place
      fun list behind =>
        place < behind ∧
          (owner.close opening list).Stands tokenization answer behind ∧
          Bounds tokenization list.span place behind := by
  refine Reading.Meets.noting ?_
  refine (stands.follows_expect _ (by decide) opens refuses).bind ?_
  rintro _ _ ⟨opened, rfl, rfl⟩
  refine (follows_field opened).bind ?_
  rintro first behind ⟨movedOn, stage, firstStands, isFirst, blocked⟩
  refine
    (Reading.Meets.row
      (fun fields here =>
        place + 1 < here ∧
          State.BehindFields tokenization answer opening owner
            (tokenization.tape.lexemeAt place).span fields here)
      (by decide) ?_
      ⟨movedOn, [], first, stage, rfl, firstStands, isFirst, blocked⟩).bind ?_
  · rintro fields here ⟨inside, fieldsBehind⟩ isComma
    refine (fieldsBehind.follows_field isComma).mono ?_
    rintro field after ⟨further, longer⟩
    exact ⟨by omega, by omega, longer⟩
  rintro fields here ⟨⟨inside, fieldsBehind⟩, notComma⟩
  refine (fieldsBehind.follows_close notComma).bind ?_
  rintro _ _ ⟨closed, rfl, rfl⟩
  have before : here < tokenization.lexemes.length := closed.inside
  have firstBefore : place < tokenization.lexemes.length := by omega
  have bounds :=
    (Bounds.single firstBefore).cover ordered (.single before) (by omega)
      (by omega)
  exact Reading.meets_pure ⟨by omega, closed, bounds⟩

end Fields

end Concrete

end Asdl
