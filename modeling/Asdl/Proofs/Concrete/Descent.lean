/-
Reading a whole description by descent.

From the fields up to the module, every procedure follows the reader that moves
lexeme by lexeme.  So a run of the descent on the lexemes of a source comes to
an end, and its outcome is the outcome of that reader.  On its way the run moves
on with every call and every round, and it never takes the end of the input.
-/

import Asdl.Proofs.Concrete.Tracking

namespace Asdl.Concrete

variable {tokenization : Tokenization} {answer : Except SyntaxError Module}
variable {place : Nat} {opening : Opening} {typeId : Identifier}

theorem follows_constructor {state : State} {earlier : List Constructor}
    (ordered : Lexeme.Ordered tokenization.lexemes)
    (stands : state.Stands tokenization answer place)
    (moves : ∀ id,
      Identifier.ofLexeme? (tokenization.tape.lexemeAt place) = some id →
      state.next? (tokenization.tape.lexemeAt place) =
        some (.constructorId opening typeId earlier id))
    (refuses :
      Identifier.ofLexeme? (tokenization.tape.lexemeAt place) = none →
      state.Refuses (tokenization.tape.lexemeAt place)
        (.expectedIdentifier (tokenization.tape.lexemeAt place).token)) :
    Follows tokenization answer (.constructor tokenization.tape) place
      fun constructor behind =>
        place < behind ∧
          (State.afterConstructor opening typeId earlier constructor).Stands
            tokenization answer behind ∧
          Bounds tokenization constructor.span place behind := by
  refine Reading.Meets.noting ?_
  refine (stands.follows_identifier _ moves refuses).bind ?_
  rintro id _ ⟨named, rfl, idSpan⟩
  have idBounds : Bounds tokenization id.span place (place + 1) := by
    rw [idSpan]
    exact .single named.inside
  refine Reading.meets_check.bind ?_
  rintro (_ | _) _ ⟨rfl, found⟩
  · simp only [Bool.false_eq_true, if_false, pure_bind]
    refine (Reading.meets_previousSpan (by omega)).bind ?_
    rintro last _ ⟨rfl, rfl⟩
    have bounds := idBounds.coverPrevious ordered (Nat.le_refl _) named.inside
    have same :=
      bounds.eq
        (idBounds.cover ordered idBounds (Nat.le_refl _) (Nat.le_refl _))
    have ended :
        (State.afterConstructor opening typeId earlier
          (.ofParts id none)).Stands tokenization answer (place + 1) :=
      named.congr (if_neg found) (fun _ => rfl) rfl rfl
    refine Reading.meets_pure ⟨by omega, ?_, bounds⟩
    rw [same]
    exact ended
  · simp only [if_true, pure_bind]
    refine
      (follows_fields ordered (.constructor typeId earlier id) named
        (fun opened => if_pos opened) fun other => absurd found other).bind ?_
    rintro list behind ⟨movedOn, closed, listBounds⟩
    refine (Reading.meets_previousSpan (by omega)).bind ?_
    rintro last _ ⟨rfl, rfl⟩
    have bounds :=
      idBounds.coverPrevious ordered (Nat.le_of_lt movedOn) closed.inside
    have same :=
      bounds.eq
        (idBounds.cover ordered listBounds (by omega) (Nat.le_of_lt movedOn))
    refine Reading.meets_pure ⟨by omega, ?_, bounds⟩
    rw [same]
    exact closed

theorem State.Stands.follows_alternative {earlier : List Constructor}
    (ordered : Lexeme.Ordered tokenization.lexemes)
    (stands :
      (State.alternative opening typeId earlier).Stands tokenization answer
        place) :
    Follows tokenization answer (.constructor tokenization.tape) place
      fun constructor behind =>
        place < behind ∧
          (State.afterConstructor opening typeId earlier constructor).Stands
            tokenization answer behind ∧
          Bounds tokenization constructor.span place behind := by
  refine follows_constructor ordered stands ?_ ?_
  · intro id named
    rw [State.next?, named]
    rfl
  · intro noWord
    refine ⟨?_, rfl, fun _ => rfl⟩
    rw [State.next?, noWord]
    rfl

def State.BehindConstructors (tokenization : Tokenization)
    (answer : Except SyntaxError Module) (opening : Opening)
    (typeId : Identifier) (start : Nat) (constructors : List Constructor)
    (place : Nat) : Prop :=
  ∃ earlier last first,
    constructors = earlier ++ [last] ∧ start ≤ first ∧
      (State.afterConstructor opening typeId earlier last).Stands tokenization
        answer place ∧
      Bounds tokenization last.span first place

theorem State.BehindConstructors.follows_constructor {start : Nat}
    {constructors : List Constructor}
    (ordered : Lexeme.Ordered tokenization.lexemes)
    (behind :
      State.BehindConstructors tokenization answer opening typeId start
        constructors place)
    (isBar : (tokenization.tape.lexemeAt place).token = .bar) :
    Follows tokenization answer (.constructor tokenization.tape) (place + 1)
      fun constructor after =>
        place < after ∧
          State.BehindConstructors tokenization answer opening typeId start
            (constructors ++ [constructor]) after := by
  obtain ⟨earlier, last, first, rfl, starts, stands, bounds⟩ := behind
  have next :
      (State.alternative opening typeId (earlier ++ [last])).Stands
        tokenization answer (place + 1) :=
    stands.move (if_pos isBar)
  have forward := bounds.forward
  refine (next.follows_alternative ordered).mono ?_
  rintro constructor after ⟨movedOn, nextStands, nextBounds⟩
  exact
    ⟨by omega, earlier ++ [last], constructor, place + 1, rfl, by omega,
      nextStands, nextBounds⟩

/-- The state takes the next lexeme for one behind the body. -/
structure State.BehindBody (tokenization : Tokenization)
    (answer : Except SyntaxError Module) (opening : Opening)
    (typeId : Identifier) (body : Body) (state : State) (place : Nat) :
    Prop where
  stands : state.Stands tokenization answer place
  next :
    state.next? (tokenization.tape.lexemeAt place) =
      Body.next? opening typeId body (tokenization.tape.lexemeAt place)
  fault : ∀ found, state.fault found = (State.between opening).fault found
  unfinished : state.module? = none

/-- The parts of a definition are read, and the last of them ends at the
place. -/
structure State.BehindParts (tokenization : Tokenization)
    (answer : Except SyntaxError Module) (opening : Opening)
    (typeId : Identifier) (start : Nat) (parts : Body × Option Attributes)
    (place : Nat) : Prop where
  stands :
    (State.between (opening.add (.ofParts typeId parts.1 parts.2))).Stands
      tokenization answer place
  last :
    ∃ last first,
      start ≤ first ∧ Bounds tokenization last first place ∧
        (Definition.ofParts typeId parts.1 parts.2).span =
          typeId.span.cover last

theorem State.BehindBody.follows_attributes? {state : State} {body : Body}
    {last : Span} {start first : Nat}
    (ordered : Lexeme.Ordered tokenization.lexemes)
    (behind : state.BehindBody tokenization answer opening typeId body place)
    (isLast : body.lastSpan? = some last) (starts : start ≤ first)
    (bounds : Bounds tokenization last first place) :
    Follows tokenization answer (.attributes? tokenization.tape) place
      fun clause? after =>
        State.BehindParts tokenization answer opening typeId start
          (body, clause?) after := by
  refine (Reading.meets_eat (by decide)).bind ?_
  rintro (_ | keyword) _ eaten
  · obtain ⟨noClause, rfl⟩ := eaten
    refine Reading.meets_pure { stands := ?_, last := ?_ }
    · refine behind.stands.congr ?_ behind.fault behind.unfinished rfl
      rw [behind.next, Body.next?, if_neg noClause]
      rfl
    · refine ⟨last, first, starts, bounds, ?_⟩
      rw [Definition.ofParts, isLast]
      rfl
  · obtain ⟨isClause, rfl, rfl⟩ := eaten
    have clause :
        (State.attributesList opening typeId body
          (tokenization.tape.lexemeAt place).span).Stands tokenization answer
          (place + 1) := by
      refine behind.stands.move ?_
      rw [behind.next, Body.next?, if_pos isClause]
    refine
      (follows_fields ordered
        (.attributes typeId body (tokenization.tape.lexemeAt place).span)
        clause (fun opened => if_pos opened) fun other =>
          ⟨if_neg other, rfl, fun _ => rfl⟩).bind ?_
    rintro list after ⟨movedOn, closed, listBounds⟩
    have forward := bounds.forward
    exact
      Reading.meets_pure
        { stands := closed
          last := ⟨list.span, place + 1, by omega, listBounds, rfl⟩ }

private theorem follows_product (ordered : Lexeme.Ordered tokenization.lexemes)
    (stands : (State.body opening typeId).Stands tokenization answer place)
    (opened : (tokenization.tape.lexemeAt place).token = .leftParen) :
    Follows tokenization answer (.product tokenization.tape) place
      (State.BehindParts tokenization answer opening typeId place) := by
  refine
    (follows_fields ordered (.product typeId) stands
      (fun isOpened => if_pos isOpened) fun other =>
        absurd opened other).bind ?_
  rintro list behind ⟨movedOn, closed, bounds⟩
  have behindBody :
      (State.afterProduct opening typeId list).BehindBody tokenization answer
        opening typeId (.product list) behind :=
    ⟨closed, rfl, fun _ => rfl, rfl⟩
  refine
    (behindBody.follows_attributes? ordered rfl (Nat.le_refl place)
      bounds).bind ?_
  intro clause? after whole
  exact Reading.meets_pure whole

private theorem follows_sum (ordered : Lexeme.Ordered tokenization.lexemes)
    (stands : (State.body opening typeId).Stands tokenization answer place)
    (notOpened : (tokenization.tape.lexemeAt place).token ≠ .leftParen) :
    Follows tokenization answer (.sum tokenization.tape) place
      (State.BehindParts tokenization answer opening typeId place) := by
  have moves : ∀ id,
      Identifier.ofLexeme? (tokenization.tape.lexemeAt place) = some id →
      (State.body opening typeId).next? (tokenization.tape.lexemeAt place) =
        some (.constructorId opening typeId [] id) := by
    intro id named
    rw [State.next?, if_neg notOpened, named]
    rfl
  refine
    (follows_constructor ordered stands moves fun noWord => ?_).bind ?_
  · refine ⟨?_, rfl, fun _ => rfl⟩
    rw [State.next?, if_neg notOpened, noWord]
    rfl
  rintro first behind ⟨movedOn, firstStands, firstBounds⟩
  refine
    (Reading.Meets.row
      (State.BehindConstructors tokenization answer opening typeId place)
      (by decide)
      (fun constructors here kept isBar =>
        kept.follows_constructor ordered isBar)
      ⟨[], first, place, rfl, Nat.le_refl place, firstStands,
        firstBounds⟩).bind ?_
  rintro _ here ⟨⟨earlier, last, start, rfl, starts, ended, bounds⟩, notBar⟩
  have behindBody :
      (State.afterConstructor opening typeId earlier last).BehindBody
        tokenization answer opening typeId (.sum (earlier ++ [last])) here :=
    ⟨ended, if_neg notBar, fun _ => rfl, rfl⟩
  have isLast :
      (Body.sum (earlier ++ [last])).lastSpan? = some last.span := by
    rw [Body.lastSpan?, List.getLast?_concat]
    rfl
  refine
    (behindBody.follows_attributes? ordered isLast starts bounds).bind ?_
  intro clause? after whole
  exact Reading.meets_pure whole

private theorem follows_body (ordered : Lexeme.Ordered tokenization.lexemes)
    (stands : (State.body opening typeId).Stands tokenization answer place) :
    Follows tokenization answer (.body tokenization.tape) place
      (State.BehindParts tokenization answer opening typeId place) := by
  refine Reading.meets_check.bind ?_
  rintro (_ | _) here ⟨rfl, found⟩
  · exact follows_sum ordered stands found
  · exact follows_product ordered stands found

theorem follows_definition (ordered : Lexeme.Ordered tokenization.lexemes)
    (stands : (State.between opening).Stands tokenization answer place)
    (notClosed : (tokenization.tape.lexemeAt place).token ≠ .rightBrace)
    (notEnded : (tokenization.tape.lexemeAt place).token ≠ .endOfInput) :
    Follows tokenization answer (.definition tokenization.tape) place
      fun definition behind =>
        place < behind ∧
          (State.between (opening.add definition)).Stands tokenization answer
            behind := by
  refine Reading.Meets.noting ?_
  refine
    (stands.follows_identifier (.equals opening) (fun id named => ?_)
      fun noWord => ?_).bind ?_
  · rw [State.next?, Opening.next?, if_neg notClosed, named]
    rfl
  · refine ⟨?_, if_neg notEnded, fun _ => rfl⟩
    rw [State.next?, Opening.next?, if_neg notClosed, noWord]
    rfl
  rintro typeId _ ⟨named, rfl, idSpan⟩
  have idBounds : Bounds tokenization typeId.span place (place + 1) := by
    rw [idSpan]
    exact .single named.inside
  refine
    (named.follows_expect (.body opening typeId) (by decide)
      (fun isEquals => if_pos isEquals) fun other =>
        ⟨if_neg other, rfl, fun _ => rfl⟩).bind ?_
  rintro _ _ ⟨equated, rfl, -⟩
  refine (follows_body ordered equated).bind ?_
  rintro ⟨body, clause?⟩ behind ⟨ended, last, first, starts, bounds, sameSpan⟩
  have forward := bounds.forward
  refine (Reading.meets_previousSpan (by omega)).bind ?_
  rintro previous _ ⟨rfl, rfl⟩
  have same :=
    (idBounds.coverPrevious ordered (by omega) ended.inside).eq
      (idBounds.cover ordered bounds (by omega) (by omega))
  refine Reading.meets_pure ⟨by omega, ?_⟩
  rw [same, ← sameSpan]
  exact ended

private theorem follows_definition?
    (ordered : Lexeme.Ordered tokenization.lexemes)
    (stands : (State.between opening).Stands tokenization answer place) :
    Follows tokenization answer (.definition? tokenization.tape) place
      fun definition? behind =>
        match definition? with
        | some definition =>
            place < behind ∧
              (State.between (opening.add definition)).Stands tokenization
                answer behind
        | none =>
            behind = place ∧
              ((tokenization.tape.lexemeAt place).token = .rightBrace ∨
                (tokenization.tape.lexemeAt place).token = .endOfInput) := by
  refine Reading.meets_check.bind ?_
  rintro (_ | _) here ⟨rfl, notClosed⟩
  · refine Reading.meets_check.bind ?_
    rintro (_ | _) here ⟨rfl, notEnded⟩
    · refine
        (follows_definition ordered stands notClosed notEnded).bind ?_
      intro definition behind met
      exact Reading.meets_pure met
    · exact Reading.meets_pure ⟨rfl, .inr notEnded⟩
  · exact Reading.meets_pure ⟨rfl, .inl notClosed⟩

private theorem follows_definitions {keyword : Span} {id : Identifier}
    {earlier : List Definition}
    (ordered : Lexeme.Ordered tokenization.lexemes)
    (stands :
      (State.between ⟨keyword, id, earlier⟩).Stands tokenization answer
        place) :
    Follows tokenization answer
      (Loop.definitions.rounds (.definition? tokenization.tape) earlier) place
      fun definitions behind =>
        (State.between ⟨keyword, id, definitions⟩).Stands tokenization answer
            behind ∧
          ((tokenization.tape.lexemeAt behind).token = .rightBrace ∨
            (tokenization.tape.lexemeAt behind).token = .endOfInput) := by
  refine
    Reading.Meets.rounds
      (fun definitions here =>
        (State.between ⟨keyword, id, definitions⟩).Stands tokenization answer
          here)
      _ ?_ stands
  intro definitions here between
  refine (follows_definition? ordered between).mono ?_
  rintro (_ | definition) behind met
  · obtain ⟨rfl, closes⟩ := met
    exact ⟨between, closes⟩
  · exact met

/-! ### Modules -/

private theorem State.Stands.follows_closing
    (stands : (State.between opening).Stands tokenization answer place)
    (closes :
      (tokenization.tape.lexemeAt place).token = .rightBrace ∨
        (tokenization.tape.lexemeAt place).token = .endOfInput) :
    Follows tokenization answer (.expect tokenization.tape .rightBrace) place
      fun closing behind =>
        (State.closed
          (.ofParts opening.keyword opening.id opening.definitions
            closing.span)).Stands tokenization answer behind := by
  refine
    (stands.follows_expect
      (.closed
        (.ofParts opening.keyword opening.id opening.definitions
          (tokenization.tape.lexemeAt place).span))
      (by decide) (fun isBrace => if_pos isBrace) fun other => ?_).mono ?_
  · have isEnd := closes.resolve_left other
    refine ⟨?_, if_pos isEnd, fun _ => rfl⟩
    rw [State.next?, Opening.next?, if_neg other, Identifier.ofLexeme?, isEnd]
    rfl
  · rintro _ _ ⟨ended, -, rfl⟩
    exact ended

theorem State.Stands.accepted {module : Module}
    (written : ∀ lexeme ∈ tokenization.lexemes, lexeme.token.IsWritten)
    (stands : (State.closed module).Stands tokenization answer place)
    (ended : (tokenization.tape.lexemeAt place).token = .endOfInput) :
    answer = .ok module := by
  rw [← stands.reads]
  rcases Nat.lt_or_eq_of_le stands.inside with before | rfl
  · have isWritten := written _ (List.getElem_mem before)
    rw [Tokenization.getElem_lexemeAt before, ended] at isWritten
    exact isWritten.elim
  · rw [List.drop_length]
    rfl

private theorem follows_module (ordered : Lexeme.Ordered tokenization.lexemes)
    (written : ∀ lexeme ∈ tokenization.lexemes, lexeme.token.IsWritten)
    (stands : State.start.Stands tokenization answer place) :
    Follows tokenization answer (.module tokenization.tape) place
      fun module _ => answer = .ok module := by
  refine Reading.meets_current.bind ?_
  rintro _ place ⟨rfl, rfl⟩
  refine
    (stands.follows_expect (.moduleId (tokenization.tape.lexemeAt place).span)
      (by decide) (fun isKeyword => if_pos isKeyword) fun other =>
        ⟨if_neg other, rfl, fun _ => rfl⟩).bind ?_
  rintro _ _ ⟨begun, rfl, -⟩
  generalize (tokenization.tape.lexemeAt place).span = keyword at begun ⊢
  refine
    (begun.follows_identifier (.moduleBrace keyword) (fun id named => ?_)
      fun noWord => ?_).bind ?_
  · rw [State.next?, named]
    rfl
  · refine ⟨?_, rfl, fun _ => rfl⟩
    rw [State.next?, noWord]
    rfl
  rintro id _ ⟨named, rfl, -⟩
  refine
    (named.follows_expect (.between ⟨keyword, id, []⟩) (by decide)
      (fun isBrace => if_pos isBrace) fun other =>
        ⟨if_neg other, rfl, fun _ => rfl⟩).bind ?_
  rintro _ _ ⟨opened, rfl, -⟩
  refine (follows_definitions ordered opened).bind ?_
  rintro definitions here ⟨between, closes⟩
  refine (between.follows_closing closes).bind ?_
  intro closing behind closed
  refine Reading.meets_check.bind ?_
  rintro (_ | _) here ⟨rfl, found⟩
  · exact
      Reading.meets_refuse
        (closed.refused ⟨rfl, rfl, fun isEnd => absurd isEnd found⟩)
  · exact Reading.meets_pure (closed.accepted written found)

/-- An opening for a reader that is set down in the middle of a source. -/
def Opening.blank : Opening :=
  { keyword := .zero
    id :=
      { name := ""
        span := .zero }
    definitions := [] }

theorem State.stands_anywhere (state : State)
    (inside : place ≤ tokenization.lexemes.length) :
    state.Stands tokenization
      (state.read tokenization.size (tokenization.lexemes.drop place))
      place :=
  ⟨inside, rfl⟩

theorem movesOn_of_meets {Result : Type} {reading : Reading Result}
    (meets : ∀ place ≤ tokenization.lexemes.length,
      reading.Meets tokenization.tape (fun _ => True) place fun _ behind =>
        place < behind) :
    reading.MovesOn tokenization.tape := by
  intro place trail sound here
  have inside := sound.inside
  rw [Tokenization.size_tape, here] at inside
  exact meets place (by omega) trail sound here

private theorem movesOn_field (tokenization : Tokenization) :
    (Reading.field tokenization.tape).MovesOn tokenization.tape := by
  refine movesOn_of_meets fun place inside => ?_
  have stands :=
    (State.fields .blank (.product Opening.blank.id) .zero []
      .start).stands_anywhere inside
  exact (follows_field stands).movesOn

private theorem movesOn_fields (ordered : Lexeme.Ordered tokenization.lexemes) :
    (Reading.fields tokenization.tape).MovesOn tokenization.tape := by
  refine movesOn_of_meets fun place inside => ?_
  have stands :=
    (State.attributesList .blank Opening.blank.id (.sum [])
      .zero).stands_anywhere inside
  exact
    (follows_fields ordered _ stands (fun opened => if_pos opened) fun other =>
      ⟨if_neg other, rfl, fun _ => rfl⟩).movesOn

private theorem movesOn_constructor
    (ordered : Lexeme.Ordered tokenization.lexemes) :
    (Reading.constructor tokenization.tape).MovesOn tokenization.tape := by
  refine movesOn_of_meets fun place inside => ?_
  have stands :=
    (State.alternative .blank Opening.blank.id []).stands_anywhere inside
  exact (stands.follows_alternative ordered).movesOn

private theorem movesOn_definition
    (ordered : Lexeme.Ordered tokenization.lexemes) :
    (Reading.definition tokenization.tape).MovesOn tokenization.tape := by
  refine movesOn_of_meets fun place inside => ?_
  by_cases closes :
      (tokenization.tape.lexemeAt place).token = .rightBrace ∨
        (tokenization.tape.lexemeAt place).token = .endOfInput
  · have noWord :
        Identifier.ofLexeme? (tokenization.tape.lexemeAt place) = none := by
      rw [Identifier.ofLexeme?]
      rcases closes with isBrace | isEnd
      · rw [isBrace]
        rfl
      · rw [isEnd]
        rfl
    have refused :
        (Reading.definition tokenization.tape).Meets tokenization.tape
          (fun _ => True) place fun _ behind => place < behind ∧ True := by
      refine Reading.Meets.noting ?_
      refine (Reading.meets_identifier fun _ => trivial).bind ?_
      rintro id _ ⟨named, -⟩
      rw [noWord] at named
      cases named
    exact refused.movesOn
  · obtain ⟨notClosed, notEnded⟩ := not_or.mp closes
    have stands := (State.between .blank).stands_anywhere inside
    exact (follows_definition ordered stands notClosed notEnded).movesOn

/-! ### Whole sources -/

/-- A source that is cut into lexemes is read to an end by descent, with the
outcome of the reader that moves lexeme by lexeme.  Its trail is sound: no index
is clamped, the end of the input is never taken, and every call and every round
moves on.  The lexemes taken are the first ones of the source.  Wherever a call
of one of the four procedures begins, it ends, and a result costs it a
lexeme. -/
theorem Module.exists_sound_descent {source : String}
    {tokenization : Tokenization}
    (tokenized : tokenize source = .ok tokenization) :
    (∃ trail,
      Module.descend source = some (Module.parse source, trail) ∧
        trail.Sound tokenization.tape ∧
        trail.place ≤ tokenization.lexemes.length ∧
        trail.taken = tokenization.lexemes.take trail.place) ∧
      (Reading.definition tokenization.tape).MovesOn tokenization.tape ∧
      (Reading.constructor tokenization.tape).MovesOn tokenization.tape ∧
      (Reading.fields tokenization.tape).MovesOn tokenization.tape ∧
      (Reading.field tokenization.tape).MovesOn tokenization.tape := by
  obtain ⟨decomposes, _⟩ := (Cursor.tokenize_eq_ok_iff _ _).mp tokenized
  have ordered := decomposes.ordered_of_le.1
  refine
    ⟨?_, movesOn_definition ordered, movesOn_constructor ordered,
      movesOn_fields ordered, movesOn_field tokenization⟩
  obtain ⟨outcome, trail, ended, sound, met⟩ :=
    follows_module ordered (isWritten_of_tokenize tokenized)
      (State.stands_start tokenization) .start (Trail.sound_start _) rfl
  have sameOutcome : outcome = Module.parse source := by
    simp only [Module.parse, tokenized]
    cases outcome with
    | ok module => exact met.symm
    | error error => exact met.symm
  have inside := sound.inside
  rw [Tokenization.size_tape] at inside
  refine ⟨trail, ?_, sound, by omega, ?_⟩
  · simp only [Module.descend, tokenized]
    rw [← sameOutcome]
    exact ended
  · rw [sound.taken, Tokenization.toList_lexemes_tape,
      List.take_append_of_le_length (by omega)]

/-- A source that breaks off inside its second list of fields: the run takes
what is there and stops at the end of the input. -/
theorem Module.exists_sound_descent_of_broken_off :
    ∃ tokenization trail,
      tokenize "module M \x7b A = B(c, d?) | C(e*, " = .ok tokenization ∧
        tokenization.lexemes.length = 18 ∧
        Module.descend "module M \x7b A = B(c, d?) | C(e*, " =
          some
            (.error
              { fault := .expectedIdentifier .endOfInput
                span := ⟨32, 32⟩ },
              trail) ∧
        trail.Sound tokenization.tape ∧ trail.place ≤ 18 ∧
        (Reading.field tokenization.tape).MovesOn tokenization.tape := by
  have refused :
      Module.parse "module M \x7b A = B(c, d?) | C(e*, " =
        .error
          { fault := .expectedIdentifier .endOfInput
            span := ⟨32, 32⟩ } := by
    decide +kernel
  have counted :
      (tokenize "module M \x7b A = B(c, d?) | C(e*, ").map
          (fun tokenization => tokenization.lexemes.length) =
        .ok 18 := by
    decide +kernel
  cases cut : tokenize "module M \x7b A = B(c, d?) | C(e*, " with
  | error error =>
      rw [cut] at counted
      cases counted
  | ok tokenization =>
      rw [cut] at counted
      have length : tokenization.lexemes.length = 18 := Except.ok.inj counted
      obtain ⟨⟨trail, ended, sound, inside, _⟩, _, _, _, movesOn⟩ :=
        Module.exists_sound_descent cut
      rw [refused] at ended
      rw [length] at inside
      exact
        ⟨tokenization, trail, rfl, length, ended, sound, inside, movesOn⟩

end Asdl.Concrete
