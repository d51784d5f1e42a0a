/-
Where reading stops, and why it cannot stop later or earlier.

A reader stops at the first lexeme that it has no move for, or at the end of the
input while something is still wanted.  From every state there is a way to the
end, so the tokens read so far begin some source that is accepted.  Tokens alone
decide how a reader moves, so no accepted source begins with the same tokens and
the one where the reader stopped; and two sources with the same tokens are read
alike or stopped at the same place.
-/

import Asdl.Proofs.Concrete.Recognition
import Asdl.Proofs.Token.Decomposition

namespace Asdl

private theorem Cursor.isWritten_of_next {cursor after : Cursor}
    {lexeme : Lexeme}
    (met : cursor.next = .lexeme lexeme after) : lexeme.token.IsWritten := by
  obtain ⟨gap, text, layout, written, ends, starts, stops, behind⟩ :=
    meets_of_next met
  exact written

theorem isWritten_of_tokenize {source : String} {tokenization : Tokenization}
    (tokenized : tokenize source = .ok tokenization) :
    ∀ lexeme ∈ tokenization.lexemes, lexeme.token.IsWritten :=
  Cursor.forall_mem_of_tokenize (fun _ _ _ met => Cursor.isWritten_of_next met)
    tokenized

theorem Tokenization.map_token_toList (tokenization : Tokenization) :
    tokenization.toList.map Lexeme.token =
      tokenization.lexemes.map Lexeme.token ++ [.endOfInput] := by
  rw [Tokenization.toList, List.map_append]
  rfl

private theorem Token.IsWritten.spells_spaced {token : Token}
    (written : token.IsWritten) :
    Spells (' ' :: token.text.toList) [token] := by
  rcases written.word_or_mark with ⟨word, sameToken⟩ | ⟨mark, spelled, marked⟩
  · have spells := (Spells.word word).space
    rwa [sameToken] at spells
  · rw [spelled]
    exact (Spells.nil.mark marked).space

private theorem exists_tokenize_of_isWritten {tokens : List Token}
    (written : ∀ token ∈ tokens, token.IsWritten) :
    ∃ source tokenization, tokenize source = .ok tokenization ∧
      tokenization.lexemes.map Lexeme.token = tokens := by
  obtain ⟨_, spells⟩ :=
    Spells.flatMap tokens (fun _ _ => .cons _ (by decide))
      (fun token member => (written token member).spells_spaced)
  rw [List.flatMap_singleton'] at spells
  let spaced := tokens.flatMap fun token => ' ' :: token.text.toList
  have spelled : Spells (String.ofList spaced).toList tokens := by
    rw [String.toList_ofList]
    exact spells
  exact ⟨_, tokenize_of_spells spelled⟩

namespace Concrete

namespace State

/-- The module of a state in which the input may end. -/
def module? : State → Option Module
  | closed module => some module
  | _ => none

theorem module?_eraseSpans (state : State) :
    state.eraseSpans.module? = state.module?.map Module.eraseSpans := by
  cases state <;> rfl

theorem finish_eq (state : State) (size : Nat) :
    state.finish size =
      match state.module? with
      | some module => .ok module
      | none => .error (state.reject (.endOfInput size)) := by
  cases state <;> rfl

theorem fault_eraseSpans (state : State) (found : Token) :
    state.eraseSpans.fault found = state.fault found := by
  cases state with
  | fields opening owner bracket earlier stage => cases stage <;> rfl
  | _ => rfl

private theorem fault_eq_of_eraseSpans_eq {left right : State}
    (same : left.eraseSpans = right.eraseSpans) (found : Token) :
    left.fault found = right.fault found := by
  rw [← left.fault_eraseSpans, same, right.fault_eraseSpans]

theorem next?_endOfInput (state : State) (size : Nat) :
    state.next? (.endOfInput size) = none := by
  cases state with
  | fields opening owner bracket earlier stage => cases stage <;> rfl
  | _ => rfl

end State

/-- Both lists of lexemes were read, to trees that agree without ranges; or both
were refused with the same fault, at lexemes in the same place. -/
inductive SameReading {Tree : Type} (eraseSpans : Tree → Tree)
    (left right : List Lexeme) :
    Except SyntaxError Tree → Except SyntaxError Tree → Prop
  | read {leftTree rightTree : Tree}
      (same : eraseSpans leftTree = eraseSpans rightTree) :
      SameReading eraseSpans left right (.ok leftTree) (.ok rightTree)
  | refused (fault : SyntaxFault) (place : Nat)
      {leftLexeme rightLexeme : Lexeme}
      (leftPlaced : left[place]? = some leftLexeme)
      (rightPlaced : right[place]? = some rightLexeme) :
      SameReading eraseSpans left right
        (.error { fault := fault, span := leftLexeme.span })
        (.error { fault := fault, span := rightLexeme.span })

theorem SameReading.cons {Tree : Type} {eraseSpans : Tree → Tree}
    {left right : List Lexeme} {leftOutcome rightOutcome}
    (same :
      SameReading eraseSpans left right leftOutcome rightOutcome)
    (leftFirst rightFirst : Lexeme) :
    SameReading eraseSpans (leftFirst :: left) (rightFirst :: right)
      leftOutcome rightOutcome := by
  cases same with
  | read same => exact .read same
  | refused fault place leftPlaced rightPlaced =>
      exact .refused fault (place + 1) leftPlaced rightPlaced

section SameReading

variable {left right : State}

theorem SameReading.refused_first
    (sameState : left.eraseSpans = right.eraseSpans)
    {leftFirst rightFirst : Lexeme}
    (sameToken : leftFirst.token = rightFirst.token)
    (leftRest rightRest : List Lexeme) :
    SameReading Module.eraseSpans
      (leftFirst :: leftRest) (rightFirst :: rightRest)
      (.error (left.reject leftFirst)) (.error (right.reject rightFirst)) := by
  rw [State.reject, State.reject, sameToken,
    State.fault_eq_of_eraseSpans_eq sameState]
  exact .refused _ 0 rfl rfl

private theorem State.sameReading_finish
    (sameState : left.eraseSpans = right.eraseSpans)
    (leftSize rightSize : Nat) :
    SameReading Module.eraseSpans
      [.endOfInput leftSize] [.endOfInput rightSize]
      (left.finish leftSize) (right.finish rightSize) := by
  have sameModule := congrArg State.module? sameState
  rw [left.module?_eraseSpans, right.module?_eraseSpans] at sameModule
  rw [left.finish_eq, right.finish_eq]
  cases leftModule : left.module? with
  | some leftTree =>
      rw [leftModule, Option.map_some, eq_comm] at sameModule
      obtain ⟨rightTree, rightModule, sameTree⟩ :=
        Option.map_eq_some_iff.mp sameModule
      rw [rightModule]
      exact .read sameTree.symm
  | none =>
      rw [leftModule, Option.map_none, eq_comm,
        Option.map_eq_none_iff] at sameModule
      rw [sameModule]
      have sameToken :
          (Lexeme.endOfInput leftSize).token =
            (Lexeme.endOfInput rightSize).token :=
        rfl
      exact .refused_first sameState sameToken _ _

private theorem State.sameReading
    (sameState : left.eraseSpans = right.eraseSpans)
    {leftLexemes rightLexemes : List Lexeme}
    (sameTokens :
      leftLexemes.map Lexeme.token = rightLexemes.map Lexeme.token)
    (leftSize rightSize : Nat) :
    SameReading Module.eraseSpans
      (leftLexemes ++ [.endOfInput leftSize])
      (rightLexemes ++ [.endOfInput rightSize])
      (left.read leftSize leftLexemes)
      (right.read rightSize rightLexemes) := by
  induction leftLexemes generalizing left right rightLexemes with
  | nil =>
      rw [List.map_nil, eq_comm, List.map_eq_nil_iff] at sameTokens
      subst sameTokens
      exact State.sameReading_finish sameState leftSize rightSize
  | cons leftFirst leftRest ih =>
      cases rightLexemes with
      | nil => cases sameTokens
      | cons rightFirst rightRest =>
          rw [List.map_cons, List.map_cons, List.cons.injEq] at sameTokens
          obtain ⟨sameFirst, sameRest⟩ := sameTokens
          have sameMove :
              (left.next? leftFirst).map State.eraseSpans =
                (right.next? rightFirst).map State.eraseSpans := by
            rw [← left.next?_eraseSpans, ← right.next?_eraseSpans, sameState,
              sameFirst]
          rw [State.read, State.read]
          cases leftMoved : left.next? leftFirst with
          | none =>
              rw [leftMoved, Option.map_none, eq_comm,
                Option.map_eq_none_iff] at sameMove
              simp only [sameMove]
              exact .refused_first sameState sameFirst _ _
          | some leftAfter =>
              rw [leftMoved, Option.map_some, eq_comm] at sameMove
              obtain ⟨rightAfter, rightMoved, sameAfter⟩ :=
                Option.map_eq_some_iff.mp sameMove
              simp only [rightMoved]
              apply SameReading.cons
              exact ih sameAfter.symm sameRest

end SameReading

theorem Module.sameReading_of_tokenize {left right : String}
    {leftCut rightCut : Tokenization}
    (leftTokenized : tokenize left = .ok leftCut)
    (rightTokenized : tokenize right = .ok rightCut)
    (sameTokens :
      leftCut.toList.map Lexeme.token = rightCut.toList.map Lexeme.token) :
    SameReading Module.eraseSpans leftCut.toList rightCut.toList
      (Module.parse left) (Module.parse right) := by
  rw [leftCut.map_token_toList, rightCut.map_token_toList,
    List.append_cancel_right_eq] at sameTokens
  rw [Module.parse, Module.parse, leftTokenized, rightTokenized]
  exact State.sameReading rfl sameTokens leftCut.size rightCut.size

/-! ### The place where a reader stops -/

/-- The reader goes through the lexemes in front and has no move for the next
one.  The end of the input stops it only while it has no module. -/
structure State.Stops (state : State) (size : Nat)
    (lexemes front : List Lexeme) (stuck : Lexeme) (reached : State) :
    Prop where
  split :
    ∃ behind, lexemes ++ [.endOfInput size] = front ++ stuck :: behind
  followed :
    state.eraseSpans.follow? (front.map Lexeme.token) =
      some reached.eraseSpans
  blocked : reached.next? stuck = none
  unfinished : stuck.token = .endOfInput → reached.module? = none

private theorem State.Stops.front_isPrefix {state reached : State} {size : Nat}
    {lexemes front : List Lexeme} {stuck : Lexeme}
    (stops : state.Stops size lexemes front stuck reached) :
    front <+: lexemes := by
  obtain ⟨⟨behind, split⟩, _, _, _⟩ := stops
  have withoutEnd := congrArg List.dropLast split
  rw [List.dropLast_concat, List.dropLast_append_cons] at withoutEnd
  exact ⟨_, withoutEnd.symm⟩

private theorem State.exists_stops {size : Nat} {state : State}
    {lexemes : List Lexeme} {error : SyntaxError}
    (written : ∀ lexeme ∈ lexemes, lexeme.token.IsWritten)
    (refused : state.read size lexemes = .error error) :
    ∃ front stuck reached,
      state.Stops size lexemes front stuck reached ∧
        error = reached.reject stuck := by
  induction lexemes generalizing state with
  | nil =>
      rw [State.read, state.finish_eq] at refused
      split at refused
      · cases refused
      · rename_i noModule
        refine ⟨[], .endOfInput size, state, ?_, (Except.error.inj refused).symm⟩
        exact
          { split := ⟨[], rfl⟩
            followed := rfl
            blocked := state.next?_endOfInput size
            unfinished := fun _ => noModule }
  | cons first rest ih =>
      obtain ⟨firstWritten, restWritten⟩ := List.forall_mem_cons.mp written
      rw [State.read] at refused
      split at refused
      · rename_i after moved
        obtain ⟨front, stuck, reached, stops, rfl⟩ := ih restWritten refused
        obtain ⟨⟨behind, split⟩, followed, blocked, unfinished⟩ := stops
        refine ⟨first :: front, stuck, reached, ?_, rfl⟩
        refine
          { split := ⟨behind, by rw [List.cons_append, split]; rfl⟩
            followed := ?_
            blocked := blocked
            unfinished := unfinished }
        have movedBare :
            state.eraseSpans.next? (.ofToken first.token) =
              some after.eraseSpans := by
          rw [state.next?_eraseSpans, moved]
          rfl
        rw [List.map_cons, State.follow?_cons_of_next? movedBare]
        exact followed
      · rename_i blocked
        refine ⟨[], first, state, ?_, (Except.error.inj refused).symm⟩
        refine
          { split := ⟨rest ++ [.endOfInput size], rfl⟩
            followed := rfl
            blocked := blocked
            unfinished := ?_ }
        intro isEnd
        rw [isEnd] at firstWritten
        exact firstWritten.elim

/-- A source that is cut but not read stops the reader at one of its lexemes, or
at its end. -/
theorem Module.exists_stops_of_parse {source : String}
    {tokenization : Tokenization} {error : SyntaxError}
    (tokenized : tokenize source = .ok tokenization)
    (refused : Module.parse source = .error error) :
    ∃ front stuck reached,
      State.start.Stops tokenization.size tokenization.lexemes front stuck
          reached ∧
        error = reached.reject stuck := by
  simp only [Module.parse, tokenized] at refused
  exact State.exists_stops (isWritten_of_tokenize tokenized) refused

/-- Tokens that lead from a state to the end of a module. -/
def State.completion : State → List Token
  | start => [.moduleKeyword, .identifier "x", .leftBrace, .rightBrace]
  | moduleId _ => [.identifier "x", .leftBrace, .rightBrace]
  | moduleBrace _ _ => [.leftBrace, .rightBrace]
  | between _ | constructorId _ _ _ _ | afterConstructor _ _ _ _
  | afterProduct _ _ _ => [.rightBrace]
  | equals _ _ => [.equals, .identifier "x", .rightBrace]
  | body _ _ | alternative _ _ _ => [.identifier "x", .rightBrace]
  | attributesList _ _ _ _ =>
      [.leftParen, .identifier "x", .rightParen, .rightBrace]
  | fields _ _ _ _ .start => [.identifier "x", .rightParen, .rightBrace]
  | fields _ _ _ _ _ => [.rightParen, .rightBrace]
  | closed _ => []

private theorem State.isWritten_completion (state : State) :
    ∀ token ∈ state.completion, token.IsWritten := by
  have word : isWord "x" = true := by decide
  cases state with
  | fields opening owner bracket earlier stage =>
      cases stage <;> simp [completion, Token.IsWritten, word]
  | _ => simp [completion, Token.IsWritten, word]

private theorem State.exists_follow?_completion (state : State) :
    ∃ module, state.follow? state.completion = some (.closed module) := by
  cases state with
  | fields opening owner bracket earlier stage =>
      cases owner <;> cases stage <;> exact ⟨_, rfl⟩
  | _ => exact ⟨_, rfl⟩

/-- Some source that is read begins with the tokens.  The end of the input
counts as its last token. -/
def Viable (tokens : List Token) : Prop :=
  ∃ source tree tokenization,
    Module.parse source = .ok tree ∧ tokenize source = .ok tokenization ∧
      tokens <+: tokenization.toList.map Lexeme.token

private theorem viable_of_follow? {tokens : List Token} {state : State}
    (written : ∀ token ∈ tokens, token.IsWritten)
    (followed : State.start.follow? tokens = some state) : Viable tokens := by
  obtain ⟨module, completed⟩ := state.exists_follow?_completion
  obtain ⟨source, tokenization, tokenized, sameTokens⟩ :=
    exists_tokenize_of_isWritten
      (List.forall_mem_append.mpr ⟨written, state.isWritten_completion⟩)
  have toTheEnd :
      State.start.follow? (tokenization.lexemes.map Lexeme.token) =
        some (.closed module) := by
    rw [sameTokens, State.follow?_append_of_follow? followed, completed]
  obtain ⟨tree, parsed, _⟩ :=
    (Module.parse_eq_ok_iff_follow? source module).mpr
      ⟨tokenization, tokenized, toTheEnd⟩
  refine ⟨source, tree, tokenization, parsed, tokenized, ?_⟩
  rw [Tokenization.map_token_toList, sameTokens, List.append_assoc]
  exact List.prefix_append _ _

private theorem State.Stops.not_viable {size : Nat}
    {lexemes front : List Lexeme}
    {stuck : Lexeme} {reached : State}
    (stops : State.start.Stops size lexemes front stuck reached) :
    ¬ Viable (front.map Lexeme.token ++ [stuck.token]) := by
  obtain ⟨_, followed, blocked, unfinished⟩ := stops
  change State.start.follow? _ = _ at followed
  rintro ⟨source, tree, tokenization, parsed, tokenized, isPrefix⟩
  obtain ⟨same, sameTokenized, toTheEnd⟩ :=
    (Module.parse_eq_ok_iff_follow? source tree.eraseSpans).mp
      ⟨tree, parsed, rfl⟩
  rw [tokenized] at sameTokenized
  cases sameTokenized
  rw [Tokenization.map_token_toList, List.prefix_concat_iff] at isPrefix
  rcases isPrefix with wholeSource | ⟨rest, split⟩
  · obtain ⟨sameFront, sameEnd⟩ := List.append_inj' wholeSource rfl
    rw [← sameFront] at toTheEnd
    have sameState := followed.symm.trans toTheEnd
    have noModule := unfinished (List.singleton_inj.mp sameEnd)
    have isClosed := congrArg State.module? (Option.some.inj sameState)
    rw [reached.module?_eraseSpans, noModule] at isClosed
    cases isClosed
  · rw [← split, List.append_assoc,
      State.follow?_append_of_follow? followed, List.singleton_append,
      State.follow?, reached.next?_eraseSpans, blocked] at toTheEnd
    cases toTheEnd

theorem Module.parse_of_tokenize_error {source : String} {error : LexicalError}
    (uncut : tokenize source = .error error) :
    Module.parse source = .error error.toSyntaxError := by
  rw [Module.parse, uncut]

/-- A source that cannot be cut into tokens is refused with the fault of the
cut, wherever that lies.  Any other source that is refused is refused at the
first token that no accepted source has there. -/
theorem Module.parse_stops_at_first_unviable (source : String) :
    (∀ error, tokenize source = .error error →
      ∃ refusal, Module.parse source = .error refusal ∧
        refusal.fault.message = error.fault.message ∧
        refusal.span = error.span) ∧
      ∀ tokenization refusal, tokenize source = .ok tokenization →
        Module.parse source = .error refusal →
        ∃ place lexeme,
          tokenization.toList[place]? = some lexeme ∧
            refusal.span = lexeme.span ∧
            Viable ((tokenization.toList.take place).map Lexeme.token) ∧
            ¬ Viable
              ((tokenization.toList.take (place + 1)).map Lexeme.token) := by
  refine ⟨?_, ?_⟩
  · intro error uncut
    exact ⟨error.toSyntaxError, parse_of_tokenize_error uncut, rfl, rfl⟩
  · intro tokenization refusal tokenized refused
    obtain ⟨front, stuck, reached, stops, rfl⟩ :=
      exists_stops_of_parse tokenized refused
    have notViable := stops.not_viable
    have isPrefix := stops.front_isPrefix
    obtain ⟨⟨behind, split⟩, followed, _, _⟩ := stops
    have whole : tokenization.toList = front ++ stuck :: behind := split
    have inFront : tokenization.toList.take front.length = front := by
      rw [whole, List.take_left]
    have upToStuck :
        tokenization.toList.take (front.length + 1) = front ++ [stuck] := by
      rw [whole, List.take_length_add_append]
      rfl
    refine ⟨front.length, stuck, ?_, rfl, ?_, ?_⟩
    · rw [whole, List.getElem?_append_right (Nat.le_refl _), Nat.sub_self]
      rfl
    · rw [inFront]
      refine viable_of_follow? ?_ followed
      rw [List.forall_mem_map]
      intro lexeme member
      exact isWritten_of_tokenize tokenized lexeme (isPrefix.subset member)
    · rw [upToStuck, List.map_append]
      exact notViable

/-- A character of no token is reported although a mark in front of it cannot
begin a module; a field cannot go on behind its name. -/
theorem Module.parse_stops_at_second_name :
    (∃ refusal, Module.parse "= %" = .error refusal ∧
      refusal.span = ⟨2, 3⟩) ∧
      ∃ tokenization place lexeme,
        tokenize "module M \x7b A = (b c d) \x7d" = .ok tokenization ∧
          tokenization.toList[place]? = some lexeme ∧
          lexeme.span = ⟨20, 21⟩ ∧
          Viable ((tokenization.toList.take place).map Lexeme.token) ∧
          ¬ Viable
            ((tokenization.toList.take (place + 1)).map Lexeme.token) := by
  refine ⟨?_, ?_⟩
  · have uncut :
        tokenize "= %" =
          .error
            { fault := .unexpectedCharacter '%'
              span := ⟨2, 3⟩ } := by
      decide +kernel
    obtain ⟨refusal, refused, _, sameSpan⟩ :=
      (Module.parse_stops_at_first_unviable "= %").1 _ uncut
    exact ⟨refusal, refused, sameSpan⟩
  · have refused :
        Module.parse "module M \x7b A = (b c d) \x7d" =
          .error
            { fault := .expectedToken .rightParen (.identifier "d")
              span := ⟨20, 21⟩ } := by
      decide +kernel
    cases cut : tokenize "module M \x7b A = (b c d) \x7d" with
    | error error =>
        rw [parse_of_tokenize_error cut] at refused
        cases refused
    | ok tokenization =>
        obtain ⟨place, lexeme, placed, sameSpan, viable, unviable⟩ :=
          (Module.parse_stops_at_first_unviable _).2 _ _ cut refused
        exact
          ⟨tokenization, place, lexeme, rfl, placed, sameSpan.symm, viable,
            unviable⟩

end Concrete

end Asdl
