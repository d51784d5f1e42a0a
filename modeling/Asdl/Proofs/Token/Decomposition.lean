/-
Cutting a source as a decomposition of its text.

A text that is cut without a fault is layout and tokens in turn: layout, the
text of a token, layout, and so on, with layout behind the last token.  Layout
is said here by what it consists of and not by how it is skipped, and a word is
bounded by what follows it and not by how far it was taken.  A text has at most
one such decomposition, and cutting finds it exactly when it exists.
-/

import Asdl.Proofs.Token.Spelling

namespace Asdl

/-- Nothing, or a line feed, comes next. -/
def EndsLine (text : List Char) : Prop :=
  ∀ character ∈ text.head?, character = '\n'

/-- Blanks and comments in front of a text.  A comment is two dashes and what
follows them up to the next line feed or the end of everything. -/
inductive Layout : List Char → List Char → Prop
  | nil (behind : List Char) : Layout [] behind
  | blank {character : Char} {gap behind : List Char}
      (blank : isBlank character = true) (rest : Layout gap behind) :
      Layout (character :: gap) behind
  | comment {body gap behind : List Char} (sameLine : '\n' ∉ body)
      (ends : EndsLine (gap ++ behind)) (rest : Layout gap behind) :
      Layout ('-' :: '-' :: (body ++ gap)) behind

private theorem layout_splitLayout (text : List Char) :
    Layout (splitLayout false text).1 (splitLayout false text).2 ∧
      ∃ body gap,
        (splitLayout true text).1 = body ++ gap ∧ '\n' ∉ body ∧
          EndsLine (gap ++ (splitLayout true text).2) ∧
          Layout gap (splitLayout true text).2 := by
  induction text with
  | nil =>
      refine ⟨.nil [], [], [], rfl, List.not_mem_nil, ?_, .nil []⟩
      intro character absent
      cases absent
  | cons first rest ih =>
      obtain ⟨outside, body, gap, cut, sameLine, ends, inside⟩ := ih
      constructor
      · simp only [splitLayout, Bool.false_eq_true, if_false]
        split
        · rename_i blank
          exact .blank blank outside
        · split
          · rename_i opens
            obtain ⟨isDash, second⟩ := Bool.and_eq_true_iff.mp opens
            have whole := splitLayout_append true rest
            simp only [cut] at whole ⊢
            cases body with
            | nil =>
                rw [← whole, List.nil_append, beq_iff_eq] at second
                have isLineFeed := ends '-' second
                exact absurd isLineFeed (by decide)
            | cons dash others =>
                rw [← whole, List.cons_append, List.cons_append,
                  List.head?_cons, beq_iff_eq, Option.some.injEq] at second
                rw [eq_of_beq isDash, second, List.cons_append]
                exact
                  .comment
                    (fun member =>
                      sameLine (List.mem_cons_of_mem dash member))
                    ends inside
          · exact .nil _
      · simp only [splitLayout, if_true]
        by_cases isLineFeed : first = '\n'
        · subst isLineFeed
          refine ⟨[], '\n' :: (splitLayout false rest).1, rfl,
            List.not_mem_nil, ?_, .blank (by decide) outside⟩
          intro character isFirst
          cases isFirst
          rfl
        · have goesOn : (first != '\n') = true := by simpa using isLineFeed
          rw [goesOn]
          refine ⟨first :: body, gap, by rw [cut]; rfl, ?_, ends, inside⟩
          intro member
          rcases List.mem_cons.mp member with same | later
          · exact isLineFeed same.symm
          · exact sameLine later

private theorem splitLayout_true_of_endsLine {text : List Char}
    (ends : EndsLine text) : splitLayout true text = splitLayout false text := by
  cases text with
  | nil => rfl
  | cons first rest =>
      have isLineFeed : first = '\n' := ends first rfl
      subst isLineFeed
      rfl

private theorem splitLayout_true_append {body : List Char}
    (sameLine : '\n' ∉ body)
    (text : List Char) :
    splitLayout true (body ++ text) =
      (body ++ (splitLayout true text).1, (splitLayout true text).2) := by
  induction body with
  | nil => rfl
  | cons first others ih =>
      have goesOn : (first != '\n') = true := by
        rw [bne_iff_ne]
        rintro rfl
        exact sameLine List.mem_cons_self
      have othersSameLine : '\n' ∉ others := fun member =>
        sameLine (List.mem_cons_of_mem first member)
      rw [List.cons_append, splitLayout, if_pos rfl, goesOn,
        ih othersSameLine]
      rfl

namespace Cursor

private theorem skipLayout_comment {body text : List Char} (offset : Nat)
    (sameLine : '\n' ∉ body) (ends : EndsLine text) :
    skipLayout { offset := offset, rest := '-' :: '-' :: (body ++ text) } =
      skipLayout
        { offset := offset + byteSize ('-' :: '-' :: body)
          rest := text } := by
  have secondSameLine : '\n' ∉ '-' :: body := by
    rw [List.mem_cons, not_or]
    exact ⟨by decide, sameLine⟩
  have split :
      splitLayout false ('-' :: '-' :: (body ++ text)) =
        ('-' :: '-' :: (body ++ (splitLayout false text).1),
          (splitLayout false text).2) := by
    have inside := splitLayout_true_append secondSameLine text
    rw [splitLayout_true_of_endsLine ends] at inside
    rw [splitLayout]
    simp only [Bool.false_eq_true, if_false]
    rw [if_neg (by decide), if_pos (by rfl), ← List.cons_append, inside]
    rfl
  simp only [skipLayout, past, split, byteSize_cons, byteSize_append,
    Nat.add_assoc]

private theorem skipLayout_append_of_layout {gap behind : List Char}
    (layout : Layout gap behind) (offset : Nat) :
    skipLayout { offset := offset, rest := gap ++ behind } =
      skipLayout { offset := offset + byteSize gap, rest := behind } := by
  induction layout generalizing offset with
  | nil behind => rfl
  | blank blank rest ih =>
      rw [List.cons_append, skipLayout_cons_of_isBlank offset _ blank, ih,
        byteSize_cons, Nat.add_assoc]
  | comment sameLine ends rest ih =>
      rw [List.cons_append, List.cons_append, List.append_assoc,
        skipLayout_comment offset sameLine ends, ih]
      simp only [byteSize_cons, byteSize_append, Nat.add_assoc]

theorem next_append_of_layout {gap behind : List Char}
    (layout : Layout gap behind) (offset : Nat) :
    next { offset := offset, rest := gap ++ behind } =
      next { offset := offset + byteSize gap, rest := behind } := by
  unfold next
  rw [skipLayout_append_of_layout layout offset]

end Cursor

/-- A token that can stand in a source.  An identifier is a word that is not a
keyword. -/
def Token.IsWritten : Token → Prop
  | identifier name =>
      isWord name = true ∧ name ≠ "module" ∧ name ≠ "attributes"
  | endOfInput => False
  | _ => True

theorem Token.IsWritten.word_or_mark {token : Token}
    (written : token.IsWritten) :
    (isWord token.text = true ∧ Token.ofWord token.text = token) ∨
      ∃ mark, token.text.toList = [mark] ∧
        Token.ofMark? mark = some token := by
  cases token with
  | identifier name =>
      obtain ⟨word, notModule, notAttributes⟩ := written
      have sameToken : Token.ofWord name = .identifier name := by
        rw [ofWord, if_neg notModule, if_neg notAttributes]
      exact .inl ⟨word, sameToken⟩
  | endOfInput => exact written.elim
  | moduleKeyword => exact .inl (by decide)
  | attributesKeyword => exact .inl (by decide)
  | question => exact .inr ⟨'?', by decide, rfl⟩
  | star => exact .inr ⟨'*', by decide, rfl⟩
  | leftParen => exact .inr ⟨'(', by decide, rfl⟩
  | rightParen => exact .inr ⟨')', by decide, rfl⟩
  | leftBrace => exact .inr ⟨'\x7b', by decide, rfl⟩
  | rightBrace => exact .inr ⟨'\x7d', by decide, rfl⟩
  | equals => exact .inr ⟨'=', by decide, rfl⟩
  | bar => exact .inr ⟨'|', by decide, rfl⟩
  | comma => exact .inr ⟨',', by decide, rfl⟩

theorem Token.text_ofWord (word : String) : (ofWord word).text = word := by
  unfold ofWord
  split
  · rename_i isModule
    exact isModule.symm
  · split
    · rename_i isAttributes
      exact isAttributes.symm
    · rfl

private theorem Token.isWritten_ofWord {name : String}
    (word : isWord name = true) :
    (ofWord name).IsWritten := by
  unfold ofWord
  split
  · exact trivial
  · split
    · exact trivial
    · rename_i notModule notAttributes
      exact ⟨word, notModule, notAttributes⟩

private theorem Token.isWritten_of_ofMark? {mark : Char} {token : Token}
    (marked : Token.ofMark? mark = some token) :
    token.IsWritten ∧ token.text.toList = [mark] ∧ token.word? = none := by
  unfold Token.ofMark? at marked
  split at marked <;> cases marked <;> exact ⟨trivial, by decide, rfl⟩

/-! ### One step -/

namespace Cursor

/-- From one place to another there is layout and then the token of the lexeme,
which spans exactly the text of the token.  A word goes as far as it can. -/
inductive Meets (cursor : Cursor) (lexeme : Lexeme) (after : Cursor) : Prop
  | intro (gap : List Char)
      (text : cursor.rest = gap ++ (lexeme.token.text.toList ++ after.rest))
      (layout : Layout gap (lexeme.token.text.toList ++ after.rest))
      (written : lexeme.token.IsWritten)
      (ends : lexeme.token.word? ≠ none → EndsWord after.rest)
      (starts : lexeme.span.start = cursor.offset + byteSize gap)
      (stops :
        lexeme.span.stop =
          lexeme.span.start + byteSize lexeme.token.text.toList)
      (behind : after.offset = lexeme.span.stop)

theorem next_of_meets {cursor after : Cursor} {lexeme : Lexeme}
    (meets : Meets cursor lexeme after) :
    cursor.next = .lexeme lexeme after := by
  obtain ⟨gap, text, layout, written, ends, starts, stops, behind⟩ := meets
  obtain ⟨offset, whole⟩ := cursor
  obtain ⟨token, start, stop⟩ := lexeme
  obtain ⟨afterOffset, rest⟩ := after
  simp only at text layout written ends starts stops behind
  subst text starts stops behind
  rw [next_append_of_layout layout]
  rcases written.word_or_mark with ⟨word, sameToken⟩ | ⟨mark, spelled, marked⟩
  · have isSome : token.word? ≠ none := by
      rw [← sameToken, Token.word?_ofWord]
      exact Option.some_ne_none _
    rw [next_append_of_isWord _ rest word (ends isSome), sameToken]
  · rw [spelled, List.singleton_append, next_cons_of_ofMark? _ rest marked]

theorem layout_skipLayout (cursor : Cursor) :
    ∃ gap, Layout gap cursor.skipLayout.rest ∧
      cursor.rest = gap ++ cursor.skipLayout.rest ∧
      cursor.skipLayout.offset = cursor.offset + byteSize gap :=
  ⟨(splitLayout false cursor.rest).1, (layout_splitLayout cursor.rest).1,
    (splitLayout_append false cursor.rest).symm, rfl⟩

private theorem endsWord_dropWhile (text : List Char) :
    EndsWord (text.dropWhile continuesWord) := by
  intro character isFirst
  have stops := List.head?_dropWhile_not continuesWord text
  rw [Option.mem_def.mp isFirst] at stops
  simpa using stops

theorem meets_of_next {cursor after : Cursor} {lexeme : Lexeme}
    (met : cursor.next = .lexeme lexeme after) :
    Meets cursor lexeme after := by
  obtain ⟨gap, layout, whole, moved⟩ := cursor.layout_skipLayout
  unfold next at met
  simp only at met
  split at met
  · cases met
  · rename_i head tail isRest
    rw [isRest] at layout whole
    split at met
    · rename_i starts
      have word :
          isWord (String.ofList (head :: tail.takeWhile continuesWord)) =
            true := by
        rw [isWord_iff]
        refine
          ⟨head, tail.takeWhile continuesWord, String.toList_ofList, starts,
            ?_⟩
        intro character member
        exact List.all_eq_true.mp List.all_takeWhile character member
      have written := Token.isWritten_ofWord word
      have spelled :=
        Token.text_ofWord
          (String.ofList (head :: tail.takeWhile continuesWord))
      have split :
          (head :: tail.takeWhile continuesWord) ++
              tail.dropWhile continuesWord =
            head :: tail := by
        rw [List.cons_append, List.takeWhile_append_dropWhile]
      cases met
      refine
        ⟨gap, ?_, ?_, written, fun _ => endsWord_dropWhile tail, moved, ?_,
          rfl⟩
      · simp only [past, spelled, String.toList_ofList, split, whole]
      · simpa only [past, spelled, String.toList_ofList, split] using layout
      · simp only [span, spelled, String.toList_ofList]
    · split at met
      · rename_i token marked
        obtain ⟨written, spelled, noWord⟩ := Token.isWritten_of_ofMark? marked
        cases met
        refine
          ⟨gap, ?_, ?_, written, fun word => absurd noWord word, moved, ?_, rfl⟩
        · simp only [past, spelled, List.singleton_append, whole]
        · simpa only [past, spelled, List.singleton_append] using layout
        · simp only [span, spelled]
      · cases met

theorem next_eq_ended_iff (cursor : Cursor) (size : Nat) :
    cursor.next = .ended size ↔
      Layout cursor.rest [] ∧ size = cursor.offset + byteSize cursor.rest := by
  constructor
  · intro met
    obtain ⟨gap, layout, whole, moved⟩ := cursor.layout_skipLayout
    unfold next at met
    simp only at met
    split at met
    · rename_i isEmpty
      rw [isEmpty] at layout whole
      rw [List.append_nil] at whole
      cases met
      rw [whole]
      exact ⟨layout, moved⟩
    · split at met
      · cases met
      · split at met
        · cases met
        · cases met
  · rintro ⟨layout, rfl⟩
    have moved := next_append_of_layout layout cursor.offset
    rw [List.append_nil] at moved
    exact moved

/-- Layout and lexemes in turn up to the end of the text, with layout behind
the last lexeme. -/
inductive Decomposes : Cursor → List Lexeme → Prop
  | ended {cursor : Cursor} (layout : Layout cursor.rest []) :
      Decomposes cursor []
  | lexeme {cursor after : Cursor} {lexeme : Lexeme} {others : List Lexeme}
      (meets : Meets cursor lexeme after) (rest : Decomposes after others) :
      Decomposes cursor (lexeme :: others)

theorem Meets.byteSize_eq {cursor after : Cursor} {lexeme : Lexeme}
    (meets : Meets cursor lexeme after) :
    after.offset + byteSize after.rest =
      cursor.offset + byteSize cursor.rest := by
  obtain ⟨gap, text, layout, written, ends, starts, stops, behind⟩ := meets
  rw [text, byteSize_append, byteSize_append]
  omega

theorem decomposes_of_tokenize {cursor : Cursor}
    {tokenization : Tokenization}
    (tokenized : cursor.tokenize = .ok tokenization) :
    cursor.Decomposes tokenization.lexemes ∧
      tokenization.size = cursor.offset + byteSize cursor.rest := by
  fun_induction tokenize cursor generalizing tokenization with
  | case1 cursor size met =>
      cases tokenized
      obtain ⟨layout, atEnd⟩ := (next_eq_ended_iff cursor size).mp met
      exact ⟨.ended layout, atEnd⟩
  | case2 =>
      cases tokenized
  | case3 cursor first after met ih =>
      cases remaining : after.tokenize with
      | error error =>
          rw [remaining] at tokenized
          cases tokenized
      | ok others =>
          rw [remaining] at tokenized
          cases tokenized
          obtain ⟨decomposes, atEnd⟩ := ih remaining
          have meets := meets_of_next met
          exact ⟨.lexeme meets decomposes, atEnd.trans meets.byteSize_eq⟩

theorem Decomposes.tokenize_eq {cursor : Cursor} {lexemes : List Lexeme}
    (decomposes : cursor.Decomposes lexemes) :
    cursor.tokenize =
      .ok
        { lexemes := lexemes
          size := cursor.offset + byteSize cursor.rest } := by
  induction decomposes with
  | ended layout =>
      exact tokenize_of_next_eq_ended
        ((next_eq_ended_iff _ _).mpr ⟨layout, rfl⟩)
  | lexeme meets rest ih =>
      rw [tokenize_of_next_eq_lexeme (next_of_meets meets), ih,
        meets.byteSize_eq]
      rfl

theorem tokenize_eq_ok_iff (cursor : Cursor) (tokenization : Tokenization) :
    cursor.tokenize = .ok tokenization ↔
      cursor.Decomposes tokenization.lexemes ∧
        tokenization.size = cursor.offset + byteSize cursor.rest := by
  constructor
  · exact decomposes_of_tokenize
  · rintro ⟨decomposes, atEnd⟩
    rw [decomposes.tokenize_eq, ← atEnd]

end Cursor

/-- A source is cut into some lexemes exactly when these are a decomposition of
its text with the end of the input behind it; and no source has two. -/
theorem tokenize_eq_ok_iff_decomposes (source : String) :
    (∀ lexemes,
      (tokenize source).map Tokenization.toList = .ok lexemes ↔
        ∃ own,
          lexemes = own ++ [Lexeme.endOfInput source.utf8ByteSize] ∧
            (Cursor.ofSource source).Decomposes own) ∧
      ∀ left right,
        (Cursor.ofSource source).Decomposes left →
          (Cursor.ofSource source).Decomposes right → left = right := by
  have sameSize :
      source.utf8ByteSize = 0 + byteSize (Cursor.ofSource source).rest := by
    rw [Nat.zero_add, ← utf8ByteSize_ofList]
    exact congrArg _ String.ofList_toList.symm
  constructor
  · intro lexemes
    constructor
    · intro mapped
      cases tokenized : tokenize source with
      | error error =>
          rw [tokenized] at mapped
          cases mapped
      | ok tokenization =>
          rw [tokenized] at mapped
          cases mapped
          obtain ⟨decomposes, atEnd⟩ :=
            (Cursor.tokenize_eq_ok_iff _ _).mp tokenized
          refine ⟨tokenization.lexemes, ?_, decomposes⟩
          rw [Tokenization.toList, atEnd, sameSize]
          rfl
    · rintro ⟨own, rfl, decomposes⟩
      rw [tokenize, decomposes.tokenize_eq, sameSize]
      rfl
  · intro left right leftDecomposes rightDecomposes
    have same := rightDecomposes.tokenize_eq
    rw [leftDecomposes.tokenize_eq] at same
    cases same
    rfl

/-- A word that goes on behind a keyword, and a comment that the end of the
source ends. -/
theorem tokenize_word_comment :
    (tokenize "modules--é").map Tokenization.toList =
        .ok [⟨.identifier "modules", ⟨0, 7⟩⟩, .endOfInput 11] ∧
      ∀ other, (Cursor.ofSource "modules--é").Decomposes other →
        other = [⟨.identifier "modules", ⟨0, 7⟩⟩] := by
  obtain ⟨cut, unique⟩ := tokenize_eq_ok_iff_decomposes "modules--é"
  have dashesEnd : Cursor.EndsWord ['-', '-', 'é'] := by
    intro character isFirst
    cases isFirst
    decide
  have meets :
      Cursor.Meets (.ofSource "modules--é")
        ⟨.identifier "modules", ⟨0, 7⟩⟩ ⟨7, ['-', '-', 'é']⟩ :=
    ⟨[], by decide, .nil _, ⟨by decide, by decide, by decide⟩,
      fun _ => dashesEnd, rfl, by decide, rfl⟩
  have comment : Layout ['-', '-', 'é'] [] := by
    have sameLine : '\n' ∉ ['é'] := by decide
    refine .comment sameLine ?_ (.nil [])
    intro character absent
    cases absent
  have decomposes := Cursor.Decomposes.lexeme meets (.ended comment)
  exact
    ⟨(cut _).mpr ⟨_, rfl, decomposes⟩, fun other others =>
      unique other _ others decomposes⟩

end Asdl
