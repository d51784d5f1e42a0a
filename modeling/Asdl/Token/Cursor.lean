/-
Cutting a source into lexemes.

A cursor stands between two characters of a source.  Each step skips layout,
takes the longest word or the one mark that follows, and hands back the cursor
behind it.  A character that begins no token is a fault of exactly that
character, so a reader may go on behind it; `tokenize` stops at the first one.
-/

import Asdl.Token

namespace Asdl

inductive LexicalFault where
  | unexpectedCharacter (character : Char)
deriving DecidableEq

def LexicalFault.message : LexicalFault → String
  | unexpectedCharacter character =>
      "unexpected character: '" ++ String.singleton character ++ "'"

abbrev LexicalError := Located LexicalFault

def byteSize (text : List Char) : Nat :=
  text.foldr (fun character size => character.utf8Size + size) 0

@[simp]
theorem byteSize_nil : byteSize [] = 0 :=
  rfl

@[simp]
theorem byteSize_cons (character : Char) (rest : List Char) :
    byteSize (character :: rest) = character.utf8Size + byteSize rest :=
  rfl

@[simp]
theorem byteSize_append (left right : List Char) :
    byteSize (left ++ right) = byteSize left + byteSize right := by
  induction left with
  | nil =>
      rw [List.nil_append, byteSize_nil, Nat.zero_add]
  | cons character rest ih =>
      rw [List.cons_append, byteSize_cons, ih, byteSize_cons, Nat.add_assoc]

/-- The size agrees with the size of the encoded string. -/
theorem utf8ByteSize_ofList (text : List Char) :
    (String.ofList text).utf8ByteSize = byteSize text := by
  induction text with
  | nil =>
      rfl
  | cons character rest ih =>
      rw [byteSize_cons, ← ih, ← List.singleton_append, String.ofList_append,
        String.utf8ByteSize_append]
      congr 1
      exact String.utf8ByteSize_singleton

theorem byteSize_toList (source : String) :
    byteSize source.toList = source.utf8ByteSize := by
  rw [← utf8ByteSize_ofList, String.ofList_toList]

/-- Splits a text into the layout in front of its first token and what follows.
Blanks are layout, and so is a comment: two dashes and everything up to the
next line feed or the end. -/
def splitLayout (inComment : Bool) : List Char → List Char × List Char
  | [] => ([], [])
  | character :: rest =>
      if inComment then
        let split := splitLayout (character != '\n') rest
        (character :: split.1, split.2)
      else if isBlank character then
        let split := splitLayout false rest
        (character :: split.1, split.2)
      else if character == '-' && rest.head? == some '-' then
        let split := splitLayout true rest
        (character :: split.1, split.2)
      else
        ([], character :: rest)

theorem splitLayout_append (inComment : Bool) (text : List Char) :
    (splitLayout inComment text).1 ++ (splitLayout inComment text).2 = text := by
  induction text generalizing inComment with
  | nil => rfl
  | cons character rest ih =>
      unfold splitLayout
      split
      · simp [ih]
      · split
        · simp [ih]
        · split
          · simp [ih]
          · rfl

/-- A place in a source: the number of bytes in front of it and the characters
behind it. -/
structure Cursor where
  offset : Nat
  rest : List Char
deriving DecidableEq

namespace Cursor

def ofSource (source : String) : Cursor :=
  { offset := 0
    rest := source.toList }

def span (cursor : Cursor) (text : List Char) : Span :=
  { start := cursor.offset
    stop := cursor.offset + byteSize text }

def past (cursor : Cursor) (text rest : List Char) : Cursor :=
  { offset := cursor.offset + byteSize text
    rest := rest }

def skipLayout (cursor : Cursor) : Cursor :=
  let split := splitLayout false cursor.rest
  cursor.past split.1 split.2

/-- What one step of reading meets.  A step that meets a lexeme or a fault goes
on behind it; at the end there is nowhere to go. -/
inductive Step where
  | lexeme (lexeme : Lexeme) (after : Cursor)
  | fault (error : LexicalError) (after : Cursor)
  | ended (size : Nat)
deriving DecidableEq

/-- One step: skip layout, then take the longest word, a mark, or one character
that begins no token. -/
def next (cursor : Cursor) : Step :=
  let here := cursor.skipLayout
  match here.rest with
  | [] => .ended here.offset
  | head :: tail =>
      if startsWord head then
        let word := head :: tail.takeWhile continuesWord
        .lexeme
          { token := .ofWord (String.ofList word)
            span := here.span word }
          (here.past word (tail.dropWhile continuesWord))
      else
        match Token.ofMark? head with
        | some token =>
            .lexeme
              { token := token
                span := here.span [head] }
              (here.past [head] tail)
        | none =>
            .fault
              { fault := .unexpectedCharacter head
                span := here.span [head] }
              (here.past [head] tail)

theorem length_skipLayout_le (cursor : Cursor) :
    cursor.skipLayout.rest.length ≤ cursor.rest.length := by
  have whole := congrArg List.length (splitLayout_append false cursor.rest)
  simp only [List.length_append] at whole
  simp only [skipLayout, past]
  omega

theorem length_lt_of_next_eq_lexeme {cursor after : Cursor} {lexeme : Lexeme}
    (met : cursor.next = .lexeme lexeme after) :
    after.rest.length < cursor.rest.length := by
  have skipped := cursor.length_skipLayout_le
  unfold next at met
  simp only at met
  split at met
  · exact absurd met (by simp)
  · rename_i head tail hRest
    rw [hRest, List.length_cons] at skipped
    split at met
    · have hAfter := (Step.lexeme.inj met).2
      have dropped : (tail.dropWhile continuesWord).length ≤ tail.length :=
        (List.dropWhile_suffix continuesWord).length_le
      rw [← hAfter]
      simp only [past]
      omega
    · split at met
      · have hAfter := (Step.lexeme.inj met).2
        rw [← hAfter]
        simp only [past]
        omega
      · exact absurd met (by simp)

end Cursor

/-! ### Whole sources -/

structure Tokenization where
  lexemes : List Lexeme
  size : Nat
deriving DecidableEq

namespace Tokenization

def cons (first : Lexeme) (others : Tokenization) : Tokenization :=
  { lexemes := first :: others.lexemes
    size := others.size }

def toList (tokenization : Tokenization) : List Lexeme :=
  tokenization.lexemes ++ [Lexeme.endOfInput tokenization.size]

end Tokenization

namespace Cursor

/-- All lexemes from a cursor to the end, unless some character begins none. -/
def tokenize (cursor : Cursor) : Except LexicalError Tokenization :=
  match _met : cursor.next with
  | .ended size =>
      .ok
        { lexemes := []
          size := size }
  | .fault error _ => .error error
  | .lexeme lexeme after => after.tokenize.map (Tokenization.cons lexeme)
termination_by cursor.rest.length
decreasing_by exact length_lt_of_next_eq_lexeme _met

theorem forall_mem_of_tokenize {Holds : Token → Prop}
    (each : ∀ cursor after lexeme,
      next cursor = .lexeme lexeme after → Holds lexeme.token)
    {cursor : Cursor} {tokenization : Tokenization}
    (tokenized : cursor.tokenize = .ok tokenization) :
    ∀ lexeme ∈ tokenization.lexemes, Holds lexeme.token := by
  fun_induction tokenize cursor generalizing tokenization with
  | case1 =>
      cases tokenized
      intro lexeme member
      cases member
  | case2 =>
      cases tokenized
  | case3 cursor first after met ih =>
      cases remaining : after.tokenize with
      | error error =>
          rw [remaining] at tokenized
          cases tokenized
      | ok others =>
          rw [remaining] at tokenized
          cases tokenized
          intro lexeme member
          rcases List.mem_cons.mp member with same | later
          · rw [same]
            exact each cursor after first met
          · exact ih remaining lexeme later

/-- The first steps from a cursor, going on behind every fault.  From the end
on, every step meets the end again. -/
def steps : Nat → Cursor → List (Except LexicalError Lexeme)
  | 0, _ => []
  | calls + 1, cursor =>
      match cursor.next with
      | .lexeme lexeme after => .ok lexeme :: steps calls after
      | .fault error after => .error error :: steps calls after
      | .ended size => .ok (.endOfInput size) :: steps calls cursor

end Cursor

/-- The lexemes of a source, or the first character that begins no token. -/
def tokenize (source : String) : Except LexicalError Tokenization :=
  (Cursor.ofSource source).tokenize

end Asdl
