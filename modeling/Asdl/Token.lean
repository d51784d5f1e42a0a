/-
The tokens of the description language, their spellings, and the character
classes that decide where a token begins and how far it reaches.

Every token but an identifier has one fixed spelling.  The two keywords are
words as well, so they can stand wherever the grammar asks for an identifier.
-/

import Asdl.Span

namespace Asdl

/-- Space, tab, carriage return, line feed and form feed separate tokens. -/
def isBlank (character : Char) : Bool :=
  character == ' ' || character == '\t' || character == '\r' ||
    character == '\n' || character == '\x0c'

def startsWord (character : Char) : Bool :=
  character.isAlpha || character == '_'

def continuesWord (character : Char) : Bool :=
  character.isAlphanum || character == '_'

inductive Token where
  | moduleKeyword
  | attributesKeyword
  | identifier (name : String)
  | question
  | star
  | leftParen
  | rightParen
  | leftBrace
  | rightBrace
  | equals
  | bar
  | comma
  | endOfInput
deriving DecidableEq

namespace Token

/-- The spelling shared by every occurrence of a token; identifiers have none. -/
def fixedText? : Token → Option String
  | moduleKeyword => some "module"
  | attributesKeyword => some "attributes"
  | identifier _ => none
  | question => some "?"
  | star => some "*"
  | leftParen => some "("
  | rightParen => some ")"
  | leftBrace => some "\x7b"
  | rightBrace => some "\x7d"
  | equals => some "="
  | bar => some "|"
  | comma => some ","
  | endOfInput => some "end of input"

def text : Token → String
  | identifier name => name
  | token => token.fixedText?.getD ""

def isKeyword : Token → Bool
  | moduleKeyword => true
  | attributesKeyword => true
  | _ => false

def word? : Token → Option String
  | identifier name => some name
  | moduleKeyword => some "module"
  | attributesKeyword => some "attributes"
  | _ => none

/-- A word is a keyword when it spells one, and an identifier otherwise. -/
def ofWord (word : String) : Token :=
  if word = "module" then
    moduleKeyword
  else if word = "attributes" then
    attributesKeyword
  else
    identifier word

theorem word?_ofWord (word : String) :
    (ofWord word).word? = some word := by
  unfold ofWord
  split
  · rename_i isModule
    rw [isModule]
    rfl
  · split
    · rename_i isAttributes
      rw [isAttributes]
      rfl
    · rfl

def ofMark? : Char → Option Token
  | '?' => some question
  | '*' => some star
  | '(' => some leftParen
  | ')' => some rightParen
  | '\x7b' => some leftBrace
  | '\x7d' => some rightBrace
  | '=' => some equals
  | '|' => some bar
  | ',' => some comma
  | _ => none

end Token

/-- A token and the bytes that spell it. -/
structure Lexeme where
  token : Token
  span : Span
deriving DecidableEq

def Lexeme.endOfInput (size : Nat) : Lexeme :=
  { token := .endOfInput
    span := .point size }

end Asdl
