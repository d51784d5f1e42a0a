/-
A table of the lexemes of a source, with a count of the words in it.
-/

import Asdl.Token.Cursor

namespace Asdl

def Token.family : Token → String
  | moduleKeyword | attributesKeyword => "Keyword"
  | identifier _ => "Identifier"
  | question | star => "Marker"
  | leftParen | rightParen | leftBrace | rightBrace => "Delimiter"
  | equals | bar | comma => "Punctuation"
  | endOfInput => "EOF"

def Token.isIdentifier : Token → Bool
  | identifier _ => true
  | _ => false

def padded (width : Nat) (text : String) : String :=
  text ++ String.ofList (List.replicate (width - text.length) ' ')

def listingRow (span length family value : String) : String :=
  padded 10 span ++ " " ++ padded 8 length ++ " " ++ padded 12 family ++ " " ++
    value ++ "\n"

def Lexeme.listingRow (lexeme : Lexeme) : String :=
  Asdl.listingRow lexeme.span.text lexeme.span.length.repr
    lexeme.token.family lexeme.token.text

/-- The table of a source and the counts under it.  The end of the input has a
row and counts as a token. -/
def Tokenization.listing (tokenization : Tokenization) : String :=
  let tokens := tokenization.toList.map Lexeme.token
  listingRow "SPAN" "LENGTH" "TOKEN TYPE" "VALUE" ++
    String.ofList (List.replicate 48 '-') ++ "\n" ++
    String.join (tokenization.toList.map Lexeme.listingRow) ++
    "\n=== Summary ===\n" ++
    "Total tokens: " ++ tokens.length.repr ++ "\n" ++
    "  Keywords:    " ++ (tokens.countP Token.isKeyword).repr ++ "\n" ++
    "  Identifiers: " ++ (tokens.countP Token.isIdentifier).repr ++ "\n"

end Asdl
