/-
From the words of a command line to a request.

Arguments are taken from left to right, and the first one that settles the
matter wins: a wrong argument, or a wish for help or for the version.  Flags
that ask for more logging are accepted anywhere and have no other effect.
-/

import Asdl.Command

namespace Asdl

inductive Argument where
  | separator
  | long (name : String) (value? : Option String)
  | short (flags : List Char)
  | plain (text : String)
deriving DecidableEq

/-- Two dashes alone separate flags from operands, two dashes begin a long flag
that may bring a value behind an equals sign, and one dash begins a run of
short flags. -/
def Argument.ofText (text : String) : Argument :=
  match text.toList with
  | ['-', '-'] => separator
  | '-' :: '-' :: body =>
      let value? :=
        match body.dropWhile (· != '=') with
        | [] => none
        | _ :: value => some (String.ofList value)
      long (String.ofList (body.takeWhile (· != '='))) value?
  | '-' :: flag :: flags => short (flag :: flags)
  | _ => plain text

inductive Shell where
  | bash
  | elvish
  | fish
  | powershell
  | zsh
deriving DecidableEq

def Shell.ofText? (text : String) : Option Shell :=
  if text = "bash" then some bash
  else if text = "elvish" then some elvish
  else if text = "fish" then some fish
  else if text = "powershell" then some powershell
  else if text = "zsh" then some zsh
  else none

inductive Request where
  | run (command : Command)
  | completions (shell : Shell)
  | help
  | version
deriving DecidableEq

inductive Flags where
  | wrong
  | settled (request : Request)
  | passed
deriving DecidableEq

def Flags.ofShort (versioned : Bool) : List Char → Flags
  | [] => passed
  | flag :: flags =>
      if flag = 'v' then
        Flags.ofShort versioned flags
      else if flag = 'h' then
        settled .help
      else if flag = 'V' && versioned then
        settled .version
      else
        wrong

inductive CommandWord where
  | lex
  | parse
  | emit
  | check
  | completions
deriving DecidableEq

def CommandWord.ofText? (text : String) : Option CommandWord :=
  if text = "lex" then some lex
  else if text = "parse" then some parse
  else if text = "emit" then some emit
  else if text = "check" then some check
  else if text = "completions" then some completions
  else none

structure Draft where
  word : CommandWord
  operand? : Option String
  dump : Bool
deriving DecidableEq

namespace Draft

def start (word : CommandWord) : Draft :=
  { word := word
    operand? := none
    dump := false }

/-- An operand names a shell for completions and a file otherwise; a file name
is not empty. -/
def validOperand (word : CommandWord) (text : String) : Bool :=
  match word with
  | .completions => (Shell.ofText? text).isSome
  | _ => !text.isEmpty

def addOperand? (draft : Draft) (text : String) : Option Draft :=
  if draft.operand?.isNone && validOperand draft.word text then
    some { draft with operand? := some text }
  else
    none

/-- Takes the flag that asks for the dump, once and for a check only. -/
def addDump? (draft : Draft) : Option Draft :=
  if draft.word = .check && !draft.dump then
    some { draft with dump := true }
  else
    none

def request? (draft : Draft) : Option Request :=
  draft.operand?.bind fun operand =>
    match draft.word with
    | .lex => some (.run (.lex operand))
    | .parse => some (.run (.parse operand))
    | .emit => some (.run (.emit operand))
    | .check => some (.run (.check operand draft.dump))
    | .completions => (Shell.ofText? operand).map Request.completions

def read? : Draft → List String → Option Request
  | draft, [] => draft.request?
  | draft, text :: rest =>
      match Argument.ofText text with
      | .separator => (rest.foldlM addOperand? draft).bind request?
      | .long name value? =>
          if value?.isSome then
            none
          else if name = "verbose" then
            draft.read? rest
          else if name = "help" then
            some .help
          else if name = "dump" then
            draft.addDump?.bind fun dumping => dumping.read? rest
          else
            none
      | .short flags =>
          match Flags.ofShort false flags with
          | .wrong => none
          | .settled request => some request
          | .passed => draft.read? rest
      | .plain operand =>
          (draft.addOperand? operand).bind fun longer => longer.read? rest

end Draft

namespace Request

/-- What follows the word for help: nothing, or the word of a command. -/
def ofHelp? : List String → Option Request
  | [] => some help
  | [word] =>
      if word = "help" || (CommandWord.ofText? word).isSome then
        some help
      else
        none
  | _ :: _ :: _ => none

def ofArguments? : List String → Option Request
  | [] => none
  | text :: rest =>
      match Argument.ofText text with
      | .separator => none
      | .long name value? =>
          if value?.isSome then
            none
          else if name = "verbose" then
            ofArguments? rest
          else if name = "help" then
            some help
          else if name = "version" then
            some version
          else
            none
      | .short flags =>
          match Flags.ofShort true flags with
          | .wrong => none
          | .settled request => some request
          | .passed => ofArguments? rest
      | .plain word =>
          match CommandWord.ofText? word with
          | some command => (Draft.start command).read? rest
          | none =>
              if word = "help" then
                ofHelp? rest
              else
                none

end Request

end Asdl
