/-
What the command-line tool does with a source, as a function from the contents
of a file to what is printed.

Nothing goes to standard output for a faulty module, except that the table of
lexemes is announced before the source is looked at.
-/

import Asdl.Module.Outline
import Asdl.Module.Source
import Asdl.Report
import Asdl.Token.Listing
import Asdl.Tree.Dump

namespace Asdl

inductive Notice where
  | report (content : Report) (source : String)
  | count (faults : Nat) (path : String)
  | unreadable (path reason : String)
deriving DecidableEq

/-- The text of a notice, given how a report is drawn beside its source. -/
def Notice.text (draw : Report → String → String) : Notice → String
  | report content source => draw content source
  | count faults path => faults.repr ++ " error(s) in " ++ path ++ "\n"
  | unreadable path reason =>
      "error: reading '" ++ path ++ "': " ++ reason ++ "\n"

theorem Notice.text_report (draw : Report → String → String)
    (content : Report) (source : String) :
    (report content source).text draw = draw content source :=
  rfl

theorem Notice.text_count (draw : Report → String → String) (faults : Nat)
    (path : String) :
    (count faults path).text draw =
      faults.repr ++ " error(s) in " ++ path ++ "\n" :=
  rfl

structure Outcome where
  exit : Nat
  stdout : String
  notices : List Notice
deriving DecidableEq

namespace Outcome

def success (stdout : String) : Outcome :=
  { exit := 0
    stdout := stdout
    notices := [] }

def failure (stdout : String) (notices : List Notice) : Outcome :=
  { exit := 1
    stdout := stdout
    notices := notices }

def stderr (draw : Report → String → String) (outcome : Outcome) : String :=
  String.join (outcome.notices.map (Notice.text draw))

end Outcome

inductive Printout where
  | summary
  | dump
  | source
deriving DecidableEq

def runLex (path source : String) : Outcome :=
  let heading := "=== Lexer Output for " ++ path ++ " ===\n\n"
  match tokenize source with
  | .ok tokenization => .success (heading ++ tokenization.listing)
  | .error error =>
      .failure heading
        [.report (.ofSyntaxError path error.toSyntaxError) source]

def runParse (path source : String) : Outcome :=
  match Module.parse source with
  | .ok module =>
      .success ("=== AST for " ++ path ++ " ===\n\n" ++ module.outline)
  | .error error =>
      .failure "" [.report (.ofSyntaxError path error) source]

def Tree.summary (tree : Tree) : String :=
  "module " ++ tree.root.name.declared ++ ": " ++
    tree.root.definitions.length.repr ++ " definition(s), no errors\n"

def Checked.print (checked : Checked) : Printout → String
  | .summary => checked.compilation.tree.summary
  | .dump => checked.compilation.tree.dump
  | .source => checked.module.source

/-- Checks a source and prints what was asked for if nothing is wrong.
Semantic faults are counted in a last notice. -/
def runCheck (printout : Printout) (path source : String) : Outcome :=
  match check path source with
  | .error report => .failure "" [.report report source]
  | .ok checked =>
      if checked.compilation.isClean then
        .success (checked.print printout)
      else
        .failure ""
          ((checked.reports path).map (Notice.report · source) ++
            [.count checked.compilation.faults.length path])

inductive Command where
  | lex (file : String)
  | parse (file : String)
  | emit (file : String)
  | check (file : String) (dump : Bool)
deriving DecidableEq

namespace Command

def file : Command → String
  | lex file => file
  | parse file => file
  | emit file => file
  | check file _ => file

def runOn (command : Command) (source : String) : Outcome :=
  match command with
  | lex file => runLex file source
  | parse file => runParse file source
  | emit file => runCheck .source file source
  | check file dump => runCheck (if dump then .dump else .summary) file source

/-- Runs a command, given the text of its file or why there is none. -/
def run (command : Command) (contents : Except String String) : Outcome :=
  match contents with
  | .error reason => .failure "" [.unreadable command.file reason]
  | .ok source => command.runOn source

end Command

end Asdl
