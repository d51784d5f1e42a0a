/-
Reports that point into a source.

A report says what is wrong and labels the ranges of the source that show it:
red for the offence, blue for an earlier place that it clashes with.  How a
report is drawn is left to whoever shows it.
-/

import Asdl.Module.OfConcrete
import Asdl.Resolution

namespace Asdl

inductive Color where
  | red
  | blue
deriving DecidableEq

structure Label where
  span : Span
  text : String
  color : Color
deriving DecidableEq

structure Report where
  path : String
  message : String
  labels : List Label
deriving DecidableEq

namespace Report

/-- Where a report begins: at its first label, or at the start of the source. -/
def offset (report : Report) : Nat :=
  match report.labels with
  | [] => 0
  | label :: _ => label.span.start

def firstDefinedHere (span : Span) : Label :=
  { span := span
    text := "first defined here"
    color := .blue }

def ofSyntaxError (path : String) (error : SyntaxError) : Report :=
  { path := path
    message := "syntax error"
    labels :=
      [{ span := error.span
         text := error.fault.message
         color := .red }] }

def ofSemanticFault (path : String) (fault : SemanticFault) : Report :=
  { path := path
    message := fault.message
    labels :=
      { span := fault.span
        text := fault.message
        color := .red } ::
        match fault with
        | .duplicateConstructor _ _ _ previous => [firstDefinedHere previous]
        | .undefinedType _ _ _ => [] }

def ofStructuralFault (path : String) (fault : StructuralFault) : Report :=
  { path := path
    message := fault.message
    labels :=
      match fault with
      | .duplicateDefinition _ span previous? =>
          { span := span
            text := "defined again here"
            color := .red } ::
            previous?.toList.map firstDefinedHere
      | .slotCount _ _ _ _ => []
      | .shapeMismatch _ => [] }

end Report

structure Checked where
  module : Module
  compilation : Compilation
deriving DecidableEq

/-- Reads and compiles a source.  Whatever stops the work is one report;
semantic faults do not stop it. -/
def check (path source : String) : Except Report Checked :=
  match Module.parse source with
  | .error error => .error (.ofSyntaxError path error)
  | .ok module =>
      match compile module with
      | .error fault => .error (.ofStructuralFault path fault)
      | .ok compilation =>
          .ok
            { module := module
              compilation := compilation }

/-- The reports of the semantic faults, in the order of their discovery. -/
def Checked.reports (path : String) (checked : Checked) : List Report :=
  checked.compilation.faults.map (Report.ofSemanticFault path)

def diagnose (path source : String) : List Report :=
  match check path source with
  | .error report => [report]
  | .ok checked => checked.reports path

end Asdl
