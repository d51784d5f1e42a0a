/-
What can be wrong with a description that reads well.

A structural fault leaves no tree to speak of and stops a build.  A semantic
fault is reported to a handler and the build goes on, so one build may report
any number of them.  A handler sees the reports in order and keeps what it
needs; two handlers are given, one that keeps every fault and one that counts.
-/

import Asdl.Span

namespace Asdl

inductive SemanticFault where
  | duplicateConstructor (sum name : String) (span previous : Span)
  | undefinedType (definition name : String) (span : Span)
deriving DecidableEq

namespace SemanticFault

/-- The constructor or type that the fault is about. -/
def name : SemanticFault → String
  | duplicateConstructor _ name _ _ => name
  | undefinedType _ name _ => name

/-- The constructor or field where the fault lies. -/
def span : SemanticFault → Span
  | duplicateConstructor _ _ span _ => span
  | undefinedType _ _ span => span

def message : SemanticFault → String
  | duplicateConstructor sum name _ _ =>
      "duplicate constructor `" ++ name ++ "` in `" ++ sum ++ "`"
  | undefinedType definition name _ =>
      "undefined type `" ++ name ++ "` in `" ++ definition ++ "`"

end SemanticFault

inductive StructuralFault where
  | duplicateDefinition (name : String) (span : Span) (previous? : Option Span)
  | slotCount (definition slot : String) (expected found : Nat)
  | shapeMismatch (definition : String)
deriving DecidableEq

def StructuralFault.message : StructuralFault → String
  | duplicateDefinition name _ _ =>
      "duplicate definition of `" ++ name ++ "`"
  | slotCount definition slot expected found =>
      "`" ++ definition ++ "` has " ++ expected.repr ++ " " ++ slot ++
        " slot(s) but " ++ found.repr ++ " were supplied"
  | shapeMismatch definition =>
      "skeleton for `" ++ definition ++ "` does not match its declaration"

/-- A state that takes semantic faults one at a time and knows how many it has
taken. -/
class FaultHandler (σ : Type) where
  report : σ → SemanticFault → σ
  count : σ → Nat

def FaultHandler.reportAll {σ : Type} [FaultHandler σ] (handler : σ)
    (faults : List SemanticFault) : σ :=
  faults.foldl FaultHandler.report handler

structure FaultCollector where
  faults : List SemanticFault
deriving DecidableEq

def FaultCollector.empty : FaultCollector :=
  { faults := [] }

instance : FaultHandler FaultCollector where
  report collector fault := { faults := collector.faults ++ [fault] }
  count collector := collector.faults.length

structure FaultTally where
  total : Nat
deriving DecidableEq

def FaultTally.zero : FaultTally :=
  { total := 0 }

instance : FaultHandler FaultTally where
  report tally _ := { total := tally.total + 1 }
  count tally := tally.total

end Asdl
