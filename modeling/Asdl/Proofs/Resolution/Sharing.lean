/-
Builds that share a handler.

A build hands its reports over one at a time and learns nothing from the
handler, so it comes to what compiling the description alone comes to, and the
handler gets what compiling reports, behind whatever it was given before.  A
build that is stopped was stopped by the first pass, which reports nothing, so
it leaves the handler as it was.
-/

import Asdl.Proofs.Resolution.Repetition

namespace Asdl

section Handlers

variable {σ : Type} [FaultHandler σ]

private theorem FaultHandler.reportAll_append (handler : σ)
    (earlier later : List SemanticFault) :
    FaultHandler.reportAll handler (earlier ++ later) =
      FaultHandler.reportAll (FaultHandler.reportAll handler earlier) later :=
  List.foldl_append

theorem FaultTally.reportAll_eq (tally : FaultTally)
    (faults : List SemanticFault) :
    FaultHandler.reportAll tally faults =
      { total := tally.total + faults.length } := by
  unfold FaultHandler.reportAll
  induction faults generalizing tally with
  | nil => rfl
  | cons fault rest ih =>
      rw [List.foldl_cons, ih, List.length_cons]
      simp only [FaultHandler.report, FaultTally.mk.injEq]
      omega

end Handlers

/-- What compiling reports about a description.  Nothing is reported about one
that is refused. -/
def Module.compileFaults (module : Module) : List SemanticFault :=
  match compile module with
  | .ok compilation => compilation.faults
  | .error _ => []

private theorem Tree.build_eq {σ : Type} [FaultHandler σ] (module : Module)
    (handler : σ) :
    Tree.build module handler =
      ((compile module).map Compilation.tree,
        FaultHandler.reportAll handler module.compileFaults) := by
  unfold Module.compileFaults
  cases declares : Resolution.declare module with
  | error fault =>
      have refused : compile module = .error fault := by
        rw [compile, Tree.build_of_declare_error declares]
      rw [Tree.build_of_declare_error declares, refused]
      rfl
  | ok declared =>
      obtain ⟨distinct, _⟩ :=
        (Resolution.declare_eq_ok_iff module _).mp declares
      have compiled : compile module = .ok module.linked :=
        (compile_eq_ok_iff module _).mpr ⟨distinct, rfl⟩
      rw [Tree.build_of_nodup distinct, compiled]
      rfl

/-- Builds descriptions one after another on one handler: what each build comes
to, and the handler behind it. -/
def Tree.buildEach {σ : Type} [FaultHandler σ] :
    List Module → σ → List (Except StructuralFault Tree × σ)
  | [], _ => []
  | module :: rest, handler =>
      Tree.build module handler ::
        buildEach rest (Tree.build module handler).2

theorem Tree.buildEach_eq {σ : Type} [FaultHandler σ] (modules : List Module)
    (handler : σ) :
    Tree.buildEach modules handler =
      modules.mapIdx fun index module =>
        ((compile module).map Compilation.tree,
          FaultHandler.reportAll handler
            ((modules.take (index + 1)).flatMap Module.compileFaults)) := by
  induction modules generalizing handler with
  | nil => rfl
  | cons module rest ih =>
      rw [Tree.buildEach, Tree.build_eq, ih, List.mapIdx_cons]
      simp only [List.take_succ_cons, List.take_zero, List.flatMap_cons,
        List.flatMap_nil, List.append_nil, FaultHandler.reportAll_append]

/-- Builds on one handler, of whatever kind and whatever it holds, do not touch
each other: each comes to what its description compiles to, and hands over what
compiling it reports.  A collector keeps the reports in this order behind what
it held, and counts what it holds; a tally counts the same reports. -/
theorem buildEach_independent (modules : List Module) :
    (∀ (σ : Type) [FaultHandler σ] (handler : σ),
      Tree.buildEach modules handler =
        modules.mapIdx fun index module =>
          ((compile module).map Compilation.tree,
            FaultHandler.reportAll handler
              ((modules.take (index + 1)).flatMap Module.compileFaults))) ∧
      (∀ collector : FaultCollector,
        (Tree.buildEach modules collector).map
            (fun step => (step.2.faults, FaultHandler.count step.2)) =
          modules.mapIdx fun index _ =>
            let held :=
              collector.faults ++
                (modules.take (index + 1)).flatMap Module.compileFaults
            (held, held.length)) ∧
      ∀ tally : FaultTally,
        (Tree.buildEach modules tally).map
            (fun step => FaultHandler.count step.2) =
          modules.mapIdx fun index _ =>
            FaultHandler.count tally +
              ((modules.take (index + 1)).flatMap
                Module.compileFaults).length := by
  refine ⟨fun σ _ handler => Tree.buildEach_eq modules handler, ?_, ?_⟩
  · intro collector
    rw [Tree.buildEach_eq, map_mapIdx]
    simp only [FaultCollector.reportAll_eq]
    rfl
  · intro tally
    rw [Tree.buildEach_eq, map_mapIdx]
    simp only [FaultTally.reportAll_eq]
    rfl

end Asdl
