/-
Which modules the first pass refuses, and what it says about them.

The pass stops at the first definition whose name was declared before, and it
names the definition that declared it.  The second pass has nothing to refuse,
so a repeated name is the only structural fault of a module.
-/

import Asdl.Proofs.Resolution.Compiled

namespace Asdl

/-- The definitions up to `later` have distinct names, and `later` has the name
of `first`, which stands in front of it. -/
structure Definition.FirstRepetition (definitions : List Definition) where
  front : List Definition
  first : Definition
  middle : List Definition
  later : Definition
  behind : List Definition
  split : definitions = front ++ first :: middle ++ later :: behind
  distinct : ((front ++ first :: middle).map Definition.name).Nodup
  sameName : later.name = first.name

theorem Definition.FirstRepetition.firstNameSpan?_eq
    {definitions : List Definition}
    (repetition : FirstRepetition definitions) :
    Resolution.firstNameSpan? definitions repetition.later.name =
      some repetition.first.nameSpan := by
  obtain ⟨front, first, middle, later, behind, split, distinct, sameName⟩ :=
    repetition
  have absent : ∀ definition ∈ front, ¬ definition.name = first.name := by
    rw [List.map_append, List.nodup_append] at distinct
    intro definition member same
    exact
      distinct.2.2 definition.name (List.mem_map_of_mem member) first.name
        List.mem_cons_self same
  have skipped :
      front.find? (fun definition => definition.name == first.name) = none := by
    rw [List.find?_eq_none]
    intro definition member
    simpa using absent definition member
  simp only [Resolution.firstNameSpan?, split, sameName, List.append_assoc,
    List.cons_append, List.find?_append, skipped, Option.none_or,
    List.find?_cons, beq_self_eq_true, Option.map_some]

namespace Resolution

/-- From any distinct names on, the pass stops at the first definition whose
name is among those in front of it. -/
theorem foldlM_add_eq_error_iff (name : String)
    (all earlier rest : List Definition)
    (distinct : (earlier.map Definition.name).Nodup)
    (fault : StructuralFault) :
    rest.foldlM (Declared.add all) (.ofDefinitions name earlier) =
        .error fault ↔
      ∃ before source after,
        rest = before ++ source :: after ∧
          ((earlier ++ before).map Definition.name).Nodup ∧
          source.name ∈ (earlier ++ before).map Definition.name ∧
          fault =
            .duplicateDefinition source.name source.nameSpan
              (firstNameSpan? all source.name) := by
  induction rest generalizing earlier with
  | nil =>
      constructor
      · intro stops
        cases stops
      · rintro ⟨before, source, after, split, _⟩
        exact absurd split.symm (by simp)
  | cons source rest ih =>
      rw [List.foldlM_cons]
      by_cases known : source.name ∈ earlier.map Definition.name
      · rw [Declared.add_of_mem name all known]
        constructor
        · intro stops
          cases stops
          refine ⟨[], source, rest, rfl, ?_, ?_, rfl⟩
          · rwa [List.append_nil]
          · rwa [List.append_nil]
        · rintro ⟨before, other, after, split, stayDistinct, _, rfl⟩
          cases before with
          | nil =>
              cases split
              rfl
          | cons first others =>
              cases split
              rw [List.map_append, List.nodup_append] at stayDistinct
              exact absurd rfl
                (stayDistinct.2.2 source.name known source.name
                  List.mem_cons_self)
      · have nextDistinct :
            ((earlier ++ [source]).map Definition.name).Nodup := by
          rw [List.map_append, List.map_singleton, ← List.concat_eq_append]
          exact distinct.concat known
        rw [Declared.add_of_not_mem name all known]
        refine (ih (earlier ++ [source]) nextDistinct).trans ?_
        constructor
        · rintro ⟨before, other, after, rfl, stayDistinct, repeated, named⟩
          refine ⟨source :: before, other, after, rfl, ?_, ?_, named⟩
          · simpa using stayDistinct
          · simpa using repeated
        · rintro ⟨before, other, after, split, stayDistinct, repeated, named⟩
          cases before with
          | nil =>
              cases split
              rw [List.append_nil] at repeated
              exact absurd repeated known
          | cons first others =>
              cases split
              refine ⟨others, other, after, rfl, ?_, ?_, named⟩
              · simpa using stayDistinct
              · simpa using repeated

private theorem declare_eq_error_iff (module : Module)
    (fault : StructuralFault) :
    declare module = .error fault ↔
      ∃ repetition : Definition.FirstRepetition module.definitions,
        fault =
          .duplicateDefinition repetition.later.name
            repetition.later.nameSpan (some repetition.first.nameSpan) := by
  rw [declare, Declared.start_eq]
  refine
    (foldlM_add_eq_error_iff module.name module.definitions []
      module.definitions List.nodup_nil fault).trans ?_
  simp only [List.nil_append]
  constructor
  · rintro ⟨before, later, behind, split, distinct, repeated, rfl⟩
    obtain ⟨first, member, sameName⟩ := List.mem_map.mp repeated
    obtain ⟨front, middle, rfl⟩ := List.append_of_mem member
    let repetition : Definition.FirstRepetition module.definitions :=
      { front, first, middle, later, behind, split, distinct
        sameName := sameName.symm }
    refine ⟨repetition, ?_⟩
    rw [← repetition.firstNameSpan?_eq]
  · rintro ⟨repetition, rfl⟩
    refine
      ⟨repetition.front ++ repetition.first :: repetition.middle,
        repetition.later, repetition.behind, repetition.split,
        repetition.distinct, ?_, ?_⟩
    · rw [repetition.sameName]
      exact List.mem_map_of_mem (by simp)
    · rw [repetition.firstNameSpan?_eq]

private theorem resolve_eq_error_iff {σ : Type} [FaultHandler σ]
    (module : Module)
    (handler : σ) (fault : StructuralFault) :
    ((resolve module).run.run handler).1 = .error fault ↔
      declare module = .error fault := by
  cases declares : declare module with
  | error other =>
      rw [run_resolve_of_declare_error declares handler]
      constructor
      · intro stops
        cases stops
        rfl
      · intro stops
        cases stops
        rfl
  | ok declared =>
      obtain ⟨distinct, _⟩ := (declare_eq_ok_iff _ _).mp declares
      rw [completes_resolve distinct handler]
      constructor
      · intro impossible
        cases impossible
      · intro impossible
        cases impossible

end Resolution

private theorem compile_eq_error_iff_resolve (module : Module)
    (fault : StructuralFault) :
    compile module = .error fault ↔
      ((Resolution.resolve module).run.run FaultCollector.empty).1 =
        .error fault := by
  unfold compile Tree.build
  rcases (Resolution.resolve module).run.run FaultCollector.empty with
    ⟨outcome, collector⟩
  cases outcome with
  | error other => simp
  | ok tree => simp

theorem compile_eq_error_iff (module : Module) (fault : StructuralFault) :
    compile module = .error fault ↔
      ∃ repetition : Definition.FirstRepetition module.definitions,
        fault =
          .duplicateDefinition repetition.later.name
            repetition.later.nameSpan (some repetition.first.nameSpan) := by
  rw [compile_eq_error_iff_resolve, Resolution.resolve_eq_error_iff,
    Resolution.declare_eq_error_iff]

/-- Compiling succeeds exactly on distinct names.  A module that it refuses has
a first repetition, and the fault names the repeating definition and the first
one of its name; no module has any other structural fault. -/
theorem compile_refuses_first_repetition (module : Module) :
    ((∃ compilation, compile module = .ok compilation) ↔
      (module.definitions.map Definition.name).Nodup) ∧
      ∀ fault, compile module = .error fault ↔
        ∃ repetition : Definition.FirstRepetition module.definitions,
          fault =
            .duplicateDefinition repetition.later.name
              repetition.later.nameSpan (some repetition.first.nameSpan) := by
  constructor
  · simp only [compile_eq_ok_iff, exists_and_left, exists_eq, and_true]
  · exact compile_eq_error_iff module

end Asdl
