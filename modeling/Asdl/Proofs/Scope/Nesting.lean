/-
Lookup through nested scopes.

Work with scopes goes in steps: a call on the innermost scope, entering a new
scope inside it, and leaving it for the scope around it.  Beside the scope runs
the list of calls that each open scope has taken.  A name stands for what the
innermost of these lists that mentions it says, also when that list only
declares it; and what is done between entering a scope and leaving it again
cannot be seen from outside.
-/

import Asdl.Proofs.Scope.History

namespace Asdl

namespace Scope

variable {α : Type}

inductive Step (α : Type) where
  | mention (mention : Mention α)
  | enter
  | leave
deriving DecidableEq

def step (scope : Scope α) : Step α → Scope α
  | .mention mention => scope.after mention
  | .enter => scope.nest
  | .leave => scope.leave

def run (scope : Scope α) (steps : List (Step α)) : Scope α :=
  steps.foldl step scope

/-- How many scopes are open inside the one where the steps start, from a number
that was open before them.  Steps that leave that scope have no depth. -/
def Step.depth? : Nat → List (Step α) → Option Nat
  | depth, [] => some depth
  | depth, .mention _ :: rest => depth? depth rest
  | depth, .enter :: rest => depth? (depth + 1) rest
  | 0, .leave :: _ => none
  | depth + 1, .leave :: rest => depth? depth rest

end Scope

/-- What was called on the innermost scope and on each scope around it, the
nearest first. -/
structure Nesting (α : Type) where
  current : List (Mention α)
  outer : List (List (Mention α))
deriving DecidableEq

namespace Nesting

variable {α : Type}

def start : Nesting α :=
  { current := []
    outer := [] }

def step (nesting : Nesting α) : Scope.Step α → Nesting α
  | .mention mention =>
      { nesting with current := nesting.current ++ [mention] }
  | .enter =>
      { current := []
        outer := nesting.current :: nesting.outer }
  | .leave =>
      match nesting.outer with
      | [] => start
      | first :: rest =>
          { current := first
            outer := rest }

def run (nesting : Nesting α) (steps : List (Scope.Step α)) : Nesting α :=
  steps.foldl step nesting

def histories (nesting : Nesting α) : List (List (Mention α)) :=
  nesting.current :: nesting.outer

/-- The history belongs to the innermost scope that mentions the name. -/
def Innermost (nesting : Nesting α) (name : String)
    (history : List (Mention α)) : Prop :=
  ∃ inner outer, nesting.histories = inner ++ history :: outer ∧
    (∀ other ∈ inner, name ∉ other.map Mention.name) ∧
    name ∈ history.map Mention.name

def scope (nesting : Nesting α) : Scope α :=
  .recorded nesting.current (nesting.outer.map Table.recorded)

private theorem step_scope (nesting : Nesting α) (step : Scope.Step α) :
    nesting.scope.step step = (nesting.step step).scope := by
  cases step with
  | mention mention => exact Scope.after_recorded _ _ mention
  | enter => rfl
  | leave =>
      obtain ⟨current, outer⟩ := nesting
      cases outer with
      | nil => rfl
      | cons first rest => rfl

private theorem run_scope (nesting : Nesting α) (steps : List (Scope.Step α)) :
    nesting.scope.run steps = (nesting.run steps).scope := by
  unfold Scope.run Nesting.run
  induction steps generalizing nesting with
  | nil => rfl
  | cons step rest ih =>
      rw [List.foldl_cons, List.foldl_cons, step_scope, ih]

end Nesting

/-! ### Lookup -/

namespace Nesting

variable {α : Type} (nesting : Nesting α)

theorem resolve?_scope (name : String) :
    nesting.scope.resolve? name =
      nesting.histories.findSome? fun history =>
        if name ∈ history.map Mention.name then
          some (Symbol.recorded history name)
        else
          none := by
  have tables :
      nesting.scope.table :: nesting.scope.outer =
        nesting.histories.map Table.recorded :=
    rfl
  rw [Scope.resolve?, tables, List.findSome?_map]
  simp only [Function.comp_def, Table.find?_recorded, Mention.mem_firstNames]

theorem resolve?_scope_eq_some_iff (name : String) (symbol : Symbol α) :
    nesting.scope.resolve? name = some symbol ↔
      ∃ history, nesting.Innermost name history ∧
        symbol = Symbol.recorded history name := by
  rw [resolve?_scope, List.findSome?_eq_some_iff]
  constructor
  · rintro ⟨inner, history, outer, split, here, before⟩
    have mentions : name ∈ history.map Mention.name := by
      by_contra absent
      rw [if_neg absent] at here
      cases here
    rw [if_pos mentions] at here
    refine ⟨history, ⟨inner, outer, split, ?_, mentions⟩, ?_⟩
    · intro other member listed
      have passed := before other member
      rw [if_pos listed] at passed
      cases passed
    · exact (Option.some.inj here).symm
  · rintro ⟨history, ⟨inner, outer, split, before, mentions⟩, rfl⟩
    refine ⟨inner, history, outer, split, if_pos mentions, ?_⟩
    intro other member
    exact if_neg (before other member)

private theorem resolve?_scope_eq_none_iff (name : String) :
    nesting.scope.resolve? name = none ↔
      ∀ history ∈ nesting.histories, name ∉ history.map Mention.name := by
  rw [resolve?_scope, List.findSome?_eq_none_iff]
  simp only [ite_eq_right_iff, reduceCtorEq, imp_false]

theorem definition?_scope_of_innermost {name : String}
    {history : List (Mention α)}
    (innermost : nesting.Innermost name history) :
    nesting.scope.definition? name =
      Mention.firstDefinition? history name := by
  have resolves :=
    (nesting.resolve?_scope_eq_some_iff name _).mpr ⟨history, innermost, rfl⟩
  rw [Scope.definition?, resolves]
  rfl

private theorem definition?_scope_eq_some_iff (name : String) (definition : α) :
    nesting.scope.definition? name = some definition ↔
      ∃ history, nesting.Innermost name history ∧
        Mention.firstDefinition? history name = some definition := by
  constructor
  · intro defined
    obtain ⟨symbol, resolves, _⟩ := Option.bind_eq_some_iff.mp defined
    obtain ⟨history, innermost, _⟩ :=
      (nesting.resolve?_scope_eq_some_iff name symbol).mp resolves
    rw [nesting.definition?_scope_of_innermost innermost] at defined
    exact ⟨history, innermost, defined⟩
  · rintro ⟨history, innermost, given⟩
    rw [nesting.definition?_scope_of_innermost innermost, given]

end Nesting

namespace Scope

variable {α : Type}

private theorem outer_after (scope : Scope α) (mention : Mention α) :
    (scope.after mention).outer = scope.outer := by
  cases mention with
  | declare name => rfl
  | define name definition =>
      rw [after, answer, define]
      cases scope.table.define name definition with
      | error redefinition => rfl
      | ok table => rfl

/-- The tables lie around the scope, with some number of others in between. -/
def Above (around : List (Table α)) (depth : Nat) (scope : Scope α) : Prop :=
  ∃ between, between.length = depth ∧ scope.outer = between ++ around

theorem Above.run {around : List (Table α)} {depth final : Nat}
    {scope : Scope α} {steps : List (Step α)}
    (above : scope.Above around depth)
    (stays : Step.depth? depth steps = some final) :
    (scope.run steps).Above around final := by
  induction steps generalizing depth scope with
  | nil =>
      cases stays
      exact above
  | cons step rest ih =>
      obtain ⟨between, count, outer⟩ := above
      cases step with
      | mention mention =>
          refine ih ⟨between, count, ?_⟩ stays
          exact (outer_after scope mention).trans outer
      | enter =>
          refine ih ⟨scope.table :: between, ?_, ?_⟩ stays
          · rw [List.length_cons, count]
          · exact congrArg (scope.table :: ·) outer
      | leave =>
          cases between with
          | nil =>
              cases count
              cases stays
          | cons nearest others =>
              cases count
              refine ih ⟨others, rfl, ?_⟩ stays
              rw [step, leave, enclosing?, outer]
              rfl

private theorem run_enter_leave (scope : Scope α) {inside : List (Step α)}
    (stays : Step.depth? 0 inside = some 0) :
    scope.run (.enter :: inside ++ [.leave]) = scope := by
  have entered : scope.nest.Above (scope.table :: scope.outer) 0 :=
    ⟨[], rfl, rfl⟩
  obtain ⟨between, count, outer⟩ := entered.run stays
  cases List.eq_nil_of_length_eq_zero count
  have split :
      scope.run (.enter :: inside ++ [.leave]) =
        (scope.nest.run inside).leave := by
    rw [run, List.foldl_append]
    rfl
  rw [split, leave, enclosing?, outer]
  rfl

/-- How lookup in a scope follows from the calls on the scopes around it.  A
name that the innermost mention only declares has no definition, whatever the
scopes further out define; and the scope can be entered and left again as if
nothing had happened. -/
structure Shadows (scope : Scope α) (nesting : Nesting α) : Prop where
  resolve :
    ∀ name symbol,
      scope.resolve? name = some symbol ↔
        ∃ history, nesting.Innermost name history ∧
          symbol = Symbol.recorded history name
  unknown :
    ∀ name,
      scope.resolve? name = none ↔
        ∀ history ∈ nesting.histories, name ∉ history.map Mention.name
  definition :
    ∀ name definition,
      scope.definition? name = some definition ↔
        ∃ history, nesting.Innermost name history ∧
          Mention.firstDefinition? history name = some definition
  hidden :
    ∀ name history, nesting.Innermost name history →
      (∀ definition, .define name definition ∉ history) →
        scope.definition? name = none
  current :
    ∀ name,
      scope.findLocal? name =
        if name ∈ nesting.current.map Mention.name then
          some (Symbol.recorded nesting.current name)
        else
          none
  restored :
    ∀ inside, Step.depth? 0 inside = some 0 →
      scope.run (.enter :: inside ++ [.leave]) = scope

/-- Whatever the steps from an empty scope on, a name stands for its innermost
mention. -/
theorem shadows_of_run (steps : List (Step α)) :
    (topLevel.run steps).Shadows (Nesting.start.run steps) := by
  have isRun : topLevel.run steps = (Nesting.start.run steps).scope :=
    Nesting.run_scope Nesting.start steps
  rw [isRun]
  generalize Nesting.start.run steps = nesting
  refine
    { resolve := nesting.resolve?_scope_eq_some_iff
      unknown := nesting.resolve?_scope_eq_none_iff
      definition := nesting.definition?_scope_eq_some_iff
      hidden := ?_
      current := ?_
      restored := fun _ stays => run_enter_leave _ stays }
  · intro name history innermost onlyDeclared
    rw [nesting.definition?_scope_of_innermost innermost,
      ← Option.not_isSome_iff_eq_none, Mention.isSome_firstDefinition?_iff]
    rintro ⟨definition, member⟩
    exact onlyDeclared definition member
  · intro name
    rw [findLocal?, Nesting.scope, recorded, Table.find?_recorded]
    simp only [Mention.mem_firstNames]

/-- An inner declaration hides an outer definition until its scope is left. -/
example :
    let declared : List (Step Nat) :=
      [.mention (.define "node" 7), .enter, .mention (.declare "node")]
    (topLevel.run declared).definition? "node" = none ∧
      (topLevel.run (declared ++ [.leave])).definition? "node" = some 7 := by
  decide

end Scope

end Asdl
