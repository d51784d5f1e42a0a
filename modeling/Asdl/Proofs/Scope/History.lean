/-
What a scope knows is what was said in it.

A scope starts empty, and every call on it declares or defines a name.  Its
table can be written down from the calls alone: the names in the order in which
they were first mentioned, each with what the first definition of the name gave
it.  One more call makes the table of one more call, so the order, the names and
the definitions are carried through any sequence of calls together.
-/

import Mathlib.Data.Finset.Card
import Asdl.Scope

namespace Asdl

inductive Mention (α : Type) where
  | declare (name : String)
  | define (name : String) (definition : α)
deriving DecidableEq

namespace Mention

variable {α : Type}

def name : Mention α → String
  | declare name => name
  | define name _ => name

def definitionOf? (name : String) : Mention α → Option α
  | declare _ => none
  | define other definition => if other = name then some definition else none

/-- The names of the calls, each at its first mention. -/
def firstNames (history : List (Mention α)) : List String :=
  (history.map Mention.name).eraseDups

/-- What the first definition of a name gives to it. -/
def firstDefinition? (history : List (Mention α)) (name : String) :
    Option α :=
  history.findSome? (definitionOf? name)

theorem mem_firstNames {history : List (Mention α)} {name : String} :
    name ∈ firstNames history ↔ name ∈ history.map Mention.name :=
  List.mem_eraseDups

theorem firstNames_concat_of_mem {history : List (Mention α)}
    {mention : Mention α} (known : mention.name ∈ firstNames history) :
    firstNames (history ++ [mention]) = firstNames history := by
  have listed := mem_firstNames.mp known
  rw [firstNames, List.map_append, List.map_singleton, List.eraseDups_append,
    List.removeAll, List.filter_cons_of_neg (by simpa using listed)]
  exact List.append_nil _

theorem firstNames_concat_of_not_mem {history : List (Mention α)}
    {mention : Mention α} (unknown : mention.name ∉ firstNames history) :
    firstNames (history ++ [mention]) =
      firstNames history ++ [mention.name] := by
  have unlisted : mention.name ∉ history.map Mention.name :=
    fun listed => unknown (mem_firstNames.mpr listed)
  rw [firstNames, List.map_append, List.map_singleton, List.eraseDups_append,
    List.removeAll, List.filter_cons_of_pos (by simpa using unlisted),
    List.filter_nil, List.eraseDups_cons]
  rfl

theorem nodup_firstNames (history : List (Mention α)) :
    (firstNames history).Nodup := by
  induction history using List.reverseRecOn with
  | nil => exact List.nodup_nil
  | append_singleton history mention ih =>
      by_cases known : mention.name ∈ firstNames history
      · rw [firstNames_concat_of_mem known]
        exact ih
      · rw [firstNames_concat_of_not_mem known, List.nodup_append_comm]
        exact List.nodup_cons.mpr ⟨known, ih⟩

theorem firstDefinition?_concat (history : List (Mention α))
    (mention : Mention α) (name : String) :
    firstDefinition? (history ++ [mention]) name =
      (firstDefinition? history name).or (mention.definitionOf? name) := by
  rw [firstDefinition?, firstDefinition?, List.findSome?_append,
    List.findSome?_singleton]

theorem definitionOf?_eq_some_iff {mention : Mention α} {name : String}
    {definition : α} :
    mention.definitionOf? name = some definition ↔
      mention = .define name definition := by
  cases mention with
  | declare other => simp [definitionOf?]
  | define other given => simp [definitionOf?]

theorem isSome_firstDefinition?_iff {history : List (Mention α)}
    {name : String} :
    (firstDefinition? history name).isSome = true ↔
      ∃ definition, .define name definition ∈ history := by
  rw [firstDefinition?, List.isSome_findSome?, List.any_eq_true]
  constructor
  · rintro ⟨mention, member, gives⟩
    obtain ⟨definition, given⟩ := Option.isSome_iff_exists.mp gives
    exact ⟨definition, definitionOf?_eq_some_iff.mp given ▸ member⟩
  · rintro ⟨definition, member⟩
    refine ⟨_, member, ?_⟩
    rw [definitionOf?_eq_some_iff.mpr rfl]
    rfl

theorem firstDefinition?_of_not_mem {history : List (Mention α)}
    {name : String} (unknown : name ∉ firstNames history) :
    firstDefinition? history name = none := by
  rw [← Option.not_isSome_iff_eq_none, isSome_firstDefinition?_iff]
  rintro ⟨definition, member⟩
  exact unknown (mem_firstNames.mpr (List.mem_map_of_mem member))

end Mention

/-! ### The table of a history -/

section Recorded

variable {α : Type}

def Symbol.recorded (history : List (Mention α)) (name : String) : Symbol α :=
  { name := name
    definition? := Mention.firstDefinition? history name }

/-- The table that the calls leave behind. -/
def Table.recorded (history : List (Mention α)) : Table α :=
  { symbols := (Mention.firstNames history).map (Symbol.recorded history) }

namespace Table

variable (history : List (Mention α))

theorem map_name_recorded :
    (recorded history).symbols.map Symbol.name =
      Mention.firstNames history := by
  rw [recorded, List.map_map]
  exact List.map_id _

theorem find?_recorded (name : String) :
    (recorded history).find? name =
      if name ∈ Mention.firstNames history then
        some (Symbol.recorded history name)
      else
        none := by
  have sameTest :
      (fun symbol : Symbol α => symbol.name == name) ∘
          Symbol.recorded history =
        fun other => other == name :=
    rfl
  rw [recorded, find?, List.find?_map, sameTest]
  cases found :
      (Mention.firstNames history).find? (fun other => other == name) with
  | none =>
      have unknown : name ∉ Mention.firstNames history := by
        intro known
        simpa using List.find?_eq_none.mp found name known
      rw [if_neg unknown]
      rfl
  | some other =>
      have same : other = name := by simpa using List.find?_some found
      subst same
      rw [if_pos (List.mem_of_find?_eq_some found)]
      rfl

private theorem mem_symbols_recorded {symbol : Symbol α} :
    symbol ∈ (recorded history).symbols ↔
      symbol.name ∈ Mention.firstNames history ∧
        symbol = Symbol.recorded history symbol.name := by
  rw [recorded, List.mem_map]
  constructor
  · rintro ⟨name, member, rfl⟩
    exact ⟨member, rfl⟩
  · rintro ⟨member, same⟩
    exact ⟨symbol.name, member, same.symm⟩

private theorem length_recorded :
    (recorded history).symbols.length =
      (history.map Mention.name).toFinset.card := by
  have sameNames :
      (Mention.firstNames history).toFinset =
        (history.map Mention.name).toFinset := by
    ext name
    rw [List.mem_toFinset, List.mem_toFinset, Mention.mem_firstNames]
  rw [← sameNames,
    List.toFinset_card_of_nodup (Mention.nodup_firstNames history), recorded,
    List.length_map]

private theorem declare_recorded (name : String) :
    (recorded history).declare name =
      recorded (history ++ [.declare name]) := by
  have sameDefinitions :
      Symbol.recorded (history ++ [.declare name]) =
        Symbol.recorded history := by
    funext other
    rw [Symbol.recorded, Mention.firstDefinition?_concat]
    simp only [Mention.definitionOf?, Option.or_none, Symbol.recorded]
  rw [declare, find?_recorded]
  by_cases known : name ∈ Mention.firstNames history
  · rw [if_pos known, recorded, recorded,
      Mention.firstNames_concat_of_mem known, sameDefinitions]
  · have undefined := Mention.firstDefinition?_of_not_mem known
    rw [if_neg known, recorded, recorded,
      Mention.firstNames_concat_of_not_mem known, sameDefinitions]
    simp [push, Symbol.recorded, undefined, Mention.name]

theorem recorded_concat_define (name : String) (definition : α)
    (other : String) :
    Symbol.recorded (history ++ [.define name definition]) other =
      { name := other
        definition? :=
          (Mention.firstDefinition? history other).or
            (if name = other then some definition else none) } := by
  rw [Symbol.recorded, Mention.firstDefinition?_concat]
  rfl

theorem define_recorded_of_undefined {name : String}
    (undefined : Mention.firstDefinition? history name = none)
    (definition : α) :
    (recorded history).define name definition =
      .ok (recorded (history ++ [.define name definition])) := by
  rw [define, find?_recorded]
  by_cases known : name ∈ Mention.firstNames history
  · have assigned :
        (recorded history).assign name definition =
          recorded (history ++ [.define name definition]) := by
      rw [assign, recorded, recorded, Mention.firstNames_concat_of_mem known,
        List.map_map]
      congr 1
      apply List.map_congr_left
      intro other _
      rw [Function.comp_apply, recorded_concat_define]
      by_cases same : other = name
      · subst same
        simp [Symbol.recorded, undefined]
      · have different : ¬ name = other := fun equal => same equal.symm
        simp [Symbol.recorded, same, different]
    simp only [if_pos known, Symbol.recorded, undefined, assigned]
  · have pushed :
        (recorded history).push (Symbol.mk name (some definition)) =
          recorded (history ++ [.define name definition]) := by
      rw [push, recorded, recorded,
        Mention.firstNames_concat_of_not_mem known, List.map_append]
      congr 2
      · apply List.map_congr_left
        intro other member
        have different : ¬ name = other := fun equal => known (equal ▸ member)
        rw [recorded_concat_define, if_neg different, Option.or_none]
        rfl
      · simp [recorded_concat_define, undefined, Mention.name]
    simp only [if_neg known, pushed]

theorem define_recorded_of_defined {name : String} {earlier : α}
    (defined : Mention.firstDefinition? history name = some earlier)
    (definition : α) :
    (recorded history).define name definition = .error { name := name } ∧
      recorded (history ++ [.define name definition]) = recorded history := by
  have known : name ∈ Mention.firstNames history := by
    by_contra unknown
    rw [Mention.firstDefinition?_of_not_mem unknown] at defined
    cases defined
  constructor
  · rw [define, find?_recorded, if_pos known]
    simp only [Symbol.recorded, defined]
  · rw [recorded, recorded, Mention.firstNames_concat_of_mem known]
    congr 1
    apply List.map_congr_left
    intro other _
    rw [recorded_concat_define]
    by_cases same : name = other
    · subst same
      simp [Symbol.recorded, defined]
    · simp [Symbol.recorded, same]

/-- A definition is refused exactly when the history has one of the name. -/
theorem define_recorded_eq_error_iff (name : String) (definition : α)
    (redefinition : Redefinition) :
    (recorded history).define name definition = .error redefinition ↔
      redefinition.name = name ∧
        ∃ earlier, .define name earlier ∈ history := by
  rw [← Mention.isSome_firstDefinition?_iff]
  cases earlier : Mention.firstDefinition? history name with
  | none =>
      rw [define_recorded_of_undefined history earlier]
      simp
  | some given =>
      obtain ⟨refuses, _⟩ :=
        define_recorded_of_defined history earlier definition
      obtain ⟨refusedName⟩ := redefinition
      rw [refuses]
      simp [eq_comm]

end Table

namespace Table

private theorem assign_of_find?_eq_none {table : Table α} {name : String}
    (unknown : table.find? name = none) (definition : α) :
    table.assign name definition = table := by
  have others (symbol : Symbol α) (member : symbol ∈ table.symbols) :
      ¬ symbol.name = name := by
    simpa using List.find?_eq_none.mp unknown symbol member
  rw [assign, List.map_congr_left fun symbol member =>
    if_neg (others symbol member), List.map_id']

/-- A definition can be made in place: the name is made known, its symbol is
looked at, and a symbol without a definition gets one. -/
theorem define_eq_declare (table : Table α) (name : String)
    (definition : α) :
    table.define name definition =
      if ((table.declare name).find? name).any Symbol.isDefined then
        .error { name := name }
      else
        .ok ((table.declare name).assign name definition) := by
  rw [find?_declare, define, declare]
  cases found : table.find? name with
  | none =>
      have others := assign_of_find?_eq_none found definition
      simp only [assign] at others
      simp [Symbol.isDefined, assign, push, Table.mk.inj others]
  | some symbol =>
      cases defined : symbol.definition? with
      | none => simp [Symbol.isDefined, defined]
      | some earlier => simp [Symbol.isDefined, defined]

private theorem declare_of_define_eq_error {table : Table α} {name : String}
    {definition : α} {redefinition : Redefinition}
    (refused : table.define name definition = .error redefinition) :
    table.declare name = table := by
  obtain ⟨_, earlier, found⟩ := (define_eq_error_iff _ _ _ _).mp refused
  rw [declare, found]

end Table

end Recorded

/-! ### Scopes -/

namespace Scope

variable {α : Type}

def opened : Option (Scope α) → Scope α
  | none => topLevel
  | some parent => parent.nest

def answer (scope : Scope α) : Mention α → Except Redefinition (Scope α)
  | .declare name => .ok (scope.declare name)
  | .define name definition => scope.define name definition

def after (scope : Scope α) (mention : Mention α) : Scope α :=
  match scope.answer mention with
  | .ok next => next
  | .error _ => scope

def afterAll (scope : Scope α) (history : List (Mention α)) : Scope α :=
  history.foldl after scope

def recorded (history : List (Mention α)) (outer : List (Table α)) :
    Scope α :=
  { table := .recorded history
    outer := outer }

theorem after_recorded (history : List (Mention α)) (outer : List (Table α))
    (mention : Mention α) :
    (recorded history outer).after mention =
      recorded (history ++ [mention]) outer := by
  cases mention with
  | declare name =>
      simp only [after, answer, declare, recorded, Table.declare_recorded]
  | define name definition =>
      cases earlier : Mention.firstDefinition? history name with
      | none =>
          have defines :=
            Table.define_recorded_of_undefined history earlier definition
          simp only [after, answer, define, recorded, defines, Except.map]
      | some given =>
          obtain ⟨refuses, unchanged⟩ :=
            Table.define_recorded_of_defined history earlier definition
          simp only [after, answer, define, recorded, refuses, Except.map,
            unchanged]

private theorem afterAll_recorded (earlier history : List (Mention α))
    (outer : List (Table α)) :
    (recorded earlier outer).afterAll history =
      recorded (earlier ++ history) outer := by
  unfold afterAll
  induction history generalizing earlier with
  | nil => rw [List.append_nil, List.foldl_nil]
  | cons mention rest ih =>
      rw [List.foldl_cons, after_recorded, ih, List.append_assoc,
        List.singleton_append]

theorem define_eq_error_iff (scope : Scope α) (name : String)
    (definition : α) (redefinition : Redefinition) :
    scope.define name definition = .error redefinition ↔
      scope.table.define name definition = .error redefinition := by
  rw [define]
  cases scope.table.define name definition with
  | error refused => simp [Except.map]
  | ok table => simp [Except.map]

private theorem unchanged_of_define_eq_error {scope : Scope α} {name : String}
    {definition : α} {redefinition : Redefinition}
    (refused : scope.define name definition = .error redefinition) :
    scope.declare name = scope ∧
      scope.after (.define name definition) = scope := by
  constructor
  · rw [declare,
      Table.declare_of_define_eq_error
        ((define_eq_error_iff _ _ _ _).mp refused)]
  · rw [after, answer, refused]

theorem define_eq_declare (scope : Scope α) (name : String)
    (definition : α) :
    scope.define name definition =
      if ((scope.declare name).findLocal? name).any Symbol.isDefined then
        .error { name := name }
      else
        .ok
          { scope with
            table := (scope.declare name).table.assign name definition } := by
  rw [define, Table.define_eq_declare, findLocal?, declare]
  cases ((scope.table.declare name).find? name).any Symbol.isDefined <;> rfl

private theorem symbols_declare_recorded (history : List (Mention α))
    (outer : List (Table α)) (name : String) :
    ((recorded history outer).declare name).symbols =
      (recorded history outer).symbols ++
        if name ∈ Mention.firstNames history then
          []
        else
          [{ name := name
             definition? := none }] := by
  simp only [symbols, declare, recorded, Table.declare, Table.find?_recorded]
  by_cases known : name ∈ Mention.firstNames history
  · simp only [if_pos known, List.append_nil]
  · simp only [if_neg known, Table.push]

/-- What the calls on a scope say about its table, and about the next call.  A
definition may be made in place: the name is declared, and its symbol is looked
at afterwards.  Where the definition is then refused, the declaration has not
changed anything. -/
structure Follows (scope : Scope α) (history : List (Mention α)) : Prop where
  names :
    scope.symbols.map Symbol.name = Mention.firstNames history
  distinct : (scope.symbols.map Symbol.name).Nodup
  length :
    scope.symbols.length = (history.map Mention.name).toFinset.card
  found :
    ∀ symbol ∈ scope.symbols, scope.findLocal? symbol.name = some symbol
  definition :
    ∀ symbol ∈ scope.symbols,
      symbol.definition? = Mention.firstDefinition? history symbol.name
  defined :
    ∀ symbol ∈ scope.symbols,
      symbol.isDefined = true ↔
        ∃ definition, .define symbol.name definition ∈ history
  inPlace :
    ∀ name definition,
      scope.define name definition =
        if ((scope.declare name).findLocal? name).any Symbol.isDefined then
          .error { name := name }
        else
          .ok
            { scope with
              table := (scope.declare name).table.assign name definition }
  refused :
    ∀ name definition redefinition,
      scope.define name definition = .error redefinition ↔
        redefinition.name = name ∧
          ∃ earlier, .define name earlier ∈ history
  unchanged :
    ∀ name definition redefinition,
      scope.define name definition = .error redefinition →
        scope.declare name = scope ∧
          scope.after (.define name definition) = scope
  declared :
    ∀ name,
      (scope.declare name).symbols =
        scope.symbols ++
          if name ∈ Mention.firstNames history then
            []
          else
            [{ name := name
               definition? := none }]

/-- Whatever is called on a new scope, its table follows from the calls, and the
scope around it stays as it was. -/
theorem follows_of_calls (parent? : Option (Scope α))
    (history : List (Mention α)) :
    ((opened parent?).afterAll history).Follows history ∧
      ((opened parent?).afterAll history).enclosing? = parent? := by
  obtain ⟨outer, isOpened, around⟩ :
      ∃ outer, opened parent? = recorded [] outer ∧
        (recorded history outer).enclosing? = parent? := by
    cases parent? with
    | none => exact ⟨[], rfl, rfl⟩
    | some parent => exact ⟨parent.table :: parent.outer, rfl, rfl⟩
  rw [isOpened, afterAll_recorded, List.nil_append]
  refine ⟨?_, around⟩
  have ownName (symbol : Symbol α)
      (member : symbol ∈ (recorded history outer).symbols) :=
    (Table.mem_symbols_recorded history).mp member
  refine
    { names := Table.map_name_recorded history
      distinct := ?_
      length := Table.length_recorded history
      found := ?_
      definition := ?_
      defined := ?_
      inPlace := define_eq_declare _
      refused := ?_
      unchanged := fun _ _ _ => unchanged_of_define_eq_error
      declared := symbols_declare_recorded history outer }
  · rw [symbols, recorded, Table.map_name_recorded]
    exact Mention.nodup_firstNames history
  · intro symbol member
    obtain ⟨known, same⟩ := ownName symbol member
    rw [findLocal?, recorded, Table.find?_recorded, if_pos known, ← same]
  · intro symbol member
    exact congrArg Symbol.definition? (ownName symbol member).2
  · intro symbol member
    rw [Symbol.isDefined, (ownName symbol member).2]
    exact Mention.isSome_firstDefinition?_iff
  · intro name definition redefinition
    rw [define_eq_error_iff]
    exact Table.define_recorded_eq_error_iff history name definition _

end Scope

end Asdl
