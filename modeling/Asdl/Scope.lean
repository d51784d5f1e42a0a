/-
Nested tables of names.

A table keeps its symbols in the order in which their names were first
mentioned, and a symbol is defined at most once.  A scope is a table inside
other tables: work in a scope touches its innermost table only, and a name is
looked up from the innermost table outwards.  A symbol that is mentioned and
not yet defined still hides the same name further out.
-/

namespace Asdl

/-- A name known to a table, with its definition once it has one. -/
structure Symbol (α : Type) where
  name : String
  definition? : Option α
deriving DecidableEq

def Symbol.isDefined {α : Type} (symbol : Symbol α) : Bool :=
  symbol.definition?.isSome

structure Redefinition where
  name : String
deriving DecidableEq

def Redefinition.message (redefinition : Redefinition) : String :=
  "duplicate definition of `" ++ redefinition.name ++ "`"

structure Table (α : Type) where
  symbols : List (Symbol α)
deriving DecidableEq

namespace Table

variable {α : Type}

def empty : Table α :=
  { symbols := [] }

def find? (table : Table α) (name : String) : Option (Symbol α) :=
  table.symbols.find? fun symbol => symbol.name == name

def push (table : Table α) (symbol : Symbol α) : Table α :=
  { symbols := table.symbols ++ [symbol] }

/-- Makes a name known without defining it.  A known name stays as it is. -/
def declare (table : Table α) (name : String) : Table α :=
  match table.find? name with
  | some _ => table
  | none =>
      table.push
        { name := name
          definition? := none }

def assign (table : Table α) (name : String) (definition : α) : Table α :=
  { symbols :=
      table.symbols.map fun symbol =>
        if symbol.name = name then
          { symbol with definition? := some definition }
        else
          symbol }

/-- Defines a name, making it known first if it is not. -/
def define (table : Table α) (name : String) (definition : α) :
    Except Redefinition (Table α) :=
  match table.find? name with
  | none =>
      .ok
        (table.push
          { name := name
            definition? := some definition })
  | some symbol =>
      match symbol.definition? with
      | none => .ok (table.assign name definition)
      | some _ => .error { name := name }

theorem name_of_find? {table : Table α} {name : String} {symbol : Symbol α}
    (found : table.find? name = some symbol) : symbol.name = name := by
  simpa using List.find?_some found

theorem find?_push (table : Table α) (symbol : Symbol α) (name : String) :
    (table.push symbol).find? name =
      (table.find? name).or
        (if symbol.name = name then some symbol else none) := by
  simp [push, find?, List.find?_append, List.find?_singleton]

theorem find?_declare (table : Table α) (name other : String) :
    (table.declare name).find? other =
      (table.find? other).or
        (if name = other then
          some
            { name := name
              definition? := none }
        else
          none) := by
  unfold declare
  split
  · rename_i symbol found
    by_cases same : name = other
    · subst same
      simp [found]
    · simp [same]
  · rw [find?_push]

theorem define_eq_error_iff (table : Table α) (name : String)
    (definition : α) (redefinition : Redefinition) :
    table.define name definition = .error redefinition ↔
      redefinition.name = name ∧
        ∃ earlier,
          table.find? name =
            some
              { name := name
                definition? := some earlier } := by
  obtain ⟨refused⟩ := redefinition
  unfold define
  split
  · rename_i unknown
    simp [unknown]
  · rename_i symbol found
    have named := name_of_find? found
    obtain ⟨symbolName, definition?⟩ := symbol
    simp only at named
    subst named
    cases definition? with
    | none =>
        simp [found]
    | some earlier =>
        simp [found, eq_comm]

end Table

/-! ### Scopes -/

/-- A table and the tables around it, the nearest first. -/
structure Scope (α : Type) where
  table : Table α
  outer : List (Table α)
deriving DecidableEq

namespace Scope

variable {α : Type}

def topLevel : Scope α :=
  { table := .empty
    outer := [] }

/-- An empty scope inside another one. -/
def nest (parent : Scope α) : Scope α :=
  { table := .empty
    outer := parent.table :: parent.outer }

def enclosing? (scope : Scope α) : Option (Scope α) :=
  match scope.outer with
  | [] => none
  | table :: outer =>
      some
        { table := table
          outer := outer }

/-- The scope to go on in when this one is left.  Leaving the outermost scope
starts afresh. -/
def leave (scope : Scope α) : Scope α :=
  scope.enclosing?.getD topLevel

def symbols (scope : Scope α) : List (Symbol α) :=
  scope.table.symbols

def declare (scope : Scope α) (name : String) : Scope α :=
  { scope with table := scope.table.declare name }

def define (scope : Scope α) (name : String) (definition : α) :
    Except Redefinition (Scope α) :=
  (scope.table.define name definition).map fun table =>
    { scope with table := table }

def findLocal? (scope : Scope α) (name : String) : Option (Symbol α) :=
  scope.table.find? name

/-- The symbol of a name in the nearest table that knows the name. -/
def resolve? (scope : Scope α) (name : String) : Option (Symbol α) :=
  (scope.table :: scope.outer).findSome? fun table => table.find? name

def definition? (scope : Scope α) (name : String) : Option α :=
  (scope.resolve? name).bind Symbol.definition?

end Scope

end Asdl
