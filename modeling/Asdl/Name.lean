/-
Names and their spelling in generated code.

A name is declared once and rendered as declared until another spelling is set
for it, which can happen once.  A fixed name counts as set to its own spelling.
-/

namespace Asdl

/-- A declared name and the spelling set for generated code, if any. -/
structure Name where
  declared : String
  rendering? : Option String
deriving DecidableEq

inductive NameFault where
  | alreadySet (declared rendering : String)
deriving DecidableEq

def NameFault.message : NameFault → String
  | alreadySet declared rendering =>
      "rendering name for `" ++ declared ++ "` is already `" ++ rendering ++ "`"

namespace Name

def fresh (declared : String) : Name :=
  { declared := declared
    rendering? := none }

/-- A name that is always rendered as declared. -/
def fixed (declared : String) : Name :=
  { declared := declared
    rendering? := some declared }

def rendering (name : Name) : String :=
  name.rendering?.getD name.declared

def text (name : Name) : String :=
  name.rendering

/-- Sets the spelling used in generated code, unless one is set. -/
def render (name : Name) (rendering : String) : Except NameFault Name :=
  match name.rendering? with
  | none => .ok { name with rendering? := some rendering }
  | some earlier => .error (.alreadySet name.declared earlier)

theorem render_eq_ok_iff (name after : Name) (rendering : String) :
    name.render rendering = .ok after ↔
      name.rendering? = none ∧
        after =
          { declared := name.declared
            rendering? := some rendering } := by
  unfold render
  split
  · rename_i unset
    simp [unset, eq_comm]
  · rename_i earlier set
    simp [set]

theorem render_eq_error_iff (name : Name) (rendering : String)
    (fault : NameFault) :
    name.render rendering = .error fault ↔
      name.rendering? ≠ none ∧
        fault = .alreadySet name.declared name.rendering := by
  unfold render
  split
  · rename_i unset
    simp [unset]
  · rename_i earlier set
    simp [Name.rendering, set, eq_comm]

/-- A name and a copy taken of it. -/
structure Copied where
  current : Name
  saved : Name
deriving DecidableEq

namespace Copied

def ofName (name : Name) : Copied :=
  { current := name
    saved := name }

def render (names : Copied) (rendering : String) : Except NameFault Copied :=
  (names.current.render rendering).map fun current =>
    { names with current := current }

def save (names : Copied) : Copied :=
  { names with saved := names.current }

def swap (names : Copied) : Copied :=
  { current := names.saved
    saved := names.current }

end Copied

end Name

end Asdl
