/-
A name and its copy in a session.

A session works on a current name and a saved copy: it asks for renderings of
the current name, saves a new copy and swaps the two.  What each name is rendered
as follows from what was asked of it, or of the name it is a copy of, before the
copy was taken.  Looking back from the end of the session says where a name
stood at each earlier point, so the rule needs no state: the first rendering
that was asked for on the way is the one that is kept.
-/

import Asdl.Name

namespace Asdl.Name

inductive Action where
  | set (rendering : String)
  | save
  | swap
deriving DecidableEq

inductive Side where
  | current
  | saved
deriving DecidableEq

namespace Copied

def name (names : Copied) : Side → Name
  | .current => names.current
  | .saved => names.saved

/-- The names behind an action.  A rendering that is refused changes nothing. -/
def after (names : Copied) : Action → Copied
  | .set rendering =>
      match names.render rendering with
      | .ok changed => changed
      | .error _ => names
  | .save => names.save
  | .swap => names.swap

def afterAll (names : Copied) (actions : List Action) : Copied :=
  actions.foldl after names

end Copied

def opened (isFixed : Bool) (declared : String) : Name :=
  if isFixed then fixed declared else fresh declared

/-! ### Looking back -/

def Action.asks : Action → Side → List String
  | set rendering, .current => [rendering]
  | set _, .saved => []
  | save, _ => []
  | swap, _ => []

namespace Side

/-- Where the name on a side stood before an action, or the name that it is a
copy of. -/
def before : Action → Side → Side
  | .set _, side => side
  | .save, _ => .current
  | .swap, .current => .saved
  | .swap, .saved => .current

/-- Where the name on a side stood before some actions. -/
def origin (actions : List Action) (side : Side) : Side :=
  actions.foldr before side

/-- The renderings that were asked for the name that is on a side in the end,
each wherever the name stood then. -/
def asked : List Action → Side → List String
  | [], _ => []
  | action :: later, side =>
      action.asks (side.origin later) ++ asked later side

/-- Some rendering was asked for the name that is on a side in the end. -/
def WasSet (actions : List Action) (side : Side) : Prop :=
  ∃ earlier rendering later,
    actions = earlier ++ .set rendering :: later ∧
      side.origin later = .current

private theorem wasSet_cons (action : Action) (later : List Action)
    (side : Side) :
    side.WasSet (action :: later) ↔
      action.asks (side.origin later) ≠ [] ∨ side.WasSet later := by
  constructor
  · rintro ⟨earlier, rendering, rest, split, atCurrent⟩
    cases earlier with
    | nil =>
        obtain ⟨rfl, rfl⟩ := List.cons.inj split
        left
        rw [atCurrent]
        exact List.cons_ne_nil _ _
    | cons first others =>
        obtain ⟨_, split⟩ := List.cons.inj split
        exact .inr ⟨others, rendering, rest, split, atCurrent⟩
  · rintro (asks | ⟨earlier, rendering, rest, rfl, atCurrent⟩)
    · cases action with
      | set rendering =>
          cases stood : side.origin later with
          | current => exact ⟨[], rendering, later, rfl, stood⟩
          | saved =>
              rw [stood] at asks
              exact absurd rfl asks
      | save => exact absurd rfl asks
      | swap => exact absurd rfl asks
    · exact ⟨action :: earlier, rendering, rest, rfl, atCurrent⟩

private theorem asked_eq_nil_iff (actions : List Action) (side : Side) :
    side.asked actions = [] ↔ ¬ side.WasSet actions := by
  induction actions with
  | nil =>
      refine iff_of_true rfl ?_
      rintro ⟨earlier, rendering, later, split, _⟩
      simp at split
  | cons action later ih =>
      rw [asked, List.append_eq_nil_iff, ih, wasSet_cons, not_or,
        Decidable.not_not]

end Side

def offered (name : Name) (renderings : List String) : Name :=
  { declared := name.declared
    rendering? := name.rendering?.or renderings.head? }

theorem offered_nil (name : Name) : name.offered [] = name := by
  rw [offered, List.head?_nil, Option.or_none]

private theorem offered_append (name : Name) (renderings others : List String) :
    name.offered (renderings ++ others) =
      (name.offered renderings).offered others := by
  rw [offered, offered, offered, List.head?_append, Option.or_assoc]

namespace Copied

private theorem after_set (names : Copied) (rendering : String) :
    names.after (.set rendering) =
      { names with current := names.current.offered [rendering] } := by
  obtain ⟨⟨declared, rendering?⟩, saved⟩ := names
  cases rendering? with
  | none => rfl
  | some earlier => rfl

private theorem name_after (names : Copied) (action : Action) (side : Side) :
    (names.after action).name side =
      (names.name (side.before action)).offered (action.asks side) := by
  cases action with
  | set rendering =>
      rw [after_set]
      cases side with
      | current => rfl
      | saved => exact (offered_nil _).symm
  | save =>
      cases side with
      | current => exact (offered_nil _).symm
      | saved => exact (offered_nil _).symm
  | swap =>
      cases side with
      | current => exact (offered_nil _).symm
      | saved => exact (offered_nil _).symm

/-- Any number of actions: each name is the one that stood where it comes from,
with all that was asked on the way. -/
theorem name_afterAll (names : Copied) (actions : List Action) (side : Side) :
    (names.afterAll actions).name side =
      (names.name (side.origin actions)).offered (side.asked actions) := by
  induction actions generalizing names with
  | nil => exact (offered_nil _).symm
  | cons action later ih =>
      have goesOn := ih (names.after action)
      rw [names.name_after] at goesOn
      rw [Side.asked, offered_append]
      exact goesOn

private theorem name_session (name : Name) (history : List Action)
    (side : Side) :
    ((ofName name).afterAll history).name side =
      name.offered (side.asked history) := by
  have copied : (ofName name).name (side.origin history) = name := by
    cases side.origin history with
    | current => rfl
    | saved => rfl
  rw [name_afterAll, copied]

theorem render_eq_ok_iff (names changed : Copied) (rendering : String) :
    names.render rendering = .ok changed ↔
      names.current.rendering? = none ∧
        changed =
          { current :=
              { declared := names.current.declared
                rendering? := some rendering }
            saved := names.saved } := by
  rw [render]
  constructor
  · intro accepted
    cases outcome : names.current.render rendering with
    | error refused =>
        rw [outcome] at accepted
        cases accepted
    | ok current =>
        obtain ⟨unset, rfl⟩ := (Name.render_eq_ok_iff _ _ _).mp outcome
        rw [outcome] at accepted
        cases accepted
        exact ⟨unset, rfl⟩
  · rintro ⟨unset, rfl⟩
    rw [(Name.render_eq_ok_iff _ _ _).mpr ⟨unset, rfl⟩]
    rfl

theorem render_eq_error_iff (names : Copied) (rendering : String)
    (fault : NameFault) :
    names.render rendering = .error fault ↔
      names.current.render rendering = .error fault := by
  rw [render]
  cases names.current.render rendering with
  | error refused => simp [Except.map]
  | ok changed => simp [Except.map]

end Copied

/-- What holds of the two names behind a history of actions, and of the next
rendering that is asked for.  A fixed name counts as set from the start. -/
structure Copied.WritesOnce (declared : String) (isFixed : Bool)
    (history : List Action) (names : Copied) : Prop where
  sameDeclared : ∀ side, (names.name side).declared = declared
  shown : ∀ side, (names.name side).text = (names.name side).rendering
  firstAsked :
    ∀ side,
      (names.name side).rendering =
        (if isFixed then [] else side.asked history).headD declared
  accepted :
    ∀ rendering,
      (∃ changed, names.render rendering = .ok changed) ↔
        isFixed = false ∧ ¬ Side.current.WasSet history
  changed :
    ∀ rendering changed, names.render rendering = .ok changed →
      names.after (.set rendering) = changed ∧
        changed.current.rendering = rendering ∧
        changed.current.declared = names.current.declared ∧
        changed.saved = names.saved
  refused :
    ∀ rendering fault, names.render rendering = .error fault →
      names.after (.set rendering) = names ∧
        fault = .alreadySet declared names.current.rendering

private theorem rendering_opened_offered (declared : String) (isFixed : Bool)
    (renderings : List String) :
    ((opened isFixed declared).offered renderings).rendering =
      (if isFixed then [] else renderings).headD declared := by
  cases isFixed with
  | true => rfl
  | false =>
      cases renderings with
      | nil => rfl
      | cons first others => rfl

private theorem rendering?_opened_offered_eq_none_iff (declared : String)
    (isFixed : Bool) (renderings : List String) :
    ((opened isFixed declared).offered renderings).rendering? = none ↔
      isFixed = false ∧ renderings = [] := by
  cases isFixed with
  | true => simp [opened, fixed, offered]
  | false => simp [opened, fresh, offered]

/-- Whatever is done in a session on a name and its copy, each of them is set at
most once, and setting one leaves the other alone. -/
theorem writesOnce_of_session (declared : String) (isFixed : Bool)
    (history : List Action) :
    Copied.WritesOnce declared isFixed history
      ((Copied.ofName (opened isFixed declared)).afterAll history) := by
  have named (side : Side) :=
    Copied.name_session (opened isFixed declared) history side
  generalize
    (Copied.ofName (opened isFixed declared)).afterAll history = names
    at named ⊢
  have sameDeclared (side : Side) : (names.name side).declared = declared := by
    rw [named side]
    cases isFixed with
    | true => rfl
    | false => rfl
  have isCurrent :
      names.current =
        (opened isFixed declared).offered (Side.current.asked history) :=
    named .current
  refine
    { sameDeclared := sameDeclared
      shown := fun _ => rfl
      firstAsked := ?_
      accepted := ?_
      changed := ?_
      refused := ?_ }
  · intro side
    rw [named side, rendering_opened_offered]
  · intro rendering
    rw [← Side.asked_eq_nil_iff,
      ← rendering?_opened_offered_eq_none_iff declared, ← isCurrent]
    simp [Copied.render_eq_ok_iff]
  · intro rendering changed accepted
    obtain ⟨_, rfl⟩ := (Copied.render_eq_ok_iff _ _ _).mp accepted
    refine ⟨?_, rfl, rfl, rfl⟩
    rw [Copied.after, accepted]
  · intro rendering fault refused
    have current := (Copied.render_eq_error_iff _ _ _).mp refused
    obtain ⟨_, rfl⟩ := (render_eq_error_iff _ _ _).mp current
    refine ⟨?_, ?_⟩
    · rw [Copied.after, refused]
    · rw [← sameDeclared .current]
      rfl

end Asdl.Name
