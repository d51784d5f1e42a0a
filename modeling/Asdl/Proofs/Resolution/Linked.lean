/-
What the second pass makes of one definition.

Linking replaces the name of every type by the identity that a lookup gives for
it and changes nothing else.  The second pass links: slots that were made for a
list take its items one by one, so no slot is left over and none of the checks
on the way can fail.  The lookup is arbitrary here; which one the first pass
prepares does not matter.  Nor does the handler: it is told what is wrong and
never asked.
-/

import Asdl.Proofs.Resolution.Numbering
import Asdl.Resolution

namespace Asdl

open Resolved (DefinitionId)

section Linked

variable (lookup? : String → Option DefinitionId)

def Field.linked (field : Field) : Resolved.Field :=
  { type := (lookup? field.typeName).getD Resolved.Builtin.unresolved
    cardinality := field.cardinality
    name? := field.name?.map Name.fresh }

def Constructor.linked (owner : DefinitionId) (constructor : Constructor) :
    Resolved.Constructor :=
  { name := .fresh constructor.name
    owner := owner
    members := .full (constructor.members.map (Field.linked lookup?)) }

def Body.linked (owner : DefinitionId) : Body → Resolved.Body
  | sum constructors =>
      .sum (.full (constructors.map (Constructor.linked lookup? owner)))
  | product members =>
      .product (.full (members.map (Field.linked lookup?)))

def Definition.linked (index : Nat) (definition : Definition) :
    Resolved.Definition :=
  { name := .fresh definition.name
    module := .user
    attributes := .full (definition.attributes.map (Field.linked lookup?))
    body := definition.body.linked lookup? (.user index) }

def Field.faults (definition : String) (field : Field) :
    List SemanticFault :=
  match lookup? field.typeName with
  | some _ => []
  | none => [.undefinedType definition field.typeName field.span]

/-- The report for a constructor behind some earlier ones of its sum, if one of
them has its name.  It points back to the first of them. -/
def Constructor.repeatedFaults (sum : String) (earlier : List Constructor)
    (constructor : Constructor) : List SemanticFault :=
  match earlier.find? fun other => other.name == constructor.name with
  | some first =>
      [.duplicateConstructor sum constructor.name constructor.span first.span]
  | none => []

def Constructor.listFaults (sum : String) :
    List Constructor → List Constructor → List SemanticFault
  | _, [] => []
  | earlier, constructor :: rest =>
      Constructor.repeatedFaults sum earlier constructor ++
        constructor.members.flatMap (Field.faults lookup? sum) ++
        listFaults sum (earlier ++ [constructor]) rest

def Body.faults (name : String) : Body → List SemanticFault
  | sum constructors => Constructor.listFaults lookup? name [] constructors
  | product members => members.flatMap (Field.faults lookup? name)

def Definition.faults (definition : Definition) : List SemanticFault :=
  definition.attributes.flatMap (Field.faults lookup? definition.name) ++
    definition.body.faults lookup? definition.name

theorem Definition.isComplete_linked (index : Nat) (definition : Definition) :
    (definition.linked lookup? index).isComplete = true := by
  have attributesComplete :=
    Resolved.Slots.isComplete_full
      (definition.attributes.map (Field.linked lookup?))
  obtain ⟨name, body, attributes, nameSpan, span⟩ := definition
  cases body with
  | sum constructors =>
      have membersComplete :
          (constructors.map (Constructor.linked lookup? (.user index))).all
            (fun constructor => constructor.members.isComplete) = true := by
        rw [List.all_map, List.all_eq_true]
        intro constructor member
        exact Resolved.Slots.isComplete_full _
      simp only [linked, Body.linked, Resolved.Definition.isComplete,
        attributesComplete, Resolved.Slots.isComplete_full, Bool.true_and]
      exact membersComplete
  | product members =>
      simp only [linked, Body.linked, Resolved.Definition.isComplete,
        attributesComplete, Resolved.Slots.isComplete_full, Bool.true_and]

end Linked

/-! ### Work that is not stopped

The second pass never looks at its handler, so all there is to say about a piece
of it is what it makes and what it reports. -/

namespace Reporting

variable {σ : Type} [FaultHandler σ] {α β : Type}

/-- Whatever the handler, the work makes the value, and the handler has taken
the faults in order. -/
def Completes (work : Reporting σ α) (value : α)
    (faults : List SemanticFault) : Prop :=
  ∀ handler : σ,
    work.run.run handler =
      (.ok value, FaultHandler.reportAll handler faults)

theorem completes_pure (value : α) :
    Completes (pure value : Reporting σ α) value [] :=
  fun _ => rfl

theorem completes_report (fault : SemanticFault) :
    Completes (Resolution.report fault : Reporting σ Unit) () [fault] :=
  fun _ => rfl

theorem Completes.bind {work : Reporting σ α} {next : α → Reporting σ β}
    {value : α} {result : β} {all faults others : List SemanticFault}
    (completes : Completes work value faults)
    (continues : Completes (next value) result others)
    (joined : all = faults ++ others) :
    Completes (work >>= next) result all := by
  intro handler
  have behind := continues (FaultHandler.reportAll handler faults)
  rw [ExceptT.run_bind, StateT.run_bind, completes handler, joined]
  simp only [FaultHandler.reportAll, List.foldl_append] at behind ⊢
  exact behind

end Reporting

namespace Resolution

open Reporting

variable {σ : Type} [FaultHandler σ] (scope : Scope DefinitionId)

private theorem completes_resolveField (definition : String) (field : Field) :
    Completes (resolveField scope definition field : Reporting σ _)
      (field.linked scope.definition?)
      (field.faults scope.definition? definition) := by
  unfold resolveField Field.linked Field.faults
  cases scope.definition? field.typeName with
  | none =>
      refine (completes_report _).bind ?_ rfl
      exact (completes_pure _).bind (completes_pure _) rfl
  | some id => exact (completes_pure id).bind (completes_pure _) rfl

theorem completes_checkSlots_vacant {α : Type} (definition slot : String)
    (wanted : Nat) :
    Completes
      (checkSlots definition slot (.vacant wanted : Resolved.Slots α) wanted :
        Reporting σ Unit) () [] := by
  rw [checkSlots, if_pos ⟨rfl, rfl⟩]
  exact completes_pure ()

theorem completes_fillSlot {α : Type} (definition slot : String)
    {slots : Resolved.Slots α} (item : α)
    (room : slots.filled < slots.capacity) :
    Completes (fillSlot definition slot slots item : Reporting σ _)
      (slots.push item room) [] := by
  rw [fillSlot, Resolved.Slots.fill_of_room item room]
  exact completes_pure _

private theorem completes_addField (definition slot : String)
    {slots : Resolved.Slots Resolved.Field} (field : Field)
    (room : slots.filled < slots.capacity) :
    Completes (addField scope definition slot slots field : Reporting σ _)
      (slots.push (field.linked scope.definition?) room)
      (field.faults scope.definition? definition) := by
  refine (completes_resolveField scope definition field).bind ?_
    (List.append_nil _).symm
  exact completes_fillSlot definition slot _ room

/-- Slots with room for exactly the fields that remain are full in the end. -/
theorem completes_foldlM_addField (definition slot : String)
    (slots : Resolved.Slots Resolved.Field) (fields : List Field)
    (room : slots.filled + fields.length = slots.capacity) :
    Completes
      (fields.foldlM (addField scope definition slot) slots : Reporting σ _)
      (.full (slots.items ++ fields.map (Field.linked scope.definition?)))
      (fields.flatMap (Field.faults scope.definition? definition)) := by
  induction fields generalizing slots with
  | nil =>
      have complete : slots.isComplete = true := by
        simpa [Resolved.Slots.isComplete] using room
      rw [List.map_nil, List.append_nil,
        ← Resolved.Slots.eq_full_of_isComplete complete]
      exact completes_pure slots
  | cons field rest ih =>
      have first : slots.filled < slots.capacity := by
        rw [List.length_cons] at room
        omega
      have others :=
        ih (slots.push (field.linked scope.definition?) first)
          (by
            rw [Resolved.Slots.filled_push, Nat.add_right_comm]
            exact room)
      simp only [Resolved.Slots.push, List.append_assoc,
        List.singleton_append] at others
      rw [List.foldlM_cons, List.map_cons]
      exact
        (completes_addField scope definition slot field first).bind others
          List.flatMap_cons

theorem completes_fillFields_vacant (definition slot : String)
    (fields : List Field) :
    Completes
      (fillFields scope definition slot (.vacant fields.length) fields :
        Reporting σ _)
      (.full (fields.map (Field.linked scope.definition?)))
      (fields.flatMap (Field.faults scope.definition? definition)) := by
  refine (completes_checkSlots_vacant definition slot _).bind ?_ rfl
  exact
    completes_foldlM_addField scope definition slot (.vacant fields.length)
      fields (Nat.zero_add _)

/-- The table has, for every name, the range of the first constructor that has
the name. -/
def HoldsFirst (seen : List (String × Span))
    (constructors : List Constructor) : Prop :=
  ∀ name,
    seen.lookup name =
      (constructors.find? fun constructor => constructor.name == name).map
        Constructor.span

private theorem completes_noteConstructor (sum : String)
    {seen : List (String × Span)} {earlier : List Constructor}
    (holds : HoldsFirst seen earlier) (constructor : Constructor) :
    ∃ after,
      Completes (noteConstructor sum seen constructor : Reporting σ _) after
          (Constructor.repeatedFaults sum earlier constructor) ∧
        HoldsFirst after (earlier ++ [constructor]) := by
  have here := holds constructor.name
  unfold noteConstructor Constructor.repeatedFaults
  cases found :
      earlier.find? fun other => other.name == constructor.name with
  | some first =>
      rw [found, Option.map_some] at here
      refine ⟨seen, ?_, ?_⟩
      · rw [here]
        exact (completes_report _).bind (completes_pure seen) rfl
      · intro name
        rw [holds, List.find?_append]
        by_cases same : constructor.name = name
        · rw [← same, found, Option.some_or]
        · simp [same]
  | none =>
      rw [found, Option.map_none] at here
      refine ⟨seen ++ [(constructor.name, constructor.span)], ?_, ?_⟩
      · rw [here]
        exact completes_pure _
      · intro name
        rw [List.lookup_append, holds, List.find?_append, Option.map_or]
        by_cases same : constructor.name = name
        · simp [same]
        · have other : (name == constructor.name) = false :=
            beq_eq_false_iff_ne.mpr (Ne.symm same)
          simp [same, other, List.lookup_cons]

private theorem completes_addConstructor (sum : String) (owner : DefinitionId)
    {progress : SumProgress} {earlier : List Constructor}
    (holds : HoldsFirst progress.seen earlier) (constructor : Constructor)
    (room : progress.slots.filled < progress.slots.capacity) :
    ∃ seen,
      Completes
          (addConstructor scope sum owner progress constructor :
            Reporting σ _)
          { seen := seen
            slots :=
              progress.slots.push
                (constructor.linked scope.definition? owner) room }
          (Constructor.repeatedFaults sum earlier constructor ++
            constructor.members.flatMap
              (Field.faults scope.definition? sum)) ∧
        HoldsFirst seen (earlier ++ [constructor]) := by
  obtain ⟨seen, notes, holdsAfter⟩ :=
    completes_noteConstructor (σ := σ) sum holds constructor
  refine ⟨seen, notes.bind ?_ rfl, holdsAfter⟩
  refine (completes_fillFields_vacant scope sum "member" _).bind ?_
    (List.append_nil _).symm
  exact (completes_fillSlot sum "constructor" _ room).bind
    (completes_pure _) rfl

/-- A repeated constructor is reported and resolved like any other, so the
constructors keep their places. -/
theorem completes_foldlM_addConstructor (sum : String) (owner : DefinitionId)
    (progress : SumProgress) (earlier constructors : List Constructor)
    (holds : HoldsFirst progress.seen earlier)
    (room :
      progress.slots.filled + constructors.length =
        progress.slots.capacity) :
    ∃ seen,
      Completes
          (constructors.foldlM (addConstructor scope sum owner) progress :
            Reporting σ _)
          { seen := seen
            slots :=
              .full
                (progress.slots.items ++
                  constructors.map
                    (Constructor.linked scope.definition? owner)) }
          (Constructor.listFaults scope.definition? sum earlier
            constructors) ∧
        HoldsFirst seen (earlier ++ constructors) := by
  induction constructors generalizing progress earlier with
  | nil =>
      have complete : progress.slots.isComplete = true := by
        simpa [Resolved.Slots.isComplete] using room
      refine ⟨progress.seen, ?_, by rwa [List.append_nil]⟩
      rw [List.map_nil, List.append_nil,
        ← Resolved.Slots.eq_full_of_isComplete complete]
      exact completes_pure progress
  | cons constructor rest ih =>
      have first : progress.slots.filled < progress.slots.capacity := by
        rw [List.length_cons] at room
        omega
      obtain ⟨seen, adds, holdsAfter⟩ :=
        completes_addConstructor (σ := σ) scope sum owner holds constructor
          first
      obtain ⟨seenLast, continues, holdsLast⟩ :=
        ih
          { seen := seen
            slots :=
              progress.slots.push
                (constructor.linked scope.definition? owner) first }
          (earlier ++ [constructor]) holdsAfter
          (by
            rw [Resolved.Slots.filled_push, Nat.add_right_comm]
            exact room)
      simp only [Resolved.Slots.push, List.append_assoc,
        List.singleton_append] at continues holdsLast
      refine ⟨seenLast, ?_, holdsLast⟩
      rw [List.foldlM_cons, List.map_cons]
      exact adds.bind continues rfl

private theorem completes_fillBody_skeleton (id : DefinitionId)
    (source : Definition) :
    Completes
      (fillBody scope source.name id source.body (skeleton source).body :
        Reporting σ _)
      (source.body.linked scope.definition? id)
      (source.body.faults scope.definition? source.name) := by
  obtain ⟨name, body, attributes, nameSpan, span⟩ := source
  cases body with
  | sum constructors =>
      obtain ⟨seen, resolves, _⟩ :=
        completes_foldlM_addConstructor (σ := σ) scope name id
          { seen := []
            slots := .vacant constructors.length } [] constructors
          (fun _ => rfl) (Nat.zero_add _)
      refine (completes_checkSlots_vacant name "constructor" _).bind ?_ rfl
      exact resolves.bind (completes_pure _) (List.append_nil _).symm
  | product members =>
      have filled :=
        completes_fillFields_vacant (σ := σ) scope name "member" members
      exact filled.bind (completes_pure _) (List.append_nil _).symm

private theorem attributes_skeleton (source : Definition) :
    (skeleton source).attributes = .vacant source.attributes.length := by
  unfold skeleton
  cases source.body with
  | sum constructors => rfl
  | product members => rfl

private theorem isSum_skeleton (source : Definition) :
    (skeleton source).isSum = source.isSum := by
  unfold skeleton Definition.isSum
  cases source.body with
  | sum constructors => rfl
  | product members => rfl

theorem completes_fillDefinition_skeleton (index : Nat)
    (source : Definition) :
    Completes
      (fillDefinition scope
        { id := .user index
          source := source } (skeleton source) : Reporting σ _)
      (source.linked scope.definition? index)
      (source.faults scope.definition?) := by
  have linked :
      ({ skeleton source with
          attributes :=
            .full (source.attributes.map (Field.linked scope.definition?))
          body := source.body.linked scope.definition? (.user index) } :
          Resolved.Definition) =
        source.linked scope.definition? index := by
    unfold skeleton Definition.linked
    cases source.body with
    | sum constructors => rfl
    | product members => rfl
  have complete :=
    Definition.isComplete_linked scope.definition? index source
  have attributes :=
    completes_fillFields_vacant (σ := σ) scope source.name "attribute"
      source.attributes
  have body :=
    completes_fillBody_skeleton (σ := σ) scope (.user index) source
  unfold fillDefinition
  simp only [isSum_skeleton, ne_eq, not_true_eq_false, if_false,
    attributes_skeleton]
  refine attributes.bind (body.bind ?_ (List.append_nil _).symm) rfl
  rw [linked, if_pos complete]
  exact completes_pure _

end Resolution

end Asdl
