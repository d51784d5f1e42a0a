/-
What the reports about a source point at.

A report begins at its first label, and every label is a slice of the source.
A syntax error is labelled at the character or the token that is at fault.  A
repeated name is labelled twice, red where it is repeated and blue at the
earlier place, and both labels show the name; an undefined type is labelled at
the field that mentions it.
-/

import Asdl.Proofs.Concrete.Refusal
import Asdl.Proofs.Module.Standing
import Asdl.Proofs.Resolution.Repetition
import Asdl.Proofs.Token.Recovery
import Asdl.Report

namespace Asdl

private theorem Span.selects_ofList {source : String}
    {front text behind : List Char}
    {span : Span} (split : source.toList = front ++ (text ++ behind))
    (starts : span.start = byteSize front)
    (stops : span.stop = span.start + byteSize text) :
    span.Selects source (String.ofList text) := by
  refine ⟨String.ofList front, String.ofList behind, ?_, ?_, ?_⟩
  · rw [← String.toList_inj, split]
    simp
  · rw [starts, utf8ByteSize_ofList]
  · rw [stops, starts, ← String.ofList_append, utf8ByteSize_ofList,
      byteSize_append]

private theorem Cursor.exists_split_of_tokenize_error {cursor : Cursor}
    {error : LexicalError} (uncut : cursor.tokenize = .error error) :
    ∃ front text behind,
      cursor.rest = front ++ (text ++ behind) ∧
        error.span.start = cursor.offset + byteSize front ∧
        error.span.stop = error.span.start + byteSize text := by
  fun_induction tokenize cursor with
  | case1 => cases uncut
  | case2 cursor found after met =>
      cases uncut
      obtain ⟨gap, text, passes⟩ := (Reads.fault met).exists_passes
      exact ⟨gap, text, after.rest, passes.split, passes.starts, passes.stops⟩
  | case3 cursor lexeme after met ih =>
      cases remaining : after.tokenize with
      | ok others =>
          rw [remaining] at uncut
          cases uncut
      | error found =>
          rw [remaining] at uncut
          cases uncut
          obtain ⟨gap, text, passes⟩ := (Reads.lexeme met).exists_passes
          obtain ⟨front, own, behind, split, starts, stops⟩ := ih remaining
          refine ⟨gap ++ (text ++ front), own, behind, ?_, ?_, stops⟩
          · rw [passes.split, split]
            simp only [List.append_assoc]
          · have stop := passes.stops
            have start := passes.starts
            rw [starts, passes.behind, byteSize_append, byteSize_append]
            omega

private theorem exists_selects_of_tokenize_error {source : String}
    {error : LexicalError} (uncut : tokenize source = .error error) :
    ∃ text, error.span.Selects source text := by
  obtain ⟨front, text, behind, split, starts, stops⟩ :=
    Cursor.exists_split_of_tokenize_error uncut
  simp only [Cursor.ofSource, Nat.zero_add] at split starts
  exact ⟨_, Span.selects_ofList split starts stops⟩

/-- The end of the input is an empty slice of the source. -/
theorem exists_selects_of_mem_toList {source : String}
    {tokenization : Tokenization}
    (tokenized : tokenize source = .ok tokenization) {lexeme : Lexeme}
    (member : lexeme ∈ tokenization.toList) :
    ∃ text, lexeme.span.Selects source text := by
  rcases List.mem_append.mp member with isOwn | isEnd
  · obtain ⟨front, behind, split⟩ := List.append_of_mem isOwn
    have alone : [lexeme] <:+: tokenization.lexemes := by
      rw [split]
      exact ⟨front, behind, by simp⟩
    obtain ⟨text, _, selects, _⟩ :=
      exists_slice tokenized alone (Span.Marks.singleton lexeme)
    exact ⟨text, selects⟩
  · obtain ⟨_, atEnd⟩ := (Cursor.tokenize_eq_ok_iff _ _).mp tokenized
    simp only [Cursor.ofSource, Nat.zero_add, byteSize_toList] at atEnd
    rw [List.mem_singleton.mp isEnd, atEnd]
    exact ⟨"", source, "", by simp, rfl, by simp; rfl⟩

private theorem Module.exists_selects_of_parse_error {source : String}
    {error : SyntaxError} (refused : Module.parse source = .error error) :
    ∃ text, error.span.Selects source text := by
  have treeRefused : Concrete.Module.parse source = .error error := by
    rw [Module.parse] at refused
    cases read : Concrete.Module.parse source with
    | ok tree =>
        rw [read] at refused
        cases refused
    | error found =>
        rw [read] at refused
        cases refused
        rfl
  cases cut : tokenize source with
  | error found =>
      rw [Concrete.Module.parse_of_tokenize_error cut] at treeRefused
      cases treeRefused
      exact exists_selects_of_tokenize_error cut
  | ok tokenization =>
      obtain ⟨front, stuck, reached, stops, rfl⟩ :=
        Concrete.Module.exists_stops_of_parse cut treeRefused
      obtain ⟨behind, split⟩ := stops.split
      have member : stuck ∈ tokenization.toList := by
        rw [Tokenization.toList, split]
        exact List.mem_append_right _ List.mem_cons_self
      exact exists_selects_of_mem_toList cut member

/-- A field of the definition with an unknown type, or two constructors of it
with the same name, in order. -/
inductive Definition.Blames (definition : Definition) : SemanticFault → Prop
  | field {field : Field} (member : field ∈ definition.fields) :
      Blames definition
        (.undefinedType definition.name field.typeName field.span)
  | constructors {first later : Constructor}
      (inOrder : [first, later].Sublist definition.body.constructors)
      (sameName : first.name = later.name) :
      Blames definition
        (.duplicateConstructor definition.name later.name later.span
          first.span)

section Blames

variable {lookup? : String → Option Resolved.DefinitionId}

theorem Field.exists_of_mem_flatMap_faults {definition : String}
    {fields : List Field} {fault : SemanticFault}
    (member : fault ∈ fields.flatMap (Field.faults lookup? definition)) :
    ∃ field ∈ fields,
      fault = .undefinedType definition field.typeName field.span := by
  obtain ⟨field, isField, ofField⟩ := List.mem_flatMap.mp member
  unfold Field.faults at ofField
  split at ofField
  · cases ofField
  · exact ⟨field, isField, List.mem_singleton.mp ofField⟩

private theorem Constructor.exists_of_mem_repeatedFaults {sum : String}
    {earlier : List Constructor} {constructor : Constructor}
    {fault : SemanticFault}
    (member :
      fault ∈ Constructor.repeatedFaults sum earlier constructor) :
    ∃ first ∈ earlier, first.name = constructor.name ∧
      fault =
        .duplicateConstructor sum constructor.name constructor.span
          first.span := by
  unfold Constructor.repeatedFaults at member
  split at member
  · rename_i first found
    have sameName : first.name = constructor.name := by
      simpa using List.find?_some found
    exact
      ⟨first, List.mem_of_find?_eq_some found, sameName,
        List.mem_singleton.mp member⟩
  · cases member

private theorem Constructor.exists_of_mem_listFaults {sum : String}
    {earlier constructors : List Constructor} {fault : SemanticFault}
    (member :
      fault ∈ Constructor.listFaults lookup? sum earlier constructors) :
    (∃ field ∈ constructors.flatMap Constructor.members,
      fault = .undefinedType sum field.typeName field.span) ∨
      ∃ first later,
        [first, later].Sublist (earlier ++ constructors) ∧
          first.name = later.name ∧
          fault =
            .duplicateConstructor sum later.name later.span first.span := by
  induction constructors generalizing earlier with
  | nil => cases member
  | cons constructor rest ih =>
      rw [listFaults, List.mem_append, List.mem_append] at member
      rcases member with (isRepeated | inMembers) | inRest
      · obtain ⟨first, isEarlier, sameName, isFault⟩ :=
          exists_of_mem_repeatedFaults isRepeated
        refine .inr ⟨first, constructor, ?_, sameName, isFault⟩
        exact
          (List.singleton_sublist.mpr isEarlier).append
            (List.singleton_sublist.mpr List.mem_cons_self)
      · obtain ⟨field, isMember, isFault⟩ :=
          Field.exists_of_mem_flatMap_faults inMembers
        refine .inl ⟨field, ?_, isFault⟩
        exact List.mem_flatMap.mpr ⟨constructor, List.mem_cons_self, isMember⟩
      · rcases ih inRest with ⟨field, isMember, isFault⟩ | repeated
        · refine .inl ⟨field, ?_, isFault⟩
          rw [List.flatMap_cons]
          exact List.mem_append_right _ isMember
        · rw [List.append_assoc, List.singleton_append] at repeated
          exact .inr repeated

private theorem Definition.blames_of_mem_faults {definition : Definition}
    {fault : SemanticFault} (member : fault ∈ definition.faults lookup?) :
    definition.Blames fault := by
  rcases List.mem_append.mp member with ofAttributes | ofBody
  · obtain ⟨field, isAttribute, rfl⟩ :=
      Field.exists_of_mem_flatMap_faults ofAttributes
    exact .field (List.mem_append_left _ isAttribute)
  · obtain ⟨name, body, attributes, nameSpan, span⟩ := definition
    cases body with
    | product members =>
        obtain ⟨field, isMember, rfl⟩ :=
          Field.exists_of_mem_flatMap_faults ofBody
        exact .field (List.mem_append_right _ isMember)
    | sum constructors =>
        rcases Constructor.exists_of_mem_listFaults ofBody with
          ⟨field, isMember, rfl⟩ | ⟨first, later, inOrder, sameName, rfl⟩
        · exact .field (List.mem_append_right _ isMember)
        · exact .constructors inOrder sameName

end Blames

theorem Definition.FirstRepetition.inOrder {definitions : List Definition}
    (repetition : Definition.FirstRepetition definitions) :
    [repetition.first, repetition.later].Sublist definitions := by
  obtain ⟨front, first, middle, later, behind, rfl, _, _⟩ := repetition
  have isEarlier : first ∈ front ++ first :: middle :=
    List.mem_append_right _ List.mem_cons_self
  exact
    (List.singleton_sublist.mpr isEarlier).append
      (List.singleton_sublist.mpr List.mem_cons_self)

/-! ### Labels -/

namespace Report

/-- The ranges that a report labels in one colour. -/
def spans (color : Color) (report : Report) : List Span :=
  (report.labels.filter fun label => label.color = color).map Label.span

/-- The report begins at its first label, and each label is a slice of the
source. -/
structure Grounded (source : String) (report : Report) : Prop where
  first :
    ∃ label others,
      report.labels = label :: others ∧ report.offset = label.span.start
  labels :
    ∀ label ∈ report.labels, ∃ text, label.span.Selects source text

/-- The report has one red range and one blue range, which ends in front of the
red one, and both fit. -/
def Clashes (Fits : Span → Prop) (report : Report) : Prop :=
  ∃ red blue,
    report.spans .red = [red] ∧ report.spans .blue = [blue] ∧
      Fits red ∧ Fits blue ∧ blue.stop ≤ red.start

/-- The ranges show the name that a fault is about. -/
def Shows (source : String) (report : Report) : SemanticFault → Prop
  | .duplicateConstructor _ name _ _ =>
      report.Clashes fun span => span.OpensWith source name
  | .undefinedType _ name _ =>
      ∃ red, report.spans .red = [red] ∧ red.OpensWith source name

theorem grounded_of_labels {source : String} {report : Report} {first : Label}
    {others : List Label} (labelled : report.labels = first :: others)
    (selected :
      ∀ label ∈ first :: others, ∃ text, label.span.Selects source text) :
    report.Grounded source := by
  refine
    { first := ⟨first, others, labelled, ?_⟩
      labels := ?_ }
  · rw [offset, labelled]
  · rw [labelled]
    exact selected

private theorem grounded_ofSyntaxError {source : String} {error : SyntaxError}
    (path : String) (refused : Module.parse source = .error error) :
    (ofSyntaxError path error).Grounded source := by
  apply grounded_of_labels rfl
  rw [List.forall_mem_singleton]
  exact Module.exists_selects_of_parse_error refused

theorem clashes_of_labels {source : String} {report : Report}
    {red blue : Label} (labelled : report.labels = [red, blue])
    (isRed : red.color = .red) (isBlue : blue.color = .blue)
    {Fits : Span → Prop}
    (selects : ∀ span, Fits span → ∃ text, span.Selects source text)
    (redFits : Fits red.span) (blueFits : Fits blue.span)
    (apart : blue.span.stop ≤ red.span.start) :
    report.Grounded source ∧ report.Clashes Fits := by
  refine ⟨grounded_of_labels labelled ?_, red.span, blue.span, ?_, ?_, redFits,
    blueFits, apart⟩
  · rw [List.forall_mem_cons, List.forall_mem_singleton]
    exact ⟨selects _ redFits, selects _ blueFits⟩
  · simp [spans, labelled, isRed, isBlue]
  · simp [spans, labelled, isRed, isBlue]

private theorem clashes_ofStructuralFault {source : String} {module : Module}
    (stands : module.Stands source) {first later : Definition}
    (inOrder : [first, later].Sublist module.definitions)
    (sameName : later.name = first.name) (path : String) :
    let report :=
      ofStructuralFault path
        (.duplicateDefinition later.name later.nameSpan
          (some first.nameSpan))
    report.Grounded source ∧
      report.Clashes fun span => span.Selects source later.name := by
  have firstStands :=
    stands.definitions first (inOrder.subset List.mem_cons_self)
  have laterStands :=
    stands.definitions later (inOrder.subset (by simp))
  have apart : first.span.stop ≤ later.span.start := by
    simpa using stands.apart.sublist inOrder
  have firstNamed := firstStands.named
  rw [← sameName] at firstNamed
  refine
    clashes_of_labels rfl rfl rfl (fun span selects => ⟨_, selects⟩)
      laterStands.named firstNamed ?_
  calc first.nameSpan.stop
    _ ≤ first.span.stop := firstStands.inside.2
    _ ≤ later.span.start := apart
    _ ≤ later.nameSpan.start := laterStands.inside.1

private theorem shows_ofSemanticFault {source : String}
    {definition : Definition}
    (stands : definition.Stands source) {fault : SemanticFault}
    (blames : definition.Blames fault) (path : String) :
    (ofSemanticFault path fault).Grounded source ∧
      (ofSemanticFault path fault).Shows source fault := by
  cases blames with
  | @field field member =>
      have opens := stands.fields field member
      refine ⟨?_, field.span, rfl, opens⟩
      apply grounded_of_labels rfl
      rw [List.forall_mem_singleton]
      exact opens.exists_selects
  | @constructors first later inOrder sameName =>
      have firstOpens :=
        stands.constructors first (inOrder.subset List.mem_cons_self)
      have laterOpens :=
        stands.constructors later (inOrder.subset (by simp))
      have apart : first.span.stop ≤ later.span.start := by
        simpa using stands.apart.sublist inOrder
      rw [sameName] at firstOpens
      exact
        clashes_of_labels rfl rfl rfl
          (fun span opens => Span.OpensWith.exists_selects opens) laterOpens
          firstOpens apart

end Report

section Diagnose

variable {path source : String} {module : Module}

theorem diagnose_of_parse_error {error : SyntaxError}
    (refused : Module.parse source = .error error) :
    diagnose path source = [.ofSyntaxError path error] := by
  rw [diagnose, check, refused]

theorem diagnose_of_compile_error {fault : StructuralFault}
    (parsed : Module.parse source = .ok module)
    (refused : compile module = .error fault) :
    diagnose path source = [.ofStructuralFault path fault] := by
  simp only [diagnose, check, parsed, refused]

theorem diagnose_of_compile {compilation : Compilation}
    (parsed : Module.parse source = .ok module)
    (compiled : compile module = .ok compilation) :
    diagnose path source =
      compilation.faults.map (.ofSemanticFault path) := by
  simp only [diagnose, check, parsed, compiled, Checked.reports]

theorem clashes_of_compile_error {fault : StructuralFault}
    (parsed : Module.parse source = .ok module)
    (refused : compile module = .error fault) :
    (Report.ofStructuralFault path fault).Grounded source ∧
      ∃ name span previous?,
        fault = .duplicateDefinition name span previous? ∧
          (Report.ofStructuralFault path fault).Clashes fun span =>
            span.Selects source name := by
  obtain ⟨repetition, rfl⟩ := (compile_eq_error_iff module fault).mp refused
  obtain ⟨grounded, clashes⟩ :=
    Report.clashes_ofStructuralFault (Module.stands_of_parse parsed)
      repetition.inOrder repetition.sameName path
  exact ⟨grounded, _, _, _, rfl, clashes⟩

theorem shows_of_compile {compilation : Compilation}
    (parsed : Module.parse source = .ok module)
    (compiled : compile module = .ok compilation) :
    ∀ fault ∈ compilation.faults,
      (Report.ofSemanticFault path fault).Grounded source ∧
        (Report.ofSemanticFault path fault).Shows source fault := by
  intro fault member
  obtain ⟨_, rfl⟩ := (compile_eq_ok_iff module compilation).mp compiled
  obtain ⟨definition, isDefinition, ofDefinition⟩ := List.mem_flatMap.mp member
  exact
    Report.shows_ofSemanticFault
      ((Module.stands_of_parse parsed).definitions definition isDefinition)
      (Definition.blames_of_mem_faults ofDefinition) path

end Diagnose

/-- Every report about a source points into it.  A source that is not read, or
that defines a name twice, has one report; any other has one for each semantic
fault, in order, and none if it is clean.  Names that a report is about stand at
its labels. -/
theorem diagnose_points_into_source (path source : String) :
    (∀ report ∈ diagnose path source, report.Grounded source) ∧
      (∀ error, Module.parse source = .error error →
        diagnose path source = [.ofSyntaxError path error]) ∧
      ∀ module, Module.parse source = .ok module →
        (∀ fault, compile module = .error fault →
          diagnose path source = [.ofStructuralFault path fault] ∧
            ∃ name span previous?,
              fault = .duplicateDefinition name span previous? ∧
                (Report.ofStructuralFault path fault).Clashes fun span =>
                  span.Selects source name) ∧
          ∀ compilation, compile module = .ok compilation →
            diagnose path source =
                compilation.faults.map (.ofSemanticFault path) ∧
              (compilation.isClean = true ↔ diagnose path source = []) ∧
              ∀ fault ∈ compilation.faults,
                (Report.ofSemanticFault path fault).Shows source fault := by
  refine ⟨?_, fun _ => diagnose_of_parse_error, ?_⟩
  · cases parsed : Module.parse source with
    | error error =>
        rw [diagnose_of_parse_error parsed, List.forall_mem_singleton]
        exact Report.grounded_ofSyntaxError path parsed
    | ok module =>
        cases compiled : compile module with
        | error fault =>
            rw [diagnose_of_compile_error parsed compiled,
              List.forall_mem_singleton]
            exact (clashes_of_compile_error parsed compiled).1
        | ok compilation =>
            rw [diagnose_of_compile parsed compiled, List.forall_mem_map]
            intro fault member
            exact (shows_of_compile parsed compiled fault member).1
  · intro module parsed
    refine ⟨?_, ?_⟩
    · intro fault refused
      exact
        ⟨diagnose_of_compile_error parsed refused,
          (clashes_of_compile_error parsed refused).2⟩
    · intro compilation compiled
      have reports :
          diagnose path source =
            compilation.faults.map (.ofSemanticFault path) :=
        diagnose_of_compile parsed compiled
      refine ⟨reports, ?_, ?_⟩
      · rw [reports, List.map_eq_nil_iff, Compilation.isClean,
          List.isEmpty_iff]
      · intro fault member
        exact (shows_of_compile parsed compiled fault member).2

/-- An unknown type and a repeated constructor, behind a comment with a
character of two bytes. -/
def Module.muddledText : String :=
  "-- é\nmodule M \x7b a = B(c) | B \x7d"

def Module.muddled : Module :=
  { name := "M"
    definitions :=
      [{ name := "a"
         body :=
           .sum
             [{ name := "B"
                members := [⟨"c", .single, none, ⟨23, 24⟩⟩]
                span := ⟨21, 25⟩ },
              { name := "B"
                members := []
                span := ⟨28, 29⟩ }]
         attributes := []
         nameSpan := ⟨17, 18⟩
         span := ⟨17, 29⟩ }]
    span := ⟨6, 31⟩ }

theorem diagnose_points_into_muddled :
    ∃ undefined repeated,
      diagnose "m" Module.muddledText = [undefined, repeated] ∧
        (∃ red, undefined.spans .red = [red] ∧
          red.OpensWith Module.muddledText "c") ∧
        repeated.Clashes fun span =>
          span.OpensWith Module.muddledText "B" := by
  have parsed : Module.parse Module.muddledText = .ok Module.muddled := by
    decide +kernel
  have compiled : compile Module.muddled = .ok Module.muddled.linked :=
    (compile_eq_ok_iff _ _).mpr ⟨by decide, rfl⟩
  have faults :
      Module.muddled.linked.faults =
        [.undefinedType "a" "c" ⟨23, 24⟩,
          .duplicateConstructor "a" "B" ⟨28, 29⟩ ⟨21, 25⟩] := by
    decide +kernel
  obtain ⟨_, _, whole⟩ := diagnose_points_into_source "m" Module.muddledText
  obtain ⟨reports, _, shows⟩ := (whole _ parsed).2 _ compiled
  rw [faults] at reports shows
  refine ⟨_, _, reports, ?_, ?_⟩
  · exact shows _ List.mem_cons_self
  · exact shows _ (List.mem_cons_of_mem _ List.mem_cons_self)

end Asdl
