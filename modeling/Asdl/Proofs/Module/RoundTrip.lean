/-
Writing a description down and reading it back.

The text of a printable description is cut into the tokens of its tree, and the
tree is well formed, so it is what the text is read to.  A description that is
not printable cannot come back, since whatever is read is printable.
-/

import Asdl.Module.Source
import Asdl.Proofs.Concrete.Recognition
import Asdl.Proofs.Module.Printable

namespace Asdl

open Cursor (EndsWord)

private theorem Cardinality.spells_marker (cardinality : Cardinality) :
    EndsWord cardinality.marker.toList ∧
      Spells cardinality.marker.toList
        (cardinality.toMarker?.toList.map Concrete.Marker.token) := by
  cases cardinality with
  | single => exact ⟨.nil, .nil⟩
  | optional => exact ⟨.cons _ (by decide), Spells.nil.mark rfl⟩
  | sequence => exact ⟨.cons _ (by decide), Spells.nil.mark rfl⟩

theorem Field.Printable.spells_source {field : Field}
    (printable : field.Printable) :
    Spells field.source.toList field.toConcrete.tokens := by
  obtain ⟨typeName, cardinality, name?, span⟩ := field
  obtain ⟨markerEnds, markerSpells⟩ := cardinality.spells_marker
  have typeSpells := Spells.word printable.typeName
  cases name? with
  | none =>
      simpa [source, toConcrete, Concrete.Field.tokens] using
        typeSpells.append markerEnds markerSpells
  | some name =>
      have nameSpells := (Spells.word (printable.name name rfl)).space
      have nameEnds : EndsWord (' ' :: name.toList) := .cons _ (by decide)
      simpa [source, toConcrete, Concrete.Field.tokens] using
        (typeSpells.append markerEnds markerSpells).append nameEnds nameSpells

private theorem Field.endsWord_listSource (fields : List Field) :
    EndsWord (listSource fields).toList := by
  rw [listSource, String.toList_append, String.toList_append]
  exact .cons _ (by decide)

theorem Field.spells_listSource {fields : List Field}
    (printable : ∀ field ∈ fields, field.Printable) :
    Spells (listSource fields).toList (listToConcrete fields).tokens := by
  have commaSeparates (rest : List Char) (tokens : List Token)
      (cut : CutsInto rest tokens) :
      CutsInto (", ".toList ++ rest) (.comma :: tokens) :=
    CutsInto.mark rfl (cut.blank (by decide))
  have fieldsSpell :=
    Spells.intercalate (fun _ => .cons _ (by decide)) commaSeparates fields
      fun field member => (printable field member).spells_source
  have bracketEnds : EndsWord [')'] := .cons _ (by decide)
  have bracketSpells : Spells [')'] [.rightParen] := Spells.nil.mark rfl
  have listSpells :=
    (fieldsSpell.append bracketEnds bracketSpells).mark
      (rfl : Token.ofMark? '(' = some .leftParen)
  simpa [listSource, listToConcrete, Concrete.FieldList.tokens,
    Function.comp_def] using listSpells

theorem Constructor.Printable.spells_source {constructor : Constructor}
    (printable : constructor.Printable) :
    Spells constructor.source.toList constructor.toConcrete.tokens := by
  obtain ⟨name, members, span⟩ := constructor
  have nameSpells := Spells.word printable.name
  cases members with
  | nil =>
      simpa [source, toConcrete, Field.listToConcrete?,
        Concrete.Constructor.tokens] using nameSpells
  | cons first rest =>
      have whole :=
        nameSpells.append (Field.endsWord_listSource (first :: rest))
          (Field.spells_listSource printable.members)
      simpa [source, toConcrete, Field.listToConcrete?,
        Concrete.Constructor.tokens] using whole

theorem Body.Printable.spells_source {body : Body}
    (printable : body.Printable) :
    Spells body.source.toList body.toConcrete.tokens := by
  cases body with
  | product members => exact Field.spells_listSource printable.2
  | sum constructors =>
      have barSeparates (rest : List Char) (tokens : List Token)
          (cut : CutsInto rest tokens) :
          CutsInto (" | ".toList ++ rest) (.bar :: tokens) :=
        CutsInto.blank (by decide)
          (CutsInto.mark rfl (cut.blank (by decide)))
      have constructorsSpell :=
        Spells.intercalate (fun _ => .cons _ (by decide)) barSeparates
          constructors
          fun constructor member =>
            (printable.2 constructor member).spells_source
      simpa [source, toConcrete, Concrete.Body.tokens,
        Function.comp_def] using constructorsSpell

/-- A clause begins with a blank, so it is kept off from the body whatever the
body ends in. -/
theorem Definition.spells_clause {attributes : List Field}
    (printable : ∀ field ∈ attributes, field.Printable) :
    let clause :=
      if attributes.isEmpty then
        ""
      else
        " attributes " ++ Field.listSource attributes
    EndsWord clause.toList ∧
      Spells clause.toList
        (((Field.listToConcrete? attributes).map
          Concrete.Attributes.ofFields).toList.flatMap
            Concrete.Attributes.tokens) := by
  cases attributes with
  | nil => exact ⟨.nil, .nil⟩
  | cons first rest =>
      have listSpells := (Field.spells_listSource printable).space
      have keywordSpells : Spells "attributes".toList [.attributesKeyword] :=
        Spells.word (by decide)
      have clauseSpells :=
        (keywordSpells.append (.cons _ (by decide)) listSpells).space
      constructor
      · rw [List.isEmpty_cons, if_neg Bool.false_ne_true,
          String.toList_append]
        exact .cons _ (by decide)
      · simpa [Field.listToConcrete?, Concrete.Attributes.tokens,
          Concrete.Attributes.ofFields] using clauseSpells

theorem Definition.Printable.spells_source {definition : Definition}
    (printable : definition.Printable) :
    Spells definition.source.toList definition.toConcrete.tokens := by
  obtain ⟨clauseEnds, clauseSpells⟩ := spells_clause printable.attributes
  have nameSpells := Spells.word printable.name
  have bodySpells :=
    printable.body.spells_source.append clauseEnds clauseSpells
  have restSpells :=
    (bodySpells.space.mark
      (rfl : Token.ofMark? '=' = some .equals)).space
  have whole := nameSpells.append (.cons _ (by decide)) restSpells
  simpa [source, toConcrete, Concrete.Definition.tokens] using whole

theorem Definition.Printable.spells_line {definition : Definition}
    (printable : definition.Printable) :
    EndsWord ("    " ++ definition.source ++ "\n").toList ∧
      Spells ("    " ++ definition.source ++ "\n").toList
        definition.toConcrete.tokens := by
  have lineEnd : Spells ['\n'] [] := Spells.nil.blank (by decide)
  have lineSpells :=
    printable.spells_source.append (.cons _ (by decide)) lineEnd
  constructor
  · rw [String.toList_append, String.toList_append]
    exact .cons _ (by decide)
  · have indented := lineSpells.space.space.space.space
    simpa using indented

theorem Module.Printable.spells_source {module : Module}
    (printable : module.Printable) :
    Spells module.source.toList module.toConcrete.tokens := by
  obtain ⟨linesEnd, linesSpell⟩ :=
    Spells.flatMap module.definitions
      (fun definition member =>
        (printable.definitions definition member).spells_line.1)
      (fun definition member =>
        (printable.definitions definition member).spells_line.2)
  have closingSpells : Spells ['\x7d', '\n'] [.rightBrace] :=
    (Spells.nil.blank (by decide)).mark rfl
  have bodySpells := linesSpell.append (.cons _ (by decide)) closingSpells
  have openingSpells :=
    ((bodySpells.blank (by decide : isBlank '\n' = true)).mark
      (rfl : Token.ofMark? '\x7b' = some .leftBrace)).space
  have nameSpells :=
    ((Spells.word printable.name).append (.cons _ (by decide))
      openingSpells).space
  have keywordSpells : Spells "module".toList [.moduleKeyword] :=
    Spells.word (by decide)
  have whole := keywordSpells.append (.cons _ (by decide)) nameSpells
  simpa [source, toConcrete, Concrete.Module.tokens, List.flatMap_map] using
    whole

theorem Module.Printable.exists_parse {module : Module}
    (printable : module.Printable) :
    ∃ parsed, Module.parse module.source = .ok parsed ∧
      parsed.eraseSpans = module.eraseSpans := by
  obtain ⟨tokenization, tokenized, sameTokens⟩ :=
    tokenize_of_spells printable.spells_source
  have wellFormed := (printable_iff module).mp printable
  have yields : module.toConcrete.Yields module.source :=
    ⟨tokenization, tokenized, wellFormed, sameTokens.symm⟩
  obtain ⟨tree, treeRead, sameTree⟩ := yields.exists_parse
  have treeWellFormed := Concrete.Module.wellFormed_of_parse treeRead
  refine ⟨ofConcrete tree, ?_, ?_⟩
  · rw [Module.parse, treeRead]
    rfl
  · rw [← ofConcrete_toConcrete, toConcrete_ofConcrete treeWellFormed,
      sameTree, printable.eraseSpans_toConcrete, ofConcrete_toConcrete]

theorem Module.printable_of_parse {source : String} {module : Module}
    (parsed : Module.parse source = .ok module) : module.Printable := by
  rw [Module.parse] at parsed
  cases treeRead : Concrete.Module.parse source with
  | error error =>
      rw [treeRead] at parsed
      cases parsed
  | ok tree =>
      rw [treeRead] at parsed
      cases parsed
      exact printable_of_wellFormed
        (Concrete.Module.wellFormed_of_parse treeRead)

/-- The text of a description is read back to the description, up to ranges,
exactly when it is printable; and whatever is read from any source is printable,
so it survives being written down again. -/
theorem Module.parse_source_iff_printable :
    (∀ module : Module,
      (∃ parsed, Module.parse module.source = .ok parsed ∧
          parsed.eraseSpans = module.eraseSpans) ↔
        module.Printable) ∧
      ∀ (source : String) (module : Module),
        Module.parse source = .ok module →
          module.Printable ∧
            ∃ again, Module.parse module.source = .ok again ∧
              again.eraseSpans = module.eraseSpans := by
  constructor
  · intro module
    constructor
    · rintro ⟨parsed, isParsed, same⟩
      exact (printable_of_parse isParsed).of_eraseSpans_eq same
    · exact Module.Printable.exists_parse
  · intro source module isParsed
    have printable := printable_of_parse isParsed
    exact ⟨printable, printable.exists_parse⟩

end Asdl
