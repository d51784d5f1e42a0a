/-
The grammar of descriptions, and which of its derivations the reader follows.

  module       'module' id '{' definition* '}'
  definition   id '=' type
  type         product | sum
  product      fields attributes?
  sum          constructor ( '|' constructor )* attributes?
  constructor  id fields?
  attributes   'attributes' fields
  fields       '(' ( field ',' )* field ')'
  field        id ( '?' | '*' )? id?
  id           IDENT | 'module' | 'attributes'

Each rule is a relation between a node and the tokens derived for it.  The
grammar lets a definition be called `attributes` anywhere; the reader takes the
word for the beginning of a clause where one may stand, so it follows a
derivation exactly when the derived tree is separated.
-/

import Asdl.Proofs.Concrete.Recognition

namespace Asdl.Concrete

/-- A node and the tokens derived for it. -/
abbrev Rule (Node : Type) : Type :=
  Node → List Token → Prop

namespace Rule

variable {Node : Type}

inductive Optional (rule : Rule Node) : Rule (Option Node)
  | absent : Optional rule none []
  | present {node : Node} {tokens : List Token}
      (derived : rule node tokens) : Optional rule (some node) tokens

/-- Any number of nodes, one behind the other. -/
inductive Repeated (rule : Rule Node) : Rule (List Node)
  | done : Repeated rule [] []
  | more {node : Node} {tokens : List Token} {nodes : List Node}
      {others : List Token} (first : rule node tokens)
      (rest : Repeated rule nodes others) :
      Repeated rule (node :: nodes) (tokens ++ others)

/-- One node or more, with a separator between any two neighbours. -/
inductive Enumerated (separator : Token) (rule : Rule Node) :
    Rule (List Node)
  | single {node : Node} {tokens : List Token} (only : rule node tokens) :
      Enumerated separator rule [node] tokens
  | more {node : Node} {tokens : List Token} {nodes : List Node}
      {others : List Token} (first : rule node tokens)
      (rest : Enumerated separator rule nodes others) :
      Enumerated separator rule (node :: nodes)
        (tokens ++ separator :: others)

end Rule

inductive Identifier.Derives : Rule Identifier
  | identifier (name : String) (span : Span) :
      Derives { name := name, span := span } [.identifier name]
  | module (span : Span) :
      Derives { name := "module", span := span } [.moduleKeyword]
  | attributes (span : Span) :
      Derives { name := "attributes", span := span } [.attributesKeyword]

inductive Marker.Derives : Rule Marker
  | question (span : Span) :
      Derives { kind := .question, span := span } [.question]
  | star (span : Span) : Derives { kind := .star, span := span } [.star]

inductive Field.Derives : Rule Field
  | field {typeId : Identifier} {marker? : Option Marker}
      {id? : Option Identifier} {typeTokens markerTokens idTokens : List Token}
      (span : Span) (typed : typeId.Derives typeTokens)
      (marked : Rule.Optional Marker.Derives marker? markerTokens)
      (named : Rule.Optional Identifier.Derives id? idTokens) :
      Derives { typeId, marker?, id?, span }
        (typeTokens ++ markerTokens ++ idTokens)

inductive FieldList.Derives : Rule FieldList
  | fields {fields : List Field} {tokens : List Token} (span : Span)
      (derived : Rule.Enumerated .comma Field.Derives fields tokens) :
      Derives { fields, span } (.leftParen :: tokens ++ [.rightParen])

inductive Constructor.Derives : Rule Constructor
  | constructor {id : Identifier} {fields? : Option FieldList}
      {idTokens fieldTokens : List Token} (span : Span)
      (named : id.Derives idTokens)
      (derived : Rule.Optional FieldList.Derives fields? fieldTokens) :
      Derives { id, fields?, span } (idTokens ++ fieldTokens)

inductive Attributes.Derives : Rule Attributes
  | attributes {fields : FieldList} {tokens : List Token} (keyword : Span)
      (derived : fields.Derives tokens) :
      Derives { keyword, fields } (.attributesKeyword :: tokens)

/-- A product or a sum, and then the attributes, which a tree keeps beside the
body. -/
inductive Body.Derives : Rule (Body × Option Attributes)
  | product {fields : FieldList} {attributes? : Option Attributes}
      {tokens clauseTokens : List Token} (derived : fields.Derives tokens)
      (clause :
        Rule.Optional Attributes.Derives attributes? clauseTokens) :
      Derives (.product fields, attributes?) (tokens ++ clauseTokens)
  | sum {constructors : List Constructor} {attributes? : Option Attributes}
      {tokens clauseTokens : List Token}
      (derived :
        Rule.Enumerated .bar Constructor.Derives constructors tokens)
      (clause :
        Rule.Optional Attributes.Derives attributes? clauseTokens) :
      Derives (.sum constructors, attributes?) (tokens ++ clauseTokens)

inductive Definition.Derives : Rule Definition
  | definition {typeId : Identifier} {body : Body}
      {attributes? : Option Attributes} {idTokens tokens : List Token}
      (span : Span) (named : typeId.Derives idTokens)
      (derived : Body.Derives (body, attributes?) tokens) :
      Derives { typeId, body, attributes?, span }
        (idTokens ++ .equals :: tokens)

inductive Module.Derives : Rule Module
  | module {id : Identifier} {definitions : List Definition}
      {idTokens tokens : List Token} (span : Span)
      (named : id.Derives idTokens)
      (derived : Rule.Repeated Definition.Derives definitions tokens) :
      Derives { id, definitions, span }
        (.moduleKeyword :: idTokens ++ .leftBrace :: tokens ++ [.rightBrace])

/-! ### What is derived is what a well-formed tree writes down -/

/-- Tokens that the rule derives and that come from a source are those the node
writes down, and the node is as it should be. -/
def Rule.Writes {Node : Type} (rule : Rule Node)
    (write : Node → List Token) (WellFormed : Node → Prop) : Prop :=
  ∀ node tokens, rule node tokens → (∀ token ∈ tokens, token.IsLexed) →
    tokens = write node ∧ WellFormed node

namespace Rule.Writes

variable {Node : Type} {rule : Rule Node} {write : Node → List Token}
  {WellFormed : Node → Prop}

theorem optional (writes : rule.Writes write WellFormed) :
    (Optional rule).Writes (fun node? => node?.toList.flatMap write)
      (fun node? => ∀ node ∈ node?, WellFormed node) := by
  intro node? tokens derived lexed
  cases derived with
  | absent =>
      refine ⟨rfl, ?_⟩
      intro node absent
      cases absent
  | present derived =>
      obtain ⟨written, whole⟩ := writes _ _ derived lexed
      refine ⟨?_, ?_⟩
      · simpa using written
      · intro node present
        cases present
        exact whole

theorem repeated (writes : rule.Writes write WellFormed) :
    (Repeated rule).Writes (fun nodes => nodes.flatMap write)
      (fun nodes => ∀ node ∈ nodes, WellFormed node) := by
  intro nodes tokens derived lexed
  induction derived with
  | done =>
      refine ⟨rfl, ?_⟩
      intro node absent
      cases absent
  | more first rest ih =>
      obtain ⟨firstLexed, restLexed⟩ := List.forall_mem_append.mp lexed
      obtain ⟨firstWritten, firstWhole⟩ := writes _ _ first firstLexed
      obtain ⟨restWritten, restWhole⟩ := ih restLexed
      refine ⟨?_, List.forall_mem_cons.mpr ⟨firstWhole, restWhole⟩⟩
      simp only [List.flatMap_cons] at restWritten ⊢
      rw [← firstWritten, ← restWritten]

theorem enumerated (separator : Token)
    (writes : rule.Writes write WellFormed) :
    (Enumerated separator rule).Writes
      (fun nodes => List.intercalate [separator] (nodes.map write))
      (fun nodes => nodes ≠ [] ∧ ∀ node ∈ nodes, WellFormed node) := by
  intro nodes tokens derived lexed
  induction derived with
  | single only =>
      obtain ⟨written, whole⟩ := writes _ _ only lexed
      refine ⟨?_, List.cons_ne_nil _ _, List.forall_mem_singleton.mpr whole⟩
      simpa using written
  | @more node first nodes others derived rest ih =>
      obtain ⟨firstLexed, fromSeparator⟩ := List.forall_mem_append.mp lexed
      obtain ⟨firstWritten, firstWhole⟩ := writes _ _ derived firstLexed
      obtain ⟨restWritten, nonempty, restWhole⟩ :=
        ih (List.forall_mem_cons.mp fromSeparator).2
      refine
        ⟨?_, List.cons_ne_nil _ _,
          List.forall_mem_cons.mpr ⟨firstWhole, restWhole⟩⟩
      obtain ⟨second, further, isCons⟩ := List.exists_cons_of_ne_nil nonempty
      rw [isCons] at restWritten ⊢
      simp only [List.map_cons, List.intercalate_cons_cons,
        List.append_assoc, List.singleton_append] at restWritten ⊢
      rw [← firstWritten, ← restWritten]

end Rule.Writes

theorem Identifier.derives_writes :
    Rule.Writes Identifier.Derives (fun id => [id.token])
      (fun id => isWord id.name = true) := by
  intro id tokens derived lexed
  cases derived with
  | identifier name span =>
      have isLexed := lexed (.identifier name) List.mem_cons_self
      have sameToken : Token.ofWord name = .identifier name :=
        isLexed.canonical name rfl
      refine ⟨?_, isLexed.spellsWord name rfl⟩
      simp only [Identifier.token, sameToken]
  | module span =>
      have word : isWord "module" = true := by decide
      exact ⟨rfl, word⟩
  | attributes span =>
      have word : isWord "attributes" = true := by decide
      exact ⟨rfl, word⟩

theorem Marker.derives_writes :
    Rule.Writes Marker.Derives (fun marker => [marker.token])
      (fun _ => True) := by
  intro marker tokens derived lexed
  cases derived with
  | question span => exact ⟨rfl, trivial⟩
  | star span => exact ⟨rfl, trivial⟩

theorem Field.derives_writes :
    Rule.Writes Field.Derives Field.tokens Field.WellFormed := by
  intro field tokens derived lexed
  cases derived with
  | field span typed marked named =>
      obtain ⟨frontLexed, idLexed⟩ := List.forall_mem_append.mp lexed
      obtain ⟨typeLexed, markerLexed⟩ := List.forall_mem_append.mp frontLexed
      obtain ⟨typeWritten, typeWord⟩ :=
        Identifier.derives_writes _ _ typed typeLexed
      obtain ⟨markerWritten, _⟩ :=
        Marker.derives_writes.optional _ _ marked markerLexed
      obtain ⟨idWritten, idWords⟩ :=
        Identifier.derives_writes.optional _ _ named idLexed
      refine ⟨?_, { typeId := typeWord, id := idWords }⟩
      rw [typeWritten, markerWritten, idWritten]
      simp only [Field.tokens, List.map_eq_flatMap]
      rfl

theorem FieldList.derives_writes :
    Rule.Writes FieldList.Derives FieldList.tokens
      FieldList.WellFormed := by
  intro list tokens derived lexed
  cases derived with
  | fields span derived =>
      obtain ⟨frontLexed, _⟩ := List.forall_mem_append.mp lexed
      obtain ⟨written, nonempty, whole⟩ :=
        Field.derives_writes.enumerated .comma _ _ derived
          (List.forall_mem_cons.mp frontLexed).2
      refine ⟨?_, { nonempty := nonempty, fields := whole }⟩
      rw [written]
      rfl

theorem Constructor.derives_writes :
    Rule.Writes Constructor.Derives Constructor.tokens
      Constructor.WellFormed := by
  intro constructor tokens derived lexed
  cases derived with
  | constructor span named derived =>
      obtain ⟨idLexed, fieldsLexed⟩ := List.forall_mem_append.mp lexed
      obtain ⟨idWritten, idWord⟩ :=
        Identifier.derives_writes _ _ named idLexed
      obtain ⟨fieldsWritten, fieldsWhole⟩ :=
        FieldList.derives_writes.optional _ _ derived fieldsLexed
      refine ⟨?_, { id := idWord, fields := fieldsWhole }⟩
      rw [idWritten, fieldsWritten]
      rfl

theorem Attributes.derives_writes :
    Rule.Writes Attributes.Derives Attributes.tokens
      (fun attributes => attributes.fields.WellFormed) := by
  intro attributes tokens derived lexed
  cases derived with
  | attributes keyword derived =>
      obtain ⟨written, whole⟩ :=
        FieldList.derives_writes _ _ derived (List.forall_mem_cons.mp lexed).2
      refine ⟨?_, whole⟩
      rw [written]
      rfl

theorem Body.derives_writes :
    Rule.Writes Body.Derives
      (fun node => node.1.tokens ++ node.2.toList.flatMap Attributes.tokens)
      (fun node => node.1.WellFormed ∧
        ∀ attributes ∈ node.2, attributes.fields.WellFormed) := by
  intro node tokens derived lexed
  cases derived with
  | product derived clause =>
      obtain ⟨bodyLexed, clauseLexed⟩ := List.forall_mem_append.mp lexed
      obtain ⟨written, whole⟩ := FieldList.derives_writes _ _ derived bodyLexed
      obtain ⟨clauseWritten, clauseWhole⟩ :=
        Attributes.derives_writes.optional _ _ clause clauseLexed
      refine ⟨?_, whole, clauseWhole⟩
      rw [written, clauseWritten]
      rfl
  | sum derived clause =>
      obtain ⟨bodyLexed, clauseLexed⟩ := List.forall_mem_append.mp lexed
      obtain ⟨written, whole⟩ :=
        Constructor.derives_writes.enumerated .bar _ _ derived bodyLexed
      obtain ⟨clauseWritten, clauseWhole⟩ :=
        Attributes.derives_writes.optional _ _ clause clauseLexed
      refine ⟨?_, whole, clauseWhole⟩
      rw [written, clauseWritten]
      rfl

theorem Definition.derives_writes :
    Rule.Writes Definition.Derives Definition.tokens
      Definition.WellFormed := by
  intro definition tokens derived lexed
  cases derived with
  | definition span named derived =>
      obtain ⟨idLexed, fromEquals⟩ := List.forall_mem_append.mp lexed
      obtain ⟨idWritten, idWord⟩ :=
        Identifier.derives_writes _ _ named idLexed
      obtain ⟨written, bodyWhole, clauseWhole⟩ :=
        Body.derives_writes _ _ derived (List.forall_mem_cons.mp fromEquals).2
      refine
        ⟨?_,
          { typeId := idWord
            body := bodyWhole
            attributes := clauseWhole }⟩
      rw [idWritten, written]
      rfl

/-- Up to separation, a derivation from tokens of a source gives a well-formed
tree that writes the tokens down. -/
theorem Module.derives_writes :
    Rule.Writes Module.Derives Module.tokens
      (fun module => isWord module.id.name = true ∧
        ∀ definition ∈ module.definitions, definition.WellFormed) := by
  intro module tokens derived lexed
  cases derived with
  | module span named derived =>
      obtain ⟨frontLexed, _⟩ := List.forall_mem_append.mp lexed
      obtain ⟨headLexed, fromBrace⟩ := List.forall_mem_append.mp frontLexed
      obtain ⟨idWritten, idWord⟩ :=
        Identifier.derives_writes _ _ named (List.forall_mem_cons.mp headLexed).2
      obtain ⟨written, whole⟩ :=
        Definition.derives_writes.repeated _ _ derived
          (List.forall_mem_cons.mp fromBrace).2
      refine ⟨?_, idWord, whole⟩
      rw [idWritten, written]
      rfl

/-- A source whose tokens are derived for a tree is read to that tree, up to
ranges, exactly when no definition of the tree called `attributes` directly
follows one without a clause; otherwise the source is refused. -/
theorem Module.parse_of_derives_iff_separated {tree : Module}
    {tokens : List Token} (derived : tree.Derives tokens) {source : String}
    {tokenization : Tokenization}
    (tokenized : tokenize source = .ok tokenization)
    (sameTokens : tokenization.lexemes.map Lexeme.token = tokens) :
    ((∃ parsed, Module.parse source = .ok parsed ∧
        parsed.eraseSpans = tree.eraseSpans) ↔ tree.Separated) ∧
      (¬ tree.Separated → ∃ error, Module.parse source = .error error) := by
  have lexed : ∀ token ∈ tokens, token.IsLexed := by
    rw [← sameTokens, List.forall_mem_map]
    exact isLexed_of_tokenize tokenized
  obtain ⟨written, _, whole⟩ := Module.derives_writes tree tokens derived lexed
  have followed := Module.follow?_tokens tree whole
  have parsedAs (parsed : Module) :=
    Module.parse_eq_ok_iff_follow? source parsed
  rw [tokenized] at parsedAs
  simp only [Except.ok.injEq, exists_eq_left', sameTokens, written,
    followed] at parsedAs
  constructor
  · rw [parsedAs]
    simp
  · intro notSeparated
    cases outcome : Module.parse source with
    | error error => exact ⟨error, rfl⟩
    | ok parsed =>
        have impossible := (parsedAs parsed.eraseSpans).mp ⟨parsed, outcome, rfl⟩
        rw [if_neg notSeparated] at impossible
        cases impossible

/-- Keywords in the place of names, with a definition called `attributes`
behind one that has its clause. -/
def Module.keywordNames : Module :=
  let id (name : String) : Identifier :=
    { name := name
      span := .zero }
  let fields (type : String) (name? : Option String) : FieldList :=
    { fields :=
        [{ typeId := id type
           marker? := none
           id? := name?.map id
           span := .zero }]
      span := .zero }
  { id := id "attributes"
    definitions :=
      [{ typeId := id "module"
         body :=
           .sum
             [{ id := id "attributes"
                fields? := none
                span := .zero }]
         attributes? :=
           some
             { keyword := .zero
               fields := fields "int" (some "attributes") }
         span := .zero },
       { typeId := id "attributes"
         body := .product (fields "module" none)
         attributes? := none
         span := .zero }]
    span := .zero }

def Module.keywordNamesText : String :=
  "module attributes \x7b
     module = attributes attributes (int attributes)
     attributes = (module)
   \x7d"

theorem Module.parse_keywordNames :
    ∃ parsed,
      Module.parse Module.keywordNamesText = .ok parsed ∧
        parsed.eraseSpans = Module.keywordNames.eraseSpans := by
  have clause :=
    Rule.Optional.present
      (Attributes.Derives.attributes .zero
        (.fields .zero
          (.single
            (.field .zero (.identifier "int" .zero) .absent
              (.present (.attributes .zero))))))
  have first :=
    Definition.Derives.definition .zero (.module .zero)
      (.sum (.single (.constructor .zero (.attributes .zero) .absent)) clause)
  have second :=
    Definition.Derives.definition .zero (.attributes .zero)
      (.product
        (.fields .zero
          (.single (.field .zero (.module .zero) .absent .absent)))
        .absent)
  have derived : Module.keywordNames.Derives Module.keywordNames.tokens :=
    .module .zero (.attributes .zero) (.more first (.more second .done))
  have cut :
      tokensOf Module.keywordNamesText = .ok Module.keywordNames.tokens := by
    decide +kernel
  obtain ⟨tokenization, tokenized, sameTokens⟩ :=
    (tokensOf_eq_ok_iff _ _).mp cut
  exact
    (Module.parse_of_derives_iff_separated derived tokenized sameTokens).1.mpr
      (by decide)

/-- A definition without a clause and one called `attributes` behind it can be
derived, but the reader asks for the fields of a clause. -/
theorem Module.parse_attributes_behind_bare :
    ∃ tree tokens,
      Module.Derives tree tokens ∧
        tokensOf "module M \x7b A = B attributes = C \x7d" = .ok tokens ∧
        Module.parse "module M \x7b A = B attributes = C \x7d" =
          .error
            { fault := .expectedToken .leftParen .equals
              span := { start := 28, stop := 29 } } := by
  have first :=
    Definition.Derives.definition .zero (.identifier "A" .zero)
      (.sum (.single (.constructor .zero (.identifier "B" .zero) .absent))
        .absent)
  have second :=
    Definition.Derives.definition .zero (.attributes .zero)
      (.sum (.single (.constructor .zero (.identifier "C" .zero) .absent))
        .absent)
  exact
    ⟨_, _,
      .module .zero (.identifier "M" .zero) (.more first (.more second .done)),
      by decide +kernel, by decide +kernel⟩

end Asdl.Concrete
