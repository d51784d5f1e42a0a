/-
Which texts are cut into which tokens.

A word is cut off whole when no character behind it continues it, a mark is cut
off wherever it stands, and a blank changes nothing but the offsets.  The three
facts are stated for any text that follows, so a text that was put together
from pieces is cut by going through its pieces.
-/

import Asdl.Token.Cursor

namespace Asdl

/-- A letter or an underscore, and behind it letters, digits and underscores
only.  The keywords are words. -/
def isWord (name : String) : Bool :=
  match name.toList with
  | [] => false
  | head :: tail => startsWord head && tail.all continuesWord

theorem isWord_iff (name : String) :
    isWord name = true ↔
      ∃ head tail, name.toList = head :: tail ∧ startsWord head = true ∧
        ∀ character ∈ tail, continuesWord character = true := by
  unfold isWord
  split
  · rename_i isEmpty
    rw [isEmpty]
    constructor
    · intro impossible
      cases impossible
    · rintro ⟨head, tail, impossible, _⟩
      cases impossible
  · rename_i head tail isCons
    rw [isCons, Bool.and_eq_true, List.all_eq_true]
    constructor
    · rintro ⟨starts, continues⟩
      exact ⟨head, tail, rfl, starts, continues⟩
    · rintro ⟨_, _, same, starts, continues⟩
      cases same
      exact ⟨starts, continues⟩

def Token.SpellsWord (token : Token) : Prop :=
  ∀ name, token.word? = some name → isWord name = true

private theorem Token.spellsWord_of_ofMark? {mark : Char} {token : Token}
    (marked : Token.ofMark? mark = some token) : token.SpellsWord := by
  intro name spelled
  unfold Token.ofMark? at marked
  split at marked <;> cases marked <;> cases spelled

private theorem Cursor.spellsWord_of_next {cursor after : Cursor}
    {lexeme : Lexeme}
    (met : cursor.next = .lexeme lexeme after) : lexeme.token.SpellsWord := by
  unfold Cursor.next at met
  simp only at met
  split at met
  · cases met
  · rename_i head tail _
    split at met
    · rename_i starts
      cases met
      intro name spelled
      rw [Token.word?_ofWord] at spelled
      rw [← Option.some.inj spelled, isWord_iff]
      refine
        ⟨head, tail.takeWhile continuesWord, String.toList_ofList, starts, ?_⟩
      intro character member
      exact List.all_eq_true.mp List.all_takeWhile character member
    · split at met
      · rename_i token marked
        cases met
        exact Token.spellsWord_of_ofMark? marked
      · cases met

theorem spellsWord_of_tokenize {source : String} {tokenization : Tokenization}
    (tokenized : tokenize source = .ok tokenization) :
    ∀ lexeme ∈ tokenization.lexemes, lexeme.token.SpellsWord :=
  Cursor.forall_mem_of_tokenize (fun _ _ _ met => Cursor.spellsWord_of_next met)
    tokenized

namespace Cursor

theorem tokenize_of_next_eq_ended {cursor : Cursor} {size : Nat}
    (met : cursor.next = .ended size) :
    cursor.tokenize =
      .ok
        { lexemes := []
          size := size } := by
  rw [tokenize]
  split
  · rename_i other found
    rw [met] at found
    cases found
    rfl
  · rename_i found
    rw [met] at found
    cases found
  · rename_i found
    rw [met] at found
    cases found

theorem tokenize_of_next_eq_lexeme {cursor after : Cursor} {lexeme : Lexeme}
    (met : cursor.next = .lexeme lexeme after) :
    cursor.tokenize = after.tokenize.map (Tokenization.cons lexeme) := by
  rw [tokenize]
  split
  · rename_i found
    rw [met] at found
    cases found
  · rename_i found
    rw [met] at found
    cases found
  · rename_i found
    rw [met] at found
    cases found
    rfl

theorem tokenize_of_next_eq_fault {cursor after : Cursor}
    {error : LexicalError} (met : cursor.next = .fault error after) :
    cursor.tokenize = .error error := by
  rw [tokenize]
  split
  · rename_i found
    rw [met] at found
    cases found
  · rename_i found
    rw [met] at found
    cases found
    rfl
  · rename_i found
    rw [met] at found
    cases found

theorem tokenize_congr {left right : Cursor} (same : left.next = right.next) :
    left.tokenize = right.tokenize := by
  cases met : right.next with
  | lexeme lexeme after =>
      rw [tokenize_of_next_eq_lexeme met,
        tokenize_of_next_eq_lexeme (same.trans met)]
  | fault error after =>
      rw [tokenize_of_next_eq_fault met,
        tokenize_of_next_eq_fault (same.trans met)]
  | ended size =>
      rw [tokenize_of_next_eq_ended met,
        tokenize_of_next_eq_ended (same.trans met)]

theorem skipLayout_cons_of_isBlank {character : Char} (offset : Nat)
    (rest : List Char) (blank : isBlank character = true) :
    skipLayout { offset := offset, rest := character :: rest } =
      skipLayout
        { offset := offset + character.utf8Size, rest := rest } := by
  have split :
      splitLayout false (character :: rest) =
        (character :: (splitLayout false rest).1,
          (splitLayout false rest).2) := by
    rw [splitLayout]
    simp only [Bool.false_eq_true, if_false, blank, if_true]
  simp only [skipLayout, past, split, byteSize_cons, Nat.add_assoc]

theorem skipLayout_cons_of_not_isBlank {character : Char} (offset : Nat)
    (rest : List Char) (notBlank : isBlank character = false)
    (notDash : character ≠ '-') :
    skipLayout { offset := offset, rest := character :: rest } =
      { offset := offset, rest := character :: rest } := by
  have split :
      splitLayout false (character :: rest) = ([], character :: rest) := by
    rw [splitLayout]
    simp only [Bool.false_eq_true, if_false, notBlank,
      beq_eq_false_iff_ne.mpr notDash, Bool.false_and]
  simp only [skipLayout, past, split, byteSize_nil, Nat.add_zero]

theorem next_cons_of_isBlank {character : Char} (offset : Nat)
    (rest : List Char) (blank : isBlank character = true) :
    next { offset := offset, rest := character :: rest } =
      next { offset := offset + character.utf8Size, rest := rest } := by
  unfold next
  rw [skipLayout_cons_of_isBlank offset rest blank]

theorem next_cons_of_ofMark? {mark : Char} {token : Token} (offset : Nat)
    (rest : List Char) (marked : Token.ofMark? mark = some token) :
    next { offset := offset, rest := mark :: rest } =
      .lexeme
        { token := token
          span := { start := offset, stop := offset + byteSize [mark] } }
        { offset := offset + byteSize [mark], rest := rest } := by
  have marksStandAlone :
      isBlank mark = false ∧ mark ≠ '-' ∧ startsWord mark = false := by
    unfold Token.ofMark? at marked
    split at marked <;> cases marked <;> decide
  obtain ⟨notBlank, notDash, startsNone⟩ := marksStandAlone
  unfold next
  rw [skipLayout_cons_of_not_isBlank offset rest notBlank notDash]
  simp only [startsNone, Bool.false_eq_true, if_false, marked, span, past]

/-- The character that follows a text, if any, does not continue a word. -/
def EndsWord (rest : List Char) : Prop :=
  ∀ character ∈ rest.head?, continuesWord character = false

theorem takeWhile_append_of_endsWord {tail rest : List Char}
    (continues : ∀ character ∈ tail, continuesWord character = true)
    (ends : EndsWord rest) :
    (tail ++ rest).takeWhile continuesWord = tail ∧
      (tail ++ rest).dropWhile continuesWord = rest := by
  rw [List.takeWhile_append_of_pos continues,
    List.dropWhile_append_of_pos continues]
  cases rest with
  | nil =>
      simp
  | cons first others =>
      have stops : continuesWord first = false := ends first rfl
      simp [stops]

private theorem not_layout_of_startsWord {head : Char}
    (starts : startsWord head = true) :
    isBlank head = false ∧ head ≠ '-' := by
  constructor
  · cases blank : isBlank head with
    | false => rfl
    | true =>
        simp only [isBlank, Bool.or_eq_true, beq_iff_eq] at blank
        rcases blank with (((rfl | rfl) | rfl) | rfl) | rfl <;>
          exact absurd starts (by decide)
  · rintro rfl
    exact absurd starts (by decide)

theorem next_append_of_isWord {name : String} (offset : Nat)
    (rest : List Char) (word : isWord name = true) (ends : EndsWord rest) :
    next { offset := offset, rest := name.toList ++ rest } =
      .lexeme
        { token := .ofWord name
          span :=
            { start := offset, stop := offset + byteSize name.toList } }
        { offset := offset + byteSize name.toList, rest := rest } := by
  obtain ⟨head, tail, spelled, starts, continues⟩ := (isWord_iff name).mp word
  obtain ⟨notBlank, notDash⟩ := not_layout_of_startsWord starts
  obtain ⟨taken, dropped⟩ := takeWhile_append_of_endsWord continues ends
  have named : String.ofList (head :: tail) = name := by
    rw [← spelled, String.ofList_toList]
  rw [spelled, List.cons_append]
  unfold next
  rw [skipLayout_cons_of_not_isBlank offset _ notBlank notDash]
  simp only [starts, if_true, taken, dropped, named, span, past]

end Cursor

/-- Cutting the text gives the tokens, wherever in a source the text stands. -/
def CutsInto (text : List Char) (tokens : List Token) : Prop :=
  ∀ offset, ∃ tokenization,
    Cursor.tokenize { offset := offset, rest := text } = .ok tokenization ∧
      tokenization.lexemes.map Lexeme.token = tokens

namespace CutsInto

variable {rest : List Char} {tokens : List Token}

theorem nil : CutsInto [] [] := by
  intro offset
  exact ⟨_, Cursor.tokenize_of_next_eq_ended rfl, rfl⟩

theorem of_next {text : List Char} {token : Token}
    (met : ∀ offset, ∃ span after,
      Cursor.next { offset := offset, rest := text } =
        .lexeme
          { token := token, span := span }
          { offset := after, rest := rest })
    (cut : CutsInto rest tokens) : CutsInto text (token :: tokens) := by
  intro offset
  obtain ⟨span, after, here⟩ := met offset
  obtain ⟨others, tokenized, same⟩ := cut after
  refine ⟨others.cons { token := token, span := span }, ?_, ?_⟩
  · rw [Cursor.tokenize_of_next_eq_lexeme here, tokenized]
    rfl
  · rw [Tokenization.cons, List.map_cons, same]

theorem blank {character : Char} (isBlank : isBlank character = true)
    (cut : CutsInto rest tokens) : CutsInto (character :: rest) tokens := by
  intro offset
  rw [Cursor.tokenize_congr (Cursor.next_cons_of_isBlank offset rest isBlank)]
  exact cut (offset + character.utf8Size)

theorem mark {character : Char} {token : Token}
    (marked : Token.ofMark? character = some token)
    (cut : CutsInto rest tokens) :
    CutsInto (character :: rest) (token :: tokens) := by
  apply of_next _ cut
  intro offset
  exact ⟨_, _, Cursor.next_cons_of_ofMark? offset rest marked⟩

theorem word {name : String} (isWord : isWord name = true)
    (ends : Cursor.EndsWord rest) (cut : CutsInto rest tokens) :
    CutsInto (name.toList ++ rest) (.ofWord name :: tokens) := by
  apply of_next _ cut
  intro offset
  exact ⟨_, _, Cursor.next_append_of_isWord offset rest isWord ends⟩

end CutsInto

/-! ### Pieces of a text -/

theorem Cursor.EndsWord.nil : EndsWord [] := by
  intro character absent
  cases absent

theorem Cursor.EndsWord.cons {first : Char} (rest : List Char)
    (stops : continuesWord first = false) : EndsWord (first :: rest) := by
  intro character isFirst
  cases isFirst
  exact stops

theorem Cursor.EndsWord.append {left right : List Char}
    (leftEnds : EndsWord left) (rightEnds : EndsWord right) :
    EndsWord (left ++ right) := by
  cases left with
  | nil => exact rightEnds
  | cons first others => exact leftEnds

/-- In front of anything that does not continue a word, the piece is cut into
the tokens. -/
def Spells (piece : List Char) (written : List Token) : Prop :=
  ∀ rest tokens, Cursor.EndsWord rest → CutsInto rest tokens →
    CutsInto (piece ++ rest) (written ++ tokens)

namespace Spells

variable {left right : List Char} {leftTokens rightTokens : List Token}

theorem nil : Spells [] [] := by
  intro rest tokens ends cut
  exact cut

theorem word {name : String} (isWord : isWord name = true) :
    Spells name.toList [.ofWord name] := by
  intro rest tokens ends cut
  exact cut.word isWord ends

theorem append (leftSpells : Spells left leftTokens)
    (rightEnds : Cursor.EndsWord right)
    (rightSpells : Spells right rightTokens) :
    Spells (left ++ right) (leftTokens ++ rightTokens) := by
  intro rest tokens ends cut
  rw [List.append_assoc, List.append_assoc]
  exact leftSpells _ _ (rightEnds.append ends)
    (rightSpells rest tokens ends cut)

theorem mark {character : Char} {token : Token}
    (marked : Token.ofMark? character = some token)
    (spells : Spells right rightTokens) :
    Spells (character :: right) (token :: rightTokens) := by
  intro rest tokens ends cut
  exact (spells rest tokens ends cut).mark marked

theorem blank {character : Char} (isBlank : isBlank character = true)
    (spells : Spells right rightTokens) :
    Spells (character :: right) rightTokens := by
  intro rest tokens ends cut
  exact (spells rest tokens ends cut).blank isBlank

theorem space (spells : Spells right rightTokens) :
    Spells (' ' :: right) rightTokens :=
  spells.blank (by decide)

/-- Items with a separator between any two neighbours.  Anything may follow the
separator, so the next item need not be kept off from it. -/
theorem intercalate {Item : Type} {text : Item → List Char}
    {write : Item → List Token} {separator : List Char} {token : Token}
    (separatorEnds : ∀ rest, Cursor.EndsWord (separator ++ rest))
    (separates : ∀ rest tokens, CutsInto rest tokens →
      CutsInto (separator ++ rest) (token :: tokens))
    (items : List Item)
    (spells : ∀ item ∈ items, Spells (text item) (write item)) :
    Spells (List.intercalate separator (items.map text))
      (List.intercalate [token] (items.map write)) := by
  induction items with
  | nil => exact nil
  | cons first others ih =>
      obtain ⟨firstSpells, othersSpell⟩ := List.forall_mem_cons.mp spells
      cases others with
      | nil =>
          simpa only [List.map_singleton, List.intercalate_singleton] using
            firstSpells
      | cons second further =>
          intro rest tokens ends cut
          have remaining := ih othersSpell rest tokens ends cut
          simp only [List.map_cons, List.intercalate_cons_cons,
            List.append_assoc, List.singleton_append] at remaining ⊢
          exact firstSpells _ _ (separatorEnds _)
            (separates _ _ remaining)

theorem flatMap {Item : Type} {text : Item → List Char}
    {write : Item → List Token} (items : List Item)
    (ends : ∀ item ∈ items, Cursor.EndsWord (text item))
    (spells : ∀ item ∈ items, Spells (text item) (write item)) :
    Cursor.EndsWord (items.flatMap text) ∧
      Spells (items.flatMap text) (items.flatMap write) := by
  induction items with
  | nil => exact ⟨.nil, nil⟩
  | cons first others ih =>
      obtain ⟨firstEnds, othersEnd⟩ := List.forall_mem_cons.mp ends
      obtain ⟨firstSpells, othersSpell⟩ := List.forall_mem_cons.mp spells
      obtain ⟨restEnds, restSpells⟩ := ih othersEnd othersSpell
      rw [List.flatMap_cons, List.flatMap_cons]
      exact ⟨firstEnds.append restEnds, firstSpells.append restEnds restSpells⟩

end Spells

theorem tokenize_of_spells {source : String} {tokens : List Token}
    (spells : Spells source.toList tokens) :
    ∃ tokenization, tokenize source = .ok tokenization ∧
      tokenization.lexemes.map Lexeme.token = tokens := by
  have cut := spells [] [] .nil .nil
  rw [List.append_nil, List.append_nil] at cut
  exact cut 0

/-- The tokens of a source without their places. -/
def tokensOf (source : String) : Except LexicalError (List Token) :=
  (tokenize source).map fun tokenization =>
    tokenization.lexemes.map Lexeme.token

theorem tokensOf_eq_ok_iff (source : String) (tokens : List Token) :
    tokensOf source = .ok tokens ↔
      ∃ tokenization, tokenize source = .ok tokenization ∧
        tokenization.lexemes.map Lexeme.token = tokens := by
  unfold tokensOf
  cases tokenize source with
  | error error => simp [Except.map]
  | ok tokenization => simp [Except.map]

end Asdl
