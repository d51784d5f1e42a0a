/-
Layout between tokens has no meaning.

Layout that is inserted at a border of a lexeme moves the lexemes behind it and
changes nothing else, and a reader moves on tokens alone.  So a source and the
same source with more layout write down the same description up to ranges, or
are refused with the same fault at the same token.
-/

import Asdl.Proofs.Concrete.Refusal
import Asdl.Proofs.Module.Printable
import Asdl.Proofs.Token.Insertion

namespace Asdl

open Concrete (SameReading)

theorem Module.eraseSpans_ofConcrete {tree : Concrete.Module}
    (wellFormed : tree.WellFormed) :
    (ofConcrete tree).eraseSpans = ofConcrete tree.eraseSpans := by
  rw [← ofConcrete_toConcrete, toConcrete_ofConcrete wellFormed]

private theorem Module.sameReading_ofConcrete {left right : String}
    {leftLexemes rightLexemes : List Lexeme}
    (same :
      SameReading Concrete.Module.eraseSpans leftLexemes rightLexemes
        (Concrete.Module.parse left) (Concrete.Module.parse right)) :
    SameReading Module.eraseSpans leftLexemes rightLexemes
      (Module.parse left) (Module.parse right) := by
  rw [Module.parse, Module.parse]
  generalize leftRead : Concrete.Module.parse left = leftOutcome at same ⊢
  generalize rightRead : Concrete.Module.parse right = rightOutcome at same ⊢
  cases same with
  | read sameTree =>
      apply SameReading.read
      rw [eraseSpans_ofConcrete (Concrete.Module.wellFormed_of_parse leftRead),
        eraseSpans_ofConcrete (Concrete.Module.wellFormed_of_parse rightRead),
        sameTree]
  | refused fault place leftPlaced rightPlaced =>
      exact .refused fault place leftPlaced rightPlaced

/-- Layout at a border of a lexeme, the end of the input included, moves the
lexemes behind it by its length and leaves what is read, or why it is not. -/
theorem Module.sameReading_of_inserted_layout {source : String}
    {tokenization : Tokenization}
    (tokenized : tokenize source = .ok tokenization) {lexeme : Lexeme}
    (member : lexeme ∈ tokenization.toList) {offset : Nat}
    (atBorder : offset = lexeme.span.start ∨ offset = lexeme.span.stop)
    {layout : String} (whole : WholeLayout layout.toList) :
    ∃ front back displaced,
      source = front ++ back ∧ offset = front.utf8ByteSize ∧
        tokenize (front ++ layout ++ back) = .ok displaced ∧
        displaced.toList =
          tokenization.toList.map
            (Lexeme.displace offset layout.utf8ByteSize) ∧
        SameReading Module.eraseSpans tokenization.toList displaced.toList
          (Module.parse source) (Module.parse (front ++ layout ++ back)) := by
  obtain ⟨front, back, displaced, split, isOffset, cut, moved⟩ :=
    tokenize_insert tokenized member atBorder whole
  have sameTokens :
      tokenization.toList.map Lexeme.token =
        displaced.toList.map Lexeme.token := by
    rw [moved, List.map_map]
    exact List.map_congr_left fun _ _ => (Lexeme.token_displace _ _ _).symm
  refine ⟨front, back, displaced, split, isOffset, cut, moved, ?_⟩
  apply Module.sameReading_ofConcrete
  exact Concrete.Module.sameReading_of_tokenize tokenized cut sameTokens

def Module.trailingText : String :=
  "module M \x7b\x7d --é"

def Module.trailingCut : Tokenization :=
  { lexemes :=
      [⟨.moduleKeyword, ⟨0, 6⟩⟩, ⟨.identifier "M", ⟨7, 8⟩⟩,
        ⟨.leftBrace, ⟨9, 10⟩⟩, ⟨.rightBrace, ⟨10, 11⟩⟩]
    size := 16 }

/-- The comment takes the first line of what is put behind it. -/
theorem Module.sameReading_behind_comment :
    tokenize Module.trailingText = .ok Module.trailingCut ∧
      ∃ front back displaced,
        Module.trailingText = front ++ back ∧ 16 = front.utf8ByteSize ∧
          tokenize (front ++ " \n--è\n" ++ back) = .ok displaced ∧
          displaced.lexemes = Module.trailingCut.lexemes ∧
          SameReading Module.eraseSpans Module.trailingCut.toList
            displaced.toList (Module.parse Module.trailingText)
            (Module.parse (front ++ " \n--è\n" ++ back)) := by
  have tokenized :
      tokenize Module.trailingText = .ok Module.trailingCut := by
    decide +kernel
  have isEnd : Lexeme.endOfInput 16 ∈ Module.trailingCut.toList := by decide
  have sameLine : '\n' ∉ ['è'] := by decide
  have comment : WholeLayout (" \n--è\n" : String).toList :=
    .blank rfl (.blank rfl (.comment sameLine .nil))
  obtain ⟨front, back, displaced, split, isOffset, cut, moved, same⟩ :=
    Module.sameReading_of_inserted_layout tokenized isEnd (.inl rfl) comment
  refine ⟨tokenized, front, back, displaced, split, isOffset, cut, ?_, same⟩
  have unmoved := congrArg List.dropLast moved
  rw [Tokenization.toList, List.dropLast_concat] at unmoved
  exact unmoved

end Asdl
