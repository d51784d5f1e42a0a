/-
Texts that can be told apart.

Items are written legibly when two of them, with something written behind each,
make the same text only if they say the same and the same is behind them.  What
may stand behind an item is part of the matter: a word can be read off only
where no further character continues it.  Items that are legible one by one stay
legible in a row, as long as the end of the row cannot be taken for an item.
-/

import Asdl.Module
import Asdl.Proofs.Token.Spelling

namespace Asdl

open Cursor (EndsWord)

/-- In front of what may stand behind it, the text of a valid item gives away
what is seen of the item and where the text ends. -/
def Legible {Item View : Type} (valid : Item → Prop)
    (ends : List Char → Prop) (text : Item → String) (view : Item → View) :
    Prop :=
  ∀ left right leftRest rightRest, valid left → valid right →
    ends leftRest → ends rightRest →
      (text left).toList ++ leftRest = (text right).toList ++ rightRest →
        view left = view right ∧ leftRest = rightRest

theorem Legible.narrow {Item View : Type} {valid : Item → Prop}
    {ends fewer : List Char → Prop} {text : Item → String} {view : Item → View}
    (legible : Legible valid ends text view)
    (narrower : ∀ rest, fewer rest → ends rest) :
    Legible valid fewer text view := by
  intro left right leftRest rightRest leftValid rightValid leftEnds rightEnds
  exact legible left right leftRest rightRest leftValid rightValid
    (narrower leftRest leftEnds) (narrower rightRest rightEnds)

/-- The text is not empty and begins with one of the marks. -/
def BeginsWith (marks : List Char) (text : List Char) : Prop :=
  ∃ mark ∈ marks, text.head? = some mark

namespace BeginsWith

variable {marks others text : List Char}

theorem cons {mark : Char} (rest : List Char) (known : mark ∈ marks) :
    BeginsWith marks (mark :: rest) :=
  ⟨mark, known, rfl⟩

theorem append (begins : BeginsWith marks text) (rest : List Char) :
    BeginsWith marks (text ++ rest) := by
  obtain ⟨mark, known, isFirst⟩ := begins
  exact ⟨mark, known, by rw [List.head?_append, isFirst, Option.some_or]⟩

theorem mono (begins : BeginsWith marks text)
    (further : marks.all others.contains = true) : BeginsWith others text := by
  obtain ⟨mark, known, isFirst⟩ := begins
  have alsoKnown := List.all_eq_true.mp further mark known
  exact ⟨mark, List.contains_iff_mem.mp alsoKnown, isFirst⟩

theorem ne {other : List Char} (begins : BeginsWith marks text)
    (otherBegins : BeginsWith others other)
    (disjoint : marks.any others.contains = false) : text ≠ other := by
  rintro rfl
  obtain ⟨mark, known, isFirst⟩ := begins
  obtain ⟨otherMark, otherKnown, alsoFirst⟩ := otherBegins
  cases isFirst.symm.trans alsoFirst
  exact List.any_eq_false.mp disjoint mark known
    (List.contains_iff_mem.mpr otherKnown)

theorem endsWord (begins : BeginsWith marks text)
    (noWord : marks.any continuesWord = false) : EndsWord text := by
  obtain ⟨mark, known, isFirst⟩ := begins
  intro character alsoFirst
  cases isFirst.symm.trans alsoFirst
  exact Bool.eq_false_iff.mpr (List.any_eq_false.mp noWord mark known)

end BeginsWith

theorem continuesWord_of_isWord {name : String} (word : isWord name = true) :
    ∀ character ∈ name.toList, continuesWord character = true := by
  obtain ⟨head, tail, spelled, starts, continues⟩ := (isWord_iff name).mp word
  rw [spelled]
  refine List.forall_mem_cons.mpr ⟨?_, continues⟩
  simp only [startsWord, continuesWord, Char.isAlphanum, Bool.or_eq_true]
    at starts ⊢
  exact starts.imp_left Or.inl

/-- A word that nothing continues can be read off the front of a text. -/
theorem isWord_append_inj {left right : String} {leftRest rightRest : List Char}
    (leftWord : isWord left = true) (rightWord : isWord right = true)
    (leftEnds : EndsWord leftRest) (rightEnds : EndsWord rightRest)
    (same : left.toList ++ leftRest = right.toList ++ rightRest) :
    left = right ∧ leftRest = rightRest := by
  obtain ⟨leftTaken, leftDropped⟩ :=
    Cursor.takeWhile_append_of_endsWord (continuesWord_of_isWord leftWord)
      leftEnds
  obtain ⟨rightTaken, rightDropped⟩ :=
    Cursor.takeWhile_append_of_endsWord (continuesWord_of_isWord rightWord)
      rightEnds
  rw [same] at leftTaken leftDropped
  exact
    ⟨String.toList_inj.mp (leftTaken.symm.trans rightTaken),
      leftDropped.symm.trans rightDropped⟩

theorem isWord_append_ne {name : String} {marks rest text : List Char}
    (word : isWord name = true) (begins : BeginsWith marks text)
    (noWord : marks.any continuesWord = false) :
    name.toList ++ rest ≠ text := by
  rintro rfl
  obtain ⟨head, tail, spelled, _⟩ := (isWord_iff name).mp word
  obtain ⟨mark, known, isFirst⟩ := begins
  rw [spelled] at isFirst
  cases isFirst
  exact List.any_eq_false.mp noWord head known
    (continuesWord_of_isWord word head (by simp [spelled]))

namespace Cardinality

/-- What the text behind a type begins with, by the mark there, where only the
listed characters may stand behind the mark. -/
def markerBegin (marks : List Char) : Cardinality → List Char
  | single => marks
  | optional => ['?']
  | sequence => ['*']

variable {marks : List Char}

theorem begins_marker (cardinality : Cardinality) {rest : List Char}
    (behind : BeginsWith marks rest) :
    BeginsWith (cardinality.markerBegin marks)
      (cardinality.marker.toList ++ rest) := by
  cases cardinality with
  | single => exact behind
  | optional => exact .cons rest (List.mem_singleton_self '?')
  | sequence => exact .cons rest (List.mem_singleton_self '*')

theorem legible_marker (noMark : marks.any ['?', '*'].contains = false) :
    Legible (fun _ => True) (BeginsWith marks) marker id := by
  have apart : ∀ mark ∈ marks, mark ≠ '?' ∧ mark ≠ '*' := by
    simpa using noMark
  have disjoint {left right : Cardinality} (different : left ≠ right) :
      (left.markerBegin marks).any (right.markerBegin marks).contains =
        false := by
    cases left <;> cases right <;> simp [markerBegin] at different ⊢ <;> grind
  intro left right leftRest rightRest _ _ leftBehind rightBehind same
  by_cases sameMarker : left = right
  · subst sameMarker
    exact ⟨rfl, List.append_cancel_left same⟩
  · exact absurd same
      ((left.begins_marker leftBehind).ne (right.begins_marker rightBehind)
        (disjoint sameMarker))

end Cardinality

section Rows

variable {Item View : Type}

def rowText (text : Item → String) (items : List Item) : String :=
  String.join (items.map text)

private theorem toList_rowText_nil (text : Item → String) :
    (rowText text []).toList = [] :=
  rfl

theorem toList_rowText_cons (text : Item → String) (first : Item)
    (rest : List Item) :
    (rowText text (first :: rest)).toList =
      (text first).toList ++ (rowText text rest).toList := by
  rw [rowText, List.map_cons, String.join_cons, String.toList_append]
  rfl

variable {valid : Item → Prop} {ends rowEnds : List Char → Prop}
  {text : Item → String} {view : Item → View}

theorem Legible.row (legible : Legible valid ends text view)
    (follows : ∀ items rest, (∀ item ∈ items, valid item) → rowEnds rest →
      ends ((rowText text items).toList ++ rest))
    (apart : ∀ item other rest, valid item → rowEnds rest →
      (text item).toList ++ other ≠ rest) :
    Legible (fun items => ∀ item ∈ items, valid item) rowEnds (rowText text)
      (List.map view) := by
  intro left
  induction left with
  | nil =>
      intro right leftRest rightRest _ rightValid leftEnds _ same
      rw [toList_rowText_nil, List.nil_append] at same
      cases right with
      | nil => exact ⟨rfl, same⟩
      | cons item others =>
          have itemValid := (List.forall_mem_cons.mp rightValid).1
          rw [toList_rowText_cons, List.append_assoc] at same
          exact absurd same.symm (apart item _ _ itemValid leftEnds)
  | cons first rest ih =>
      intro right leftRest rightRest leftValid rightValid leftEnds rightEnds
        same
      obtain ⟨firstValid, restValid⟩ := List.forall_mem_cons.mp leftValid
      rw [toList_rowText_cons, List.append_assoc] at same
      cases right with
      | nil => exact absurd same (apart first _ _ firstValid rightEnds)
      | cons item others =>
          obtain ⟨itemValid, othersValid⟩ := List.forall_mem_cons.mp rightValid
          rw [toList_rowText_cons, List.append_assoc] at same
          obtain ⟨sameItem, behind⟩ :=
            legible first item _ _ firstValid itemValid
              (follows rest leftRest restValid leftEnds)
              (follows others rightRest othersValid rightEnds) same
          obtain ⟨sameOthers, sameRest⟩ :=
            ih others leftRest rightRest restValid othersValid leftEnds
              rightEnds behind
          rw [List.map_cons, List.map_cons, sameItem, sameOthers]
          exact ⟨rfl, sameRest⟩

end Rows

end Asdl
