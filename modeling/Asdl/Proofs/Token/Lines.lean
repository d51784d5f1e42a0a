/-
Sources one above the other.

No token and no comment reaches over a line feed, and a step looks at nothing
in front of its cursor.  So a line feed between two sources lets each of them be
cut on its own: the lexemes of the lower one follow those of the upper one, as
many bytes further on as the upper one and the line feed take, and a fault in
the upper one comes first.
-/

import Asdl.Proofs.Token.Insertion
import Asdl.Proofs.Token.Recovery

namespace Asdl

def Located.shift {Fault : Type} (distance : Nat) (located : Located Fault) :
    Located Fault :=
  { fault := located.fault
    span :=
      { start := distance + located.span.start
        stop := distance + located.span.stop } }

def Tokenization.shift (distance : Nat) (tokenization : Tokenization) :
    Tokenization :=
  { lexemes := tokenization.lexemes.map (Lexeme.shift distance)
    size := distance + tokenization.size }

private theorem Tokenization.toList_shift (distance : Nat)
    (tokenization : Tokenization) :
    (tokenization.shift distance).toList =
      tokenization.toList.map (Lexeme.shift distance) := by
  rw [toList, toList, List.map_append]
  rfl

namespace Cursor

def shift (distance : Nat) (cursor : Cursor) : Cursor :=
  { offset := distance + cursor.offset
    rest := cursor.rest }

def Step.shift (distance : Nat) : Step → Step
  | lexeme met after => lexeme (met.shift distance) (after.shift distance)
  | fault error after => fault (error.shift distance) (after.shift distance)
  | ended size => ended (distance + size)

private theorem skipLayout_shift (distance : Nat) (cursor : Cursor) :
    (cursor.shift distance).skipLayout =
      cursor.skipLayout.shift distance := by
  simp only [skipLayout, past, shift, Nat.add_assoc]

theorem next_shift (distance : Nat) (cursor : Cursor) :
    (cursor.shift distance).next = cursor.next.shift distance := by
  have moved (text rest : List Char) (here : Cursor) :
      (here.shift distance).past text rest =
        (here.past text rest).shift distance := by
    simp only [past, shift, Nat.add_assoc]
  have spanned (text : List Char) (here : Cursor) :
      (here.shift distance).span text =
        { start := distance + (here.span text).start
          stop := distance + (here.span text).stop } := by
    simp only [span, shift, Nat.add_assoc]
  unfold next
  rw [skipLayout_shift]
  simp only [moved, spanned]
  generalize cursor.skipLayout = here
  obtain ⟨offset, rest⟩ := here
  cases rest with
  | nil => rfl
  | cons head tail =>
      cases starts : startsWord head with
      | true =>
          simp only [shift, starts, if_true]
          rfl
      | false =>
          simp only [shift, starts, Bool.false_eq_true, if_false]
          cases Token.ofMark? head with
          | none => rfl
          | some token => rfl

private theorem tokenize_shift (distance : Nat) (cursor : Cursor) :
    (cursor.shift distance).tokenize =
      match cursor.tokenize with
      | .error error => .error (error.shift distance)
      | .ok tokenization => .ok (tokenization.shift distance) := by
  fun_induction tokenize cursor with
  | case1 cursor size met =>
      have metThere := cursor.next_shift distance
      rw [met] at metThere
      exact tokenize_of_next_eq_ended metThere
  | case2 cursor error after met =>
      have metThere := cursor.next_shift distance
      rw [met] at metThere
      exact tokenize_of_next_eq_fault metThere
  | case3 cursor lexeme after met ih =>
      have metThere := cursor.next_shift distance
      rw [met] at metThere
      rw [tokenize_of_next_eq_lexeme metThere, ih]
      cases after.tokenize with
      | error error => rfl
      | ok others => rfl

end Cursor

/-! ### One step above a line feed -/

private theorem Layout.before_lineFeed {gap : List Char}
    (layout : Layout gap [])
    (lower : List Char) : Layout gap ('\n' :: lower) := by
  generalize atEnd : ([] : List Char) = behind at layout
  induction layout with
  | nil _ => exact .nil _
  | blank blank rest ih => exact .blank blank (ih atEnd)
  | @comment body gap behind sameLine ends rest ih =>
      refine .comment sameLine ?_ (ih atEnd)
      cases gap with
      | nil => exact .lineFeed lower
      | cons first others => exact ends.of_head?_eq rfl

namespace Cursor

/-- The text above a line feed and another text. -/
def above (lower : List Char) (cursor : Cursor) : Cursor :=
  { offset := cursor.offset
    rest := cursor.rest ++ '\n' :: lower }

theorem Meets.above {cursor after : Cursor} {lexeme : Lexeme}
    (meets : Meets cursor lexeme after) (lower : List Char) :
    Meets (cursor.above lower) lexeme (after.above lower) := by
  have lineFeedEnds : EndsWord ('\n' :: lower) := .cons lower (by decide)
  have stillEnds (word : lexeme.token.word? ≠ none) :
      EndsWord (after.rest ++ '\n' :: lower) :=
    (meets.endsWord word).append lineFeedEnds
  obtain ⟨front, split, _, meetsStill⟩ := meets.exists_before stillEnds
  rw [Cursor.above, split, List.append_assoc]
  exact meetsStill

theorem Trips.above {cursor after : Cursor} {error : LexicalError}
    (trips : Trips cursor error after) (lower : List Char) :
    Trips (cursor.above lower) error (after.above lower) := by
  obtain ⟨gap, character, text, layout, stray, quotes, starts, stops,
    behind⟩ := trips
  have stillStray : Stray character (after.rest ++ '\n' :: lower) := by
    refine { stray with noComment := ?_ }
    intro isDash
    cases isRest : after.rest with
    | nil => simp
    | cons first others =>
        have noComment := stray.noComment isDash
        rwa [isRest] at noComment
  refine
    ⟨gap, character, ?_, layout.of_head?_eq rfl, stillStray, quotes, starts,
      stops, behind⟩
  rw [Cursor.above, text, List.append_assoc]
  rfl

private theorem splitLayout_of_stray {character : Char} {behind : List Char}
    (stray : Stray character behind) :
    splitLayout false (character :: behind) = ([], character :: behind) := by
  have noComment :
      (character == '-' && behind.head? == some '-') = false := by
    by_cases isDash : character = '-'
    · simp [isDash, stray.noComment isDash]
    · simp [isDash]
  rw [splitLayout]
  simp only [Bool.false_eq_true, if_false, stray.notBlank, noComment]

private theorem ofMark?_of_stray {character : Char} {behind : List Char}
    (stray : Stray character behind) : Token.ofMark? character = none := by
  have noMark := stray.noMark
  simp only [marks, List.mem_cons, List.not_mem_nil, or_false, not_or] at noMark
  simp [Token.ofMark?, noMark]

private theorem next_of_trips {cursor after : Cursor} {error : LexicalError}
    (trips : Trips cursor error after) : cursor.next = .fault error after := by
  obtain ⟨gap, character, text, layout, stray, quotes, starts, stops,
    behind⟩ := trips
  obtain ⟨offset, whole⟩ := cursor
  obtain ⟨fault, start, stop⟩ := error
  obtain ⟨afterOffset, rest⟩ := after
  simp only at text layout stray quotes starts stops behind
  subst text quotes starts stops behind
  rw [next_append_of_layout layout]
  simp only [next, skipLayout, splitLayout_of_stray stray, past, stray.noWord,
    Bool.false_eq_true, if_false, ofMark?_of_stray stray, span, byteSize_nil,
    byteSize_cons, Nat.add_zero]

/-- A step that finds nothing more above the line feed goes on below it; any
other step is the same as without what is below. -/
theorem next_above (lower : List Char) (cursor : Cursor) :
    (cursor.above lower).next =
      match cursor.next with
      | .lexeme lexeme after => .lexeme lexeme (after.above lower)
      | .fault error after => .fault error (after.above lower)
      | .ended size => next { offset := size + 1, rest := lower } := by
  cases met : cursor.next with
  | lexeme lexeme after => exact next_of_meets ((meets_of_next met).above lower)
  | fault error after => exact next_of_trips ((trips_of_next met).above lower)
  | ended size =>
      obtain ⟨layout, rfl⟩ := (next_eq_ended_iff cursor size).mp met
      rw [above, next_append_of_layout (layout.before_lineFeed lower),
        next_cons_of_isBlank _ lower (by decide)]
      rfl

end Cursor

def Tokenization.append (upper lower : Tokenization) : Tokenization :=
  { lexemes := upper.lexemes ++ lower.lexemes
    size := lower.size }

theorem Tokenization.toList_append (upper lower : Tokenization) :
    (upper.append lower).toList = upper.toList.dropLast ++ lower.toList := by
  rw [toList, toList, toList, List.dropLast_concat, append, List.append_assoc]

namespace Cursor

/-- Whatever is cut above the line feed comes first; what is below is cut from
where it stands. -/
theorem tokenize_above (lower : List Char) (cursor : Cursor) :
    (cursor.above lower).tokenize =
      match cursor.tokenize with
      | .error error => .error error
      | .ok upper =>
          (tokenize { offset := upper.size + 1, rest := lower }).map
            upper.append := by
  fun_induction tokenize cursor with
  | case1 cursor size met =>
      have metStill := cursor.next_above lower
      rw [met] at metStill
      rw [tokenize_congr metStill]
      simp only
      cases tokenize { offset := size + 1, rest := lower } with
      | error error => rfl
      | ok others => rfl
  | case2 cursor error after met =>
      have metStill := cursor.next_above lower
      rw [met] at metStill
      exact tokenize_of_next_eq_fault metStill
  | case3 cursor lexeme after met ih =>
      have metStill := cursor.next_above lower
      rw [met] at metStill
      rw [tokenize_of_next_eq_lexeme metStill, ih]
      cases after.tokenize with
      | error error => rfl
      | ok upper =>
          simp only [Except.map, Tokenization.cons]
          cases tokenize { offset := upper.size + 1, rest := lower } with
          | error error => rfl
          | ok others => rfl

end Cursor

/-- Two sources with a line feed between them are cut as each is cut on its own.
The end of the upper one is left out, and what is met in the lower one is moved
by the upper one and the line feed; the first fault is that of the upper one, if
it has one. -/
theorem tokenize_lines (upper lower : String) :
    (tokenize (upper ++ "\n" ++ lower)).map Tokenization.toList =
      match tokenize upper, tokenize lower with
      | .error error, _ => .error error
      | .ok _, .error error => .error (error.shift (upper.utf8ByteSize + 1))
      | .ok above, .ok below =>
          .ok
            (above.toList.dropLast ++
              below.toList.map (Lexeme.shift (upper.utf8ByteSize + 1))) := by
  have stands :
      Cursor.ofSource (upper ++ "\n" ++ lower) =
        (Cursor.ofSource upper).above lower.toList := by
    simp [Cursor.ofSource, Cursor.above]
  simp only [tokenize, stands, Cursor.tokenize_above]
  cases cut : (Cursor.ofSource upper).tokenize with
  | error error => rfl
  | ok above =>
      have isSize : above.size = upper.utf8ByteSize := by
        obtain ⟨_, atEnd⟩ := Cursor.decomposes_of_tokenize cut
        rw [atEnd, ← byteSize_toList]
        exact Nat.zero_add _
      have moved :
          Cursor.mk (above.size + 1) lower.toList =
            (Cursor.ofSource lower).shift (upper.utf8ByteSize + 1) := by
        rw [isSize]
        rfl
      simp only [moved, Cursor.tokenize_shift]
      cases (Cursor.ofSource lower).tokenize with
      | error error => rfl
      | ok below =>
          simp only [Except.map, Tokenization.toList_append,
            Tokenization.toList_shift]

end Asdl
