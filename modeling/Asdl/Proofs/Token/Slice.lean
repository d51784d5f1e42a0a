/-
Runs of lexemes and the part of a source that they take.

The lexemes of a source come in the order of their ranges.  Some lexemes one
behind the other take a slice of the source, from the start of the first to the
end of the last, and the slice on its own is cut into the same lexemes: neither
a word nor a comment can reach over the ends of the slice.
-/

import Asdl.Proofs.Token.Decomposition

namespace Asdl

/-- The range begins and ends between two characters of the source, or at one
of its ends, and the text stands there. -/
def Span.Selects (span : Span) (source text : String) : Prop :=
  ∃ front behind : String,
    source = front ++ text ++ behind ∧ span.start = front.utf8ByteSize ∧
      span.stop = (front ++ text).utf8ByteSize

def Lexeme.shift (distance : Nat) (lexeme : Lexeme) : Lexeme :=
  { token := lexeme.token
    span :=
      { start := distance + lexeme.span.start
        stop := distance + lexeme.span.stop } }

/-- Each lexeme ends before the later ones start. -/
structure Lexeme.Ordered (lexemes : List Lexeme) : Prop where
  apart :
    lexemes.Pairwise fun earlier later =>
      earlier.span.stop ≤ later.span.start
  forwards : ∀ lexeme ∈ lexemes, lexeme.span.start ≤ lexeme.span.stop

theorem Lexeme.Ordered.of_infix {own lexemes : List Lexeme}
    (ordered : Ordered lexemes) (inside : own <:+: lexemes) : Ordered own :=
  { apart := ordered.apart.sublist inside.sublist
    forwards := fun lexeme member =>
      ordered.forwards lexeme (inside.subset member) }

/-- The range begins with the first lexeme and ends with the last one. -/
def Span.Marks (span : Span) (lexemes : List Lexeme) : Prop :=
  ∃ first last,
    lexemes.head? = some first ∧ lexemes.getLast? = some last ∧
      span.start = first.span.start ∧ span.stop = last.span.stop

theorem Span.Marks.singleton (lexeme : Lexeme) :
    lexeme.span.Marks [lexeme] :=
  ⟨lexeme, lexeme, rfl, rfl, rfl, rfl⟩

theorem Span.cover_self (span : Span) : span.cover span = span := by
  simp only [Span.cover, Nat.min_self, Nat.max_self]

/-- Whatever stands between, two ranges in order are covered from the start of
the one to the end of the other. -/
theorem Span.Marks.cover {left right : Span} {front back : List Lexeme}
    (middle : List Lexeme) (leftMarks : left.Marks front)
    (rightMarks : right.Marks back)
    (ordered : Lexeme.Ordered (front ++ (middle ++ back))) :
    (left.cover right).Marks (front ++ (middle ++ back)) := by
  obtain ⟨first, frontLast, isFirst, isFrontLast, starts, frontStops⟩ :=
    leftMarks
  obtain ⟨backFirst, last, isBackFirst, isLast, backStarts, stops⟩ :=
    rightMarks
  have inFront {lexeme : Lexeme} (member : lexeme ∈ front) :
      lexeme.span.start ≤ lexeme.span.stop :=
    ordered.forwards lexeme (List.mem_append_left _ member)
  have inBack {lexeme : Lexeme} (member : lexeme ∈ back) :
      lexeme.span.start ≤ lexeme.span.stop :=
    ordered.forwards lexeme
      (List.mem_append_right _ (List.mem_append_right _ member))
  have before {early late : Lexeme} (isEarly : early ∈ front)
      (isLate : late ∈ back) : early.span.stop ≤ late.span.start :=
    (List.pairwise_append.mp ordered.apart).2.2 early isEarly late
      (List.mem_append_right _ isLate)
  have firstMember := List.mem_of_head? isFirst
  have lastMember := List.mem_of_getLast? isLast
  have startsFirst :=
    before firstMember (List.mem_of_head? isBackFirst)
  have stopsLast := before (List.mem_of_getLast? isFrontLast) lastMember
  have firstForwards := inFront firstMember
  have lastForwards := inBack lastMember
  refine ⟨first, last, ?_, ?_, ?_, ?_⟩
  · rw [List.head?_append, isFirst, Option.some_or]
  · rw [List.getLast?_append, List.getLast?_append, isLast, Option.some_or,
      Option.some_or]
  · simp only [Span.cover]
    omega
  · simp only [Span.cover]
    omega

theorem Span.Marks.within {outer inner : Span} {lexemes own : List Lexeme}
    (outerMarks : outer.Marks lexemes) (innerMarks : inner.Marks own)
    (ordered : Lexeme.Ordered lexemes) (inside : own <:+: lexemes) :
    outer.start ≤ inner.start ∧ inner.stop ≤ outer.stop := by
  obtain ⟨first, last, isFirst, isLast, starts, stops⟩ := outerMarks
  obtain ⟨ownFirst, ownLast, isOwnFirst, isOwnLast, ownStarts, ownStops⟩ :=
    innerMarks
  have firstMember := inside.subset (List.mem_of_head? isOwnFirst)
  have lastMember := inside.subset (List.mem_of_getLast? isOwnLast)
  constructor
  · obtain ⟨rest, rfl⟩ := List.head?_eq_some_iff.mp isFirst
    have forwards := ordered.forwards first List.mem_cons_self
    rcases List.mem_cons.mp firstMember with rfl | later
    · omega
    · have apart := (List.pairwise_cons.mp ordered.apart).1 ownFirst later
      omega
  · obtain ⟨front, rfl⟩ := List.getLast?_eq_some_iff.mp isLast
    have forwards := ordered.forwards last List.mem_concat_self
    rcases List.mem_append.mp lastMember with earlier | same
    · have apart :=
        (List.pairwise_append.mp ordered.apart).2.2 ownLast earlier last
          List.mem_cons_self
      omega
    · obtain rfl := List.mem_singleton.mp same
      omega

/-! ### Layout and words at the ends of a slice -/

theorem EndsLine.of_head?_eq {left right : List Char}
    (ends : EndsLine left) (same : left.head? = right.head?) :
    EndsLine right := by
  intro character isFirst
  exact ends character (same ▸ isFirst)

theorem Layout.of_head?_eq {gap left right : List Char}
    (layout : Layout gap left) (same : left.head? = right.head?) :
    Layout gap right := by
  induction layout with
  | nil behind => exact .nil right
  | blank blank rest ih => exact .blank blank (ih same)
  | comment sameLine ends rest ih =>
      refine .comment sameLine (ends.of_head?_eq ?_) (ih same)
      rw [List.head?_append, List.head?_append, same]

private theorem Cursor.EndsWord.of_append {left right : List Char}
    (ends : Cursor.EndsWord (left ++ right)) : Cursor.EndsWord left := by
  intro character isFirst
  apply ends character
  rw [List.head?_append, Option.mem_def.mp isFirst]
  rfl

theorem Token.IsWritten.toList_ne_nil {token : Token}
    (written : token.IsWritten) : token.text.toList ≠ [] := by
  rcases written.word_or_mark with ⟨word, _⟩ | ⟨mark, spelled, _⟩
  · obtain ⟨head, tail, spelled, _⟩ := (isWord_iff token.text).mp word
    rw [spelled]
    exact List.cons_ne_nil _ _
  · rw [spelled]
    exact List.cons_ne_nil _ _

theorem Token.IsWritten.head?_append {token : Token}
    (written : token.IsWritten) (left right : List Char) :
    (token.text.toList ++ left).head? = (token.text.toList ++ right).head? := by
  obtain ⟨head, tail, isCons⟩ :=
    List.exists_cons_of_ne_nil written.toList_ne_nil
  rw [isCons]
  rfl

theorem byteSize_eq_zero_iff (text : List Char) :
    byteSize text = 0 ↔ text = [] := by
  cases text with
  | nil => simp
  | cons character rest =>
      have positive := character.utf8Size_pos
      simp only [byteSize_cons, reduceCtorEq, iff_false]
      omega

namespace Cursor

namespace Decomposes

theorem ordered_of_le {cursor : Cursor} {lexemes : List Lexeme}
    (decomposes : cursor.Decomposes lexemes) :
    Lexeme.Ordered lexemes ∧
      ∀ lexeme ∈ lexemes, cursor.offset ≤ lexeme.span.start := by
  induction decomposes with
  | ended layout =>
      refine ⟨⟨.nil, ?_⟩, ?_⟩
      · intro lexeme absent
        cases absent
      · intro lexeme absent
        cases absent
  | lexeme meets rest ih =>
      obtain ⟨gap, text, layout, written, ends, starts, stops, behind⟩ := meets
      obtain ⟨ordered, later⟩ := ih
      refine ⟨⟨List.pairwise_cons.mpr ⟨?_, ordered.apart⟩, ?_⟩, ?_⟩
      · intro other member
        have isLater := later other member
        omega
      · rw [List.forall_mem_cons]
        exact ⟨by omega, ordered.forwards⟩
      · rw [List.forall_mem_cons]
        refine ⟨by omega, ?_⟩
        intro other member
        have isLater := later other member
        omega

theorem skip {cursor : Cursor} {own : List Lexeme} (before : List Lexeme)
    (decomposes : cursor.Decomposes (before ++ own)) :
    ∃ (front : List Char) (later : Cursor),
      cursor.rest = front ++ later.rest ∧
        later.offset = cursor.offset + byteSize front ∧
        later.Decomposes own := by
  induction before generalizing cursor with
  | nil => exact ⟨[], cursor, rfl, rfl, decomposes⟩
  | cons first others ih =>
      cases decomposes with
      | lexeme meets rest =>
          obtain ⟨gap, text, layout, written, ends, starts, stops, behind⟩ :=
            meets
          obtain ⟨front, later, split, moved, own⟩ := ih rest
          refine
            ⟨gap ++ (first.token.text.toList ++ front), later, ?_, ?_, own⟩
          · rw [text, split, List.append_assoc, List.append_assoc]
          · rw [moved, byteSize_append, byteSize_append]
            omega

private theorem trimFront {cursor : Cursor} {first : Lexeme}
    {others : List Lexeme}
    (decomposes : cursor.Decomposes (first :: others)) :
    ∃ gap text,
      cursor.rest = gap ++ text ∧
        first.span.start = cursor.offset + byteSize gap ∧
        Decomposes
          { offset := first.span.start
            rest := text } (first :: others) := by
  cases decomposes with
  | lexeme meets rest =>
      obtain ⟨gap, text, layout, written, ends, starts, stops, behind⟩ := meets
      refine ⟨gap, _, text, starts, .lexeme ?_ rest⟩
      exact ⟨[], rfl, .nil _, written, ends, rfl, stops, behind⟩

/-- Everything behind the last of some lexemes can go. -/
theorem trimBack {cursor : Cursor} {own after : List Lexeme}
    {last : Lexeme} (isLast : own.getLast? = some last)
    (decomposes : cursor.Decomposes (own ++ after)) :
    ∃ text behind,
      cursor.rest = text ++ behind ∧
        last.span.stop = cursor.offset + byteSize text ∧
        Decomposes
          { offset := cursor.offset
            rest := text } own := by
  induction own generalizing cursor with
  | nil => cases isLast
  | cons first others ih =>
      cases decomposes with
      | @lexeme _ later _ _ meets rest =>
          obtain ⟨gap, text, layout, written, ends, starts, stops, behind⟩ :=
            meets
          -- The slice ends with a token, so what follows it is of no account.
          have meetsIn (inside : List Char)
              (insideEnds :
                first.token.word? ≠ none → Cursor.EndsWord inside) :
              Meets
                { offset := cursor.offset
                  rest := gap ++ (first.token.text.toList ++ inside) }
                first
                { offset := later.offset
                  rest := inside } :=
            ⟨gap, rfl, layout.of_head?_eq (written.head?_append _ _), written,
              insideEnds, starts, stops, behind⟩
          cases others with
          | nil =>
              obtain rfl : first = last := Option.some.inj isLast
              refine
                ⟨gap ++ (first.token.text.toList ++ []), later.rest, ?_, ?_,
                  .lexeme (meetsIn [] fun _ => .nil) (.ended (.nil []))⟩
              · rw [text, List.append_nil, List.append_assoc]
              · rw [List.append_nil, byteSize_append]
                omega
          | cons second further =>
              obtain ⟨inside, outside, split, atEnd, own⟩ := ih isLast rest
              refine
                ⟨gap ++ (first.token.text.toList ++ inside), outside, ?_, ?_,
                  .lexeme (meetsIn inside ?_) own⟩
              · rw [text, split, List.append_assoc, List.append_assoc]
              · rw [atEnd, byteSize_append, byteSize_append]
                omega
              · intro word
                have insideEnds := ends word
                rw [split] at insideEnds
                exact insideEnds.of_append

private theorem rebase {cursor : Cursor} {lexemes : List Lexeme}
    (decomposes : cursor.Decomposes lexemes) {distance offset : Nat}
    (moved : cursor.offset = distance + offset) :
    ∃ own,
      Decomposes
        { offset := offset
          rest := cursor.rest } own ∧
        own.map (Lexeme.shift distance) = lexemes := by
  induction decomposes generalizing offset with
  | ended layout => exact ⟨[], .ended layout, rfl⟩
  | @lexeme cursor later lexeme others meets rest ih =>
      obtain ⟨gap, text, layout, written, ends, starts, stops, behind⟩ := meets
      let start := offset + byteSize gap
      let stop := start + byteSize lexeme.token.text.toList
      have behindMoved : later.offset = distance + stop := by omega
      obtain ⟨own, ownDecomposes, same⟩ := ih behindMoved
      have meetsHere :
          Meets
            { offset := offset
              rest := cursor.rest }
            { token := lexeme.token
              span :=
                { start := start
                  stop := stop } }
            { offset := stop
              rest := later.rest } :=
        ⟨gap, text, layout, written, ends, rfl, rfl, rfl⟩
      refine ⟨_, .lexeme meetsHere ownDecomposes, ?_⟩
      have sameStart : distance + start = lexeme.span.start := by omega
      have sameStop : distance + stop = lexeme.span.stop := by omega
      rw [List.map_cons, same]
      simp only [Lexeme.shift, sameStart, sameStop]

private theorem eq_text_of_singleton {cursor : Cursor} {lexeme : Lexeme}
    (decomposes : cursor.Decomposes [lexeme])
    (starts : lexeme.span.start = cursor.offset)
    (stops : lexeme.span.stop = cursor.offset + byteSize cursor.rest) :
    cursor.rest = lexeme.token.text.toList := by
  cases decomposes with
  | @lexeme _ later _ _ meets rest =>
      obtain ⟨gap, text, layout, written, ends, isStart, isStop, behind⟩ :=
        meets
      rw [text, byteSize_append, byteSize_append] at stops
      have noGap : gap = [] := (byteSize_eq_zero_iff gap).mp (by omega)
      have noRest : later.rest = [] :=
        (byteSize_eq_zero_iff later.rest).mp (by omega)
      rw [text, noGap, noRest, List.nil_append, List.append_nil]

end Decomposes

end Cursor

/-- The lexemes that a range marks take the slice of the source at the range,
and the slice on its own is cut into them; one lexeme takes its own text. -/
theorem exists_slice {source : String} {tokenization : Tokenization}
    (tokenized : tokenize source = .ok tokenization) {own : List Lexeme}
    (inside : own <:+: tokenization.lexemes) {span : Span}
    (marks : span.Marks own) :
    ∃ text slice,
      span.Selects source text ∧ tokenize text = .ok slice ∧
        slice.lexemes.map (Lexeme.shift span.start) = own ∧
        ∀ lexeme, own = [lexeme] → text = lexeme.token.text := by
  obtain ⟨first, last, isFirst, isLast, starts, stops⟩ := marks
  obtain ⟨before, after, whole⟩ := inside
  obtain ⟨decomposes, _⟩ := (Cursor.tokenize_eq_ok_iff _ _).mp tokenized
  rw [← whole, List.append_assoc] at decomposes
  obtain ⟨front, later, frontSplit, laterOffset, fromOwn⟩ :=
    decomposes.skip before
  obtain ⟨others, rfl⟩ : ∃ others, own = first :: others :=
    List.head?_eq_some_iff.mp isFirst
  obtain ⟨gap, rest, gapSplit, isStart, fromFirst⟩ := fromOwn.trimFront
  obtain ⟨text, behind, textSplit, isStop, onlyOwn⟩ :=
    fromFirst.trimBack isLast
  have startOffset : first.span.start = first.span.start + 0 := rfl
  obtain ⟨slice, sliceDecomposes, shifted⟩ := onlyOwn.rebase startOffset
  have sourceText :
      source.toList = front ++ gap ++ text ++ behind := by
    change (Cursor.ofSource source).rest = _
    simp only at textSplit
    rw [frontSplit, gapSplit, textSplit]
    simp only [List.append_assoc]
  simp only [Cursor.ofSource, Nat.zero_add] at laterOffset
  refine
    ⟨String.ofList text,
      { lexemes := slice
        size := 0 + byteSize text }, ?_, ?_, ?_, ?_⟩
  · refine ⟨String.ofList (front ++ gap), String.ofList behind, ?_, ?_, ?_⟩
    · rw [← String.ofList_append, ← String.ofList_append, ← sourceText,
        String.ofList_toList]
    · rw [utf8ByteSize_ofList, byteSize_append]
      omega
    · rw [← String.ofList_append, utf8ByteSize_ofList, byteSize_append,
        byteSize_append]
      simp only at isStop
      omega
  · have tokenizedText := sliceDecomposes.tokenize_eq
    rw [tokenize, Cursor.ofSource, String.toList_ofList]
    exact tokenizedText
  · rw [starts]
    exact shifted
  · intro lexeme isOnly
    cases isOnly
    cases isLast
    have sameText := onlyOwn.eq_text_of_singleton rfl isStop
    simp only at sameText
    rw [sameText, String.ofList_toList]

end Asdl
