/-
Going on behind characters that begin no token.

A reader that steps over every fault meets lexemes and stray characters in turn
until the end, and then the end again and again.  The lexemes are those of the
source with every stray character blanked out: a stray character neither
continues a word nor ends a comment, so blanks in its place change nothing
around it.  `tokenize` is the same reader, stopped by its first fault.
-/

import Asdl.Proofs.Token.Slice

namespace Asdl

def readingSpan : Except LexicalError Lexeme → Span
  | .ok lexeme => lexeme.span
  | .error error => error.span

def lexemesOf (trail : List (Except LexicalError Lexeme)) : List Lexeme :=
  trail.filterMap fun
    | .ok lexeme => some lexeme
    | .error _ => none

def faultsOf (trail : List (Except LexicalError Lexeme)) : List LexicalError :=
  trail.filterMap fun
    | .ok _ => none
    | .error error => some error

@[simp]
theorem lexemesOf_ok_cons (lexeme : Lexeme)
    (trail : List (Except LexicalError Lexeme)) :
    lexemesOf (.ok lexeme :: trail) = lexeme :: lexemesOf trail :=
  rfl

@[simp]
theorem lexemesOf_error_cons (error : LexicalError)
    (trail : List (Except LexicalError Lexeme)) :
    lexemesOf (.error error :: trail) = lexemesOf trail :=
  rfl

@[simp]
theorem faultsOf_nil : faultsOf [] = [] :=
  rfl

@[simp]
theorem faultsOf_ok_cons (lexeme : Lexeme)
    (trail : List (Except LexicalError Lexeme)) :
    faultsOf (.ok lexeme :: trail) = faultsOf trail :=
  rfl

@[simp]
theorem faultsOf_error_cons (error : LexicalError)
    (trail : List (Except LexicalError Lexeme)) :
    faultsOf (.error error :: trail) = error :: faultsOf trail :=
  rfl

private theorem readingSpan_mem_of_mem_faultsOf
    {trail : List (Except LexicalError Lexeme)} {span : Span}
    (member : span ∈ (faultsOf trail).map Located.span) :
    span ∈ trail.map readingSpan := by
  obtain ⟨error, isFault, rfl⟩ := List.mem_map.mp member
  obtain ⟨reading, isReading, same⟩ := List.mem_filterMap.mp isFault
  cases reading with
  | ok lexeme => cases same
  | error other =>
      cases same
      exact List.mem_map_of_mem isReading

/-- The characters that are tokens by themselves. -/
def marks : List Char :=
  ['?', '*', '(', ')', '\x7b', '\x7d', '=', '|', ',']

private theorem ofMark?_ne_none_of_mem_marks :
    ∀ mark ∈ marks, Token.ofMark? mark ≠ none := by
  simp [marks, Token.ofMark?]

/-- The character begins neither a token nor layout in front of the text. -/
structure Stray (character : Char) (behind : List Char) : Prop where
  notBlank : isBlank character = false
  noWord : startsWord character = false
  noMark : character ∉ marks
  noComment : character = '-' → behind.head? ≠ some '-'

private theorem not_layout_behind_splitLayout (inComment : Bool)
    {text behind : List Char} {first : Char}
    (left : (splitLayout inComment text).2 = first :: behind) :
    isBlank first = false ∧ (first = '-' → behind.head? ≠ some '-') := by
  induction text generalizing inComment with
  | nil => cases left
  | cons head rest ih =>
      unfold splitLayout at left
      split at left
      · exact ih _ left
      · split at left
        · exact ih _ left
        · rename_i notBlank
          split at left
          · exact ih _ left
          · rename_i noComment
            cases left
            refine ⟨by simpa using notBlank, ?_⟩
            intro isDash
            simpa [isDash] using noComment

/-- Layout directly in front of a stray character ends in no comment, so it is
layout in front of anything. -/
theorem Layout.of_not_lineFeed {gap behind : List Char} {first : Char}
    (layout : Layout gap (first :: behind)) (notLineFeed : first ≠ '\n')
    (other : List Char) : Layout gap other := by
  generalize whole : first :: behind = text at layout
  induction layout with
  | nil _ => exact .nil other
  | blank blank _ ih => exact .blank blank (ih whole)
  | @comment body gap _ sameLine ends _ ih =>
      refine .comment sameLine ?_ (ih whole)
      -- A comment that ended the gap would be followed by a line feed.
      cases gap with
      | nil =>
          rw [← whole] at ends
          exact absurd (ends first rfl) notLineFeed
      | cons head others => exact ends

namespace Cursor

/-- From one place to another there is layout and then one stray character,
which the fault quotes and spans. -/
inductive Trips (cursor : Cursor) (error : LexicalError) (after : Cursor) :
    Prop
  | intro (gap : List Char) (character : Char)
      (text : cursor.rest = gap ++ character :: after.rest)
      (layout : Layout gap (character :: after.rest))
      (stray : Stray character after.rest)
      (quotes : error.fault = .unexpectedCharacter character)
      (starts : error.span.start = cursor.offset + byteSize gap)
      (stops : error.span.stop = error.span.start + character.utf8Size)
      (behind : after.offset = error.span.stop)

theorem trips_of_next {cursor after : Cursor} {error : LexicalError}
    (met : cursor.next = .fault error after) : Trips cursor error after := by
  obtain ⟨gap, layout, whole, moved⟩ := cursor.layout_skipLayout
  unfold next at met
  simp only at met
  split at met
  · cases met
  · rename_i head tail isRest
    split at met
    · cases met
    · rename_i noWord
      split at met
      · cases met
      · rename_i noMark
        obtain ⟨notBlank, noComment⟩ :=
          not_layout_behind_splitLayout false isRest
        have notMarked : head ∉ marks := fun marked =>
          ofMark?_ne_none_of_mem_marks head marked noMark
        rw [isRest] at layout whole
        cases met
        exact
          ⟨gap, head, whole, layout,
            ⟨notBlank, by simpa using noWord, notMarked, noComment⟩, rfl,
            moved, rfl, rfl⟩

/-! ### One step -/

inductive Reads (cursor : Cursor) : Except LexicalError Lexeme → Cursor → Prop
  | lexeme {lexeme : Lexeme} {after : Cursor}
      (met : cursor.next = .lexeme lexeme after) :
      Reads cursor (.ok lexeme) after
  | fault {error : LexicalError} {after : Cursor}
      (met : cursor.next = .fault error after) :
      Reads cursor (.error error) after

structure Passes (cursor : Cursor) (span : Span) (after : Cursor)
    (gap text : List Char) : Prop where
  split : cursor.rest = gap ++ (text ++ after.rest)
  nonempty : text ≠ []
  starts : span.start = cursor.offset + byteSize gap
  stops : span.stop = span.start + byteSize text
  behind : after.offset = span.stop

theorem Reads.exists_passes {cursor after : Cursor}
    {reading : Except LexicalError Lexeme}
    (reads : cursor.Reads reading after) :
    ∃ gap text, cursor.Passes (readingSpan reading) after gap text := by
  cases reads with
  | lexeme met =>
      obtain ⟨gap, text, _, written, _, starts, stops, behind⟩ :=
        meets_of_next met
      exact ⟨gap, _, text, written.toList_ne_nil, starts, stops, behind⟩
  | fault met =>
      obtain ⟨gap, character, text, _, _, _, starts, stops, behind⟩ :=
        trips_of_next met
      exact
        ⟨gap, [character], text, List.cons_ne_nil _ _, starts, stops, behind⟩

namespace Passes

variable {cursor after : Cursor} {span : Span} {gap text : List Char}

theorem length_lt (passes : cursor.Passes span after gap text) :
    after.rest.length < cursor.rest.length := by
  have positive := List.length_pos_iff.mpr passes.nonempty
  rw [passes.split, List.length_append, List.length_append]
  omega

private theorem start_lt_stop (passes : cursor.Passes span after gap text) :
    span.start < span.stop := by
  have positive : byteSize text ≠ 0 := fun isZero =>
    passes.nonempty ((byteSize_eq_zero_iff text).mp isZero)
  have stops := passes.stops
  omega

theorem offset_eq (passes : cursor.Passes span after gap text) :
    after.offset = cursor.offset + byteSize (gap ++ text) := by
  rw [passes.behind, passes.stops, passes.starts, byteSize_append,
    Nat.add_assoc]

theorem byteSize_eq (passes : cursor.Passes span after gap text) :
    after.offset + byteSize after.rest =
      cursor.offset + byteSize cursor.rest := by
  rw [passes.offset_eq, passes.split, ← List.append_assoc,
    byteSize_append (gap ++ text), Nat.add_assoc]

end Passes

/-- What the steps from a cursor meet before the end. -/
inductive Trail : Cursor → List (Except LexicalError Lexeme) → Prop
  | ended {cursor : Cursor} {size : Nat} (met : cursor.next = .ended size) :
      Trail cursor []
  | step {cursor after : Cursor} {reading : Except LexicalError Lexeme}
      {others : List (Except LexicalError Lexeme)}
      (reads : cursor.Reads reading after) (rest : Trail after others) :
      Trail cursor (reading :: others)

private theorem steps_of_next_eq_ended {cursor : Cursor} {size : Nat}
    (met : cursor.next = .ended size) (calls : Nat) :
    steps calls cursor = List.replicate calls (.ok (.endOfInput size)) := by
  induction calls with
  | zero => rfl
  | succ calls ih => simp only [steps, met, ih, List.replicate_succ]

private theorem exists_trail (cursor : Cursor) :
    ∃ trail, cursor.Trail trail := by
  generalize measured : cursor.rest.length = remaining
  induction remaining using Nat.strongRecOn generalizing cursor with
  | ind remaining ih =>
      have goOn {reading : Except LexicalError Lexeme} {after : Cursor}
          (reads : cursor.Reads reading after) :
          ∃ trail, cursor.Trail trail := by
        obtain ⟨gap, text, passes⟩ := reads.exists_passes
        obtain ⟨others, rest⟩ := ih _ (measured ▸ passes.length_lt) after rfl
        exact ⟨reading :: others, .step reads rest⟩
      cases met : cursor.next with
      | ended size => exact ⟨[], .ended met⟩
      | lexeme lexeme after => exact goOn (.lexeme met)
      | fault error after => exact goOn (.fault met)

namespace Trail

variable {cursor : Cursor} {trail : List (Except LexicalError Lexeme)}

theorem length_le (run : cursor.Trail trail) :
    trail.length ≤ cursor.rest.length := by
  induction run with
  | ended met => exact Nat.zero_le _
  | step reads rest ih =>
      obtain ⟨gap, text, passes⟩ := reads.exists_passes
      have shorter := passes.length_lt
      rw [List.length_cons]
      omega

private theorem steps_eq (run : cursor.Trail trail) (calls : Nat) :
    steps calls cursor =
      trail.take calls ++
        List.replicate (calls - trail.length)
          (.ok (.endOfInput (cursor.offset + byteSize cursor.rest))) := by
  induction run generalizing calls with
  | @ended cursor size met =>
      obtain ⟨_, rfl⟩ := (next_eq_ended_iff cursor size).mp met
      rw [steps_of_next_eq_ended met, List.take_nil, List.nil_append]
      rfl
  | step reads rest ih =>
      obtain ⟨gap, text, passes⟩ := reads.exists_passes
      cases calls with
      | zero => simp [steps]
      | succ calls =>
          have remaining := ih calls
          rw [passes.byteSize_eq] at remaining
          rw [List.length_cons, Nat.add_sub_add_right, List.take_succ_cons,
            List.cons_append, ← remaining]
          cases reads with
          | lexeme met => simp only [steps, met]
          | fault met => simp only [steps, met]

/-- The ranges of a trail are not empty and come in order, all of them behind
the place where it starts. -/
theorem spans_ordered (run : cursor.Trail trail) :
    (trail.map readingSpan).Pairwise
        (fun earlier later => earlier.stop ≤ later.start) ∧
      ∀ span ∈ trail.map readingSpan,
        cursor.offset ≤ span.start ∧ span.start < span.stop := by
  induction run with
  | ended met => simp
  | step reads rest ih =>
      obtain ⟨gap, text, passes⟩ := reads.exists_passes
      obtain ⟨ordered, later⟩ := ih
      have starts := passes.starts
      have forwards := passes.start_lt_stop
      have behind := passes.behind
      rw [List.map_cons, List.pairwise_cons, List.forall_mem_cons]
      refine ⟨⟨?_, ordered⟩, by omega, ?_⟩
      · intro span member
        have isLater := later span member
        omega
      · intro span member
        have isLater := later span member
        omega

theorem tokenize_eq (run : cursor.Trail trail) :
    cursor.tokenize =
      match (faultsOf trail).head? with
      | some error => .error error
      | none =>
          .ok
            { lexemes := lexemesOf trail
              size := cursor.offset + byteSize cursor.rest } := by
  induction run with
  | @ended cursor size met =>
      obtain ⟨_, rfl⟩ := (next_eq_ended_iff cursor size).mp met
      exact tokenize_of_next_eq_ended met
  | step reads rest ih =>
      obtain ⟨gap, text, passes⟩ := reads.exists_passes
      cases reads with
      | lexeme met =>
          rw [tokenize_of_next_eq_lexeme met, ih, faultsOf_ok_cons,
            passes.byteSize_eq]
          cases (faultsOf _).head? with
          | some error => rfl
          | none => rfl
      | fault met => exact tokenize_of_next_eq_fault met

end Trail

end Cursor

/-! ### Blanking out -/

/-- The text from an offset on, where a character that fills one of the ranges
gives way to spaces, one for each of its bytes. -/
def blankOut (spans : List Span) : Nat → List Char → List Char
  | _, [] => []
  | offset, character :: rest =>
      (if { start := offset, stop := offset + character.utf8Size } ∈ spans then
        List.replicate character.utf8Size ' '
      else
        [character]) ++
        blankOut spans (offset + character.utf8Size) rest

theorem blankOut_append_of_before {spans : List Span} (offset : Nat)
    (text rest : List Char)
    (before : ∀ span ∈ spans, offset + byteSize text ≤ span.start) :
    blankOut spans offset (text ++ rest) =
      text ++ blankOut spans (offset + byteSize text) rest := by
  induction text generalizing offset with
  | nil => rfl
  | cons first others ih =>
      have positive := first.utf8Size_pos
      have notCovered :
          ({ start := offset, stop := offset + first.utf8Size } : Span) ∉
            spans := by
        intro member
        have isBefore := before _ member
        simp only [byteSize_cons] at isBefore
        omega
      rw [byteSize_cons, ← Nat.add_assoc] at before ⊢
      rw [List.cons_append, blankOut, if_neg notCovered, ih _ before]
      rfl

private theorem blankOut_nil (offset : Nat) (text : List Char) :
    blankOut [] offset text = text := by
  have untouched :=
    blankOut_append_of_before offset text [] (List.forall_mem_nil _)
  simpa [blankOut] using untouched

private theorem blankOut_cons_of_lt {span : Span} {offset : Nat}
    (inFront : span.start < offset) (spans : List Span) (text : List Char) :
    blankOut (span :: spans) offset text = blankOut spans offset text := by
  induction text generalizing offset with
  | nil => rfl
  | cons first others ih =>
      have other :
          ({ start := offset, stop := offset + first.utf8Size } : Span) ≠
            span := by
        rintro rfl
        exact absurd inFront (Nat.lt_irrefl _)
      rw [blankOut, blankOut, ih (by omega)]
      simp only [List.mem_cons, other, false_or]

private theorem endsWord_blankOut {rest : List Char}
    (ends : Cursor.EndsWord rest) (spans : List Span) (offset : Nat) :
    Cursor.EndsWord (blankOut spans offset rest) := by
  cases rest with
  | nil => exact .nil
  | cons first others =>
      rw [blankOut]
      split
      · have positive := first.utf8Size_pos
        cases size : first.utf8Size with
        | zero => omega
        | succ count => exact .cons _ (by decide)
      · exact .cons _ (ends first rfl)

private theorem layout_replicate_space (count : Nat) (behind : List Char) :
    Layout (List.replicate count ' ') behind := by
  induction count with
  | zero => exact .nil behind
  | succ count ih => exact .blank (by decide) ih

private theorem byteSize_replicate_space (count : Nat) :
    byteSize (List.replicate count ' ') = count := by
  induction count with
  | zero => rfl
  | succ count ih =>
      rw [List.replicate_succ, byteSize_cons, ih, Nat.add_comm]
      rfl

namespace Cursor

def blanked (spans : List Span) (cursor : Cursor) : Cursor :=
  { offset := cursor.offset
    rest := blankOut spans cursor.offset cursor.rest }

theorem Meets.blanked {cursor after : Cursor} {lexeme : Lexeme}
    (meets : Meets cursor lexeme after) {spans : List Span}
    (later : ∀ span ∈ spans, after.offset ≤ span.start) :
    Meets (cursor.blanked spans) lexeme (after.blanked spans) := by
  obtain ⟨gap, text, layout, written, ends, starts, stops, behind⟩ := meets
  have moved :
      cursor.offset + byteSize (gap ++ lexeme.token.text.toList) =
        after.offset := by
    rw [byteSize_append]
    omega
  have kept :=
    blankOut_append_of_before cursor.offset
      (gap ++ lexeme.token.text.toList) after.rest (moved ▸ later)
  rw [List.append_assoc, List.append_assoc, ← text, moved] at kept
  exact
    ⟨gap, kept, layout.of_head?_eq (written.head?_append _ _), written,
      fun word => endsWord_blankOut (ends word) _ _, starts, stops, behind⟩

/-- A stray character that is blanked out is skipped with the layout in front
of it. -/
theorem Trips.next_blanked {cursor after : Cursor} {error : LexicalError}
    (trips : Trips cursor error after) {spans : List Span}
    (later : ∀ span ∈ spans, after.offset ≤ span.start) :
    (cursor.blanked (error.span :: spans)).next =
      (after.blanked spans).next := by
  obtain ⟨gap, character, text, layout, stray, _, starts, stops, behind⟩ :=
    trips
  have positive := character.utf8Size_pos
  have before :
      ∀ span ∈ error.span :: spans,
        cursor.offset + byteSize gap ≤ span.start := by
    rw [List.forall_mem_cons]
    refine ⟨Nat.le_of_eq starts.symm, ?_⟩
    intro span member
    have isLater := later span member
    omega
  have atCharacter :
      ({ start := cursor.offset + byteSize gap
         stop := cursor.offset + byteSize gap + character.utf8Size } : Span) =
        error.span := by
    rw [← starts, ← stops]
  have moved :
      cursor.offset + byteSize gap + character.utf8Size = after.offset := by
    omega
  have cut :
      blankOut (error.span :: spans) cursor.offset cursor.rest =
        gap ++
          (List.replicate character.utf8Size ' ' ++
            blankOut spans after.offset after.rest) := by
    rw [text, blankOut_append_of_before _ _ _ before, blankOut, atCharacter,
      if_pos List.mem_cons_self, moved, blankOut_cons_of_lt (by omega)]
  have notLineFeed : character ≠ '\n' := by
    rintro rfl
    exact absurd stray.notBlank (by decide)
  rw [Cursor.blanked, cut,
    next_append_of_layout (layout.of_not_lineFeed notLineFeed _),
    next_append_of_layout (layout_replicate_space _ _),
    byteSize_replicate_space, moved]
  rfl

/-- With the faults blanked out the lexemes are left, at the same places. -/
theorem Trail.tokenize_blanked {cursor : Cursor}
    {trail : List (Except LexicalError Lexeme)} (run : cursor.Trail trail) :
    (cursor.blanked ((faultsOf trail).map Located.span)).tokenize =
      .ok
        { lexemes := lexemesOf trail
          size := cursor.offset + byteSize cursor.rest } := by
  induction run with
  | @ended cursor size met =>
      obtain ⟨_, rfl⟩ := (next_eq_ended_iff cursor size).mp met
      have same : cursor.blanked [] = cursor := by
        rw [Cursor.blanked, blankOut_nil]
      rw [faultsOf_nil, List.map_nil, same]
      exact tokenize_of_next_eq_ended met
  | @step cursor after reading others reads rest ih =>
      obtain ⟨gap, text, passes⟩ := reads.exists_passes
      have later :
          ∀ span ∈ (faultsOf others).map Located.span,
            after.offset ≤ span.start := by
        intro span member
        exact
          (rest.spans_ordered.2 span
            (readingSpan_mem_of_mem_faultsOf member)).1
      rw [passes.byteSize_eq] at ih
      cases reads with
      | lexeme met =>
          have meets := (meets_of_next met).blanked later
          rw [faultsOf_ok_cons,
            tokenize_of_next_eq_lexeme (next_of_meets meets), ih]
          rfl
      | fault met =>
          have trips := trips_of_next met
          rw [faultsOf_error_cons, List.map_cons,
            tokenize_congr (trips.next_blanked later), ih,
            lexemesOf_error_cons]

end Cursor

/-- The fault spans one whole character of the text and quotes it, and the
character is stray there. -/
def StraysIn (text : List Char) (error : LexicalError) : Prop :=
  ∃ (front : List Char) (character : Char) (behind : List Char),
    text = front ++ character :: behind ∧
      error.span.start = byteSize front ∧
      error.span.stop = byteSize front + character.utf8Size ∧
      error.fault.message =
        "unexpected character: '" ++ String.singleton character ++ "'" ∧
      Stray character behind

private theorem Cursor.Trail.straysIn {cursor : Cursor}
    {trail : List (Except LexicalError Lexeme)} (run : cursor.Trail trail)
    {text front : List Char} (split : text = front ++ cursor.rest)
    (placed : cursor.offset = byteSize front) :
    ∀ error ∈ faultsOf trail, StraysIn text error := by
  induction run generalizing front with
  | ended met => exact List.forall_mem_nil _
  | @step cursor after reading others reads rest ih =>
      obtain ⟨gap, taken, passes⟩ := reads.exists_passes
      have laterSplit : text = (front ++ (gap ++ taken)) ++ after.rest := by
        rw [split, passes.split, List.append_assoc, List.append_assoc]
      have laterPlaced : after.offset = byteSize (front ++ (gap ++ taken)) := by
        rw [passes.offset_eq, placed, byteSize_append front]
      have later := ih laterSplit laterPlaced
      cases reads with
      | lexeme met => exact later
      | fault met =>
          obtain
              ⟨before, character, here, _, stray, quotes, starts, stops, _⟩ :=
            trips_of_next met
          rw [faultsOf_error_cons, List.forall_mem_cons]
          refine
            ⟨⟨front ++ before, character, after.rest, ?_, ?_, ?_, ?_, stray⟩,
              later⟩
          · rw [split, here, List.append_assoc]
          · rw [starts, placed, byteSize_append]
          · rw [stops, starts, placed, byteSize_append]
          · rw [quotes]
            rfl

private theorem Cursor.Trail.token_ne_endOfInput {cursor : Cursor}
    {trail : List (Except LexicalError Lexeme)} (run : cursor.Trail trail) :
    ∀ lexeme ∈ lexemesOf trail, lexeme.token ≠ .endOfInput := by
  induction run with
  | ended met => exact List.forall_mem_nil _
  | step reads rest ih =>
      cases reads with
      | fault met => exact ih
      | lexeme met =>
          obtain ⟨_, _, _, written, _⟩ := meets_of_next met
          rw [lexemesOf_ok_cons, List.forall_mem_cons]
          refine ⟨?_, ih⟩
          intro isEnd
          rw [isEnd] at written
          exact written

/-- The source with spaces for the characters of the faults. -/
def blankedSource (faults : List LexicalError) (source : String) : String :=
  String.ofList (blankOut (faults.map Located.span) 0 source.toList)

/-- What a reader of a source meets before the end when it goes on behind every
fault, and how that relates to the source with the faults blanked out and to a
reader that stops. -/
structure Recovers (source : String)
    (trail : List (Except LexicalError Lexeme)) : Prop where
  length_le : trail.length ≤ source.length
  unended : ∀ lexeme ∈ lexemesOf trail, lexeme.token ≠ .endOfInput
  steps :
    ∀ calls, Cursor.steps calls (.ofSource source) =
      trail.take calls ++
        List.replicate (calls - trail.length)
          (.ok (.endOfInput source.utf8ByteSize))
  apart :
    (trail.map readingSpan).Pairwise fun earlier later =>
      earlier.stop ≤ later.start
  nonempty : ∀ span ∈ trail.map readingSpan, span.start < span.stop
  stray : ∀ error ∈ faultsOf trail, StraysIn source.toList error
  blanked :
    (tokenize (blankedSource (faultsOf trail) source)).map
        Tokenization.toList =
      .ok (lexemesOf trail ++ [.endOfInput source.utf8ByteSize])
  unfaulty :
    faultsOf trail = [] →
      (tokenize source).map Tokenization.toList =
        .ok (lexemesOf trail ++ [.endOfInput source.utf8ByteSize])
  stopped :
    ∀ error, (faultsOf trail).head? = some error →
      tokenize source = .error error

/-- Every source is read to its end, whatever characters stray in it. -/
theorem exists_recovers (source : String) :
    ∃ trail, Recovers source trail := by
  obtain ⟨trail, run⟩ := (Cursor.ofSource source).exists_trail
  have sameSize :
      (Cursor.ofSource source).offset +
          byteSize (Cursor.ofSource source).rest =
        source.utf8ByteSize :=
    (Nat.zero_add _).trans (byteSize_toList source)
  have tokenized := run.tokenize_eq
  have blanked := run.tokenize_blanked
  rw [sameSize] at tokenized blanked
  refine
    ⟨trail,
      { length_le := ?_
        unended := run.token_ne_endOfInput
        steps := fun calls => sameSize ▸ run.steps_eq calls
        apart := run.spans_ordered.1
        nonempty := fun span member => (run.spans_ordered.2 span member).2
        stray := run.straysIn (List.nil_append _).symm rfl
        blanked := ?_
        unfaulty := ?_
        stopped := ?_ }⟩
  · rw [← String.length_toList]
    exact run.length_le
  · have cut :
        tokenize (blankedSource (faultsOf trail) source) =
          .ok
            { lexemes := lexemesOf trail
              size := source.utf8ByteSize } := by
      rw [tokenize, blankedSource, Cursor.ofSource, String.toList_ofList]
      exact blanked
    rw [cut]
    rfl
  · intro noFault
    rw [noFault] at tokenized
    rw [tokenize, tokenized]
    rfl
  · intro error isFirst
    rw [isFirst] at tokenized
    exact tokenized

end Asdl
