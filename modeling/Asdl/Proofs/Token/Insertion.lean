/-
Layout that is put between the tokens of a source.

Blanks and whole comments may be put in front of a token, behind one, or at the
end of a source, even where the end of the source ended a comment.  The source
is then cut into the same tokens: those in front of the place stay where they
are, and those behind it move on by what was put in.
-/

import Asdl.Proofs.Token.Slice

namespace Asdl

/-- Blanks and comments, where each comment has the line feed that ends it. -/
inductive WholeLayout : List Char → Prop
  | nil : WholeLayout []
  | blank {character : Char} {rest : List Char}
      (blank : isBlank character = true) (others : WholeLayout rest) :
      WholeLayout (character :: rest)
  | comment {body rest : List Char} (sameLine : '\n' ∉ body)
      (others : WholeLayout rest) :
      WholeLayout ('-' :: '-' :: (body ++ '\n' :: rest))

theorem EndsLine.lineFeed (rest : List Char) : EndsLine ('\n' :: rest) := by
  intro character isFirst
  cases isFirst
  rfl

private theorem continuesWord_of_isBlank {character : Char}
    (blank : isBlank character = true) : continuesWord character = false := by
  simp only [isBlank, Bool.or_eq_true, beq_iff_eq] at blank
  rcases blank with (((rfl | rfl) | rfl) | rfl) | rfl <;> decide

namespace WholeLayout

variable {text : List Char}

theorem layout (whole : WholeLayout text) (behind : List Char) :
    Layout text behind := by
  induction whole with
  | nil => exact .nil behind
  | blank blank others ih => exact .blank blank ih
  | comment sameLine others ih =>
      exact .comment sameLine (EndsLine.lineFeed _) (.blank (by decide) ih)

theorem endsWord (whole : WholeLayout text) : Cursor.EndsWord text := by
  cases whole with
  | nil => exact .nil
  | blank blank others => exact .cons _ (continuesWord_of_isBlank blank)
  | comment sameLine others => exact .cons _ (by decide)

private theorem exists_line (whole : WholeLayout text) {behind : List Char}
    (ends : EndsLine behind) :
    ∃ line gap, text = line ++ gap ∧ '\n' ∉ line ∧
      EndsLine (gap ++ behind) ∧ Layout gap behind := by
  induction whole with
  | nil => exact ⟨[], [], rfl, List.not_mem_nil, ends, .nil behind⟩
  | @blank character rest blank others ih =>
      by_cases isLineFeed : character = '\n'
      · subst isLineFeed
        exact
          ⟨[], '\n' :: rest, rfl, List.not_mem_nil, .lineFeed _,
            .blank blank (others.layout behind)⟩
      · obtain ⟨line, gap, split, sameLine, lineEnds, rests⟩ := ih
        refine ⟨character :: line, gap, ?_, ?_, lineEnds, rests⟩
        · rw [split]
          rfl
        · rw [List.mem_cons, not_or]
          exact ⟨fun same => isLineFeed same.symm, sameLine⟩
  | @comment body rest sameLine others ih =>
      refine
        ⟨'-' :: '-' :: body, '\n' :: rest, rfl, ?_, .lineFeed _,
          .blank (by decide) (others.layout behind)⟩
      rw [List.mem_cons, not_or, List.mem_cons, not_or]
      exact ⟨by decide, by decide, sameLine⟩

end WholeLayout

/-- Whole layout may follow any layout.  Where the layout ends in a comment that
is still open, the comment takes the first line of what follows. -/
theorem Layout.append_whole {gap behind text : List Char}
    (layout : Layout gap behind) (whole : WholeLayout text) :
    Layout (gap ++ text) behind := by
  induction layout with
  | nil behind => exact whole.layout behind
  | blank blank rest ih => exact .blank blank ih
  | @comment body gap behind sameLine ends rest ih =>
      cases gap with
      | nil =>
          rw [List.nil_append] at ends
          obtain ⟨line, later, rfl, lineGoesOn, lineEnds, laterLayout⟩ :=
            whole.exists_line ends
          have longer : '\n' ∉ body ++ line := by
            rw [List.mem_append, not_or]
            exact ⟨sameLine, lineGoesOn⟩
          have comment := Layout.comment longer lineEnds laterLayout
          simpa only [List.append_nil, List.append_assoc, List.cons_append]
            using comment
      | cons first others =>
          have comment :
              Layout ('-' :: '-' :: (body ++ (first :: others ++ text)))
                behind :=
            .comment sameLine (ends.of_head?_eq rfl) ih
          simpa only [List.append_assoc, List.cons_append] using comment

theorem Cursor.EndsWord.insert {front back layout : List Char}
    (ends : EndsWord (front ++ back)) (whole : WholeLayout layout) :
    EndsWord (front ++ (layout ++ back)) := by
  cases front with
  | nil => exact whole.endsWord.append ends
  | cons first others => exact ends

/-! ### Lexemes that move on -/

/-- The lexeme once so many bytes were put into the source at an offset.  The end
of the input moves on wherever they were put. -/
def Lexeme.displace (offset distance : Nat) (lexeme : Lexeme) : Lexeme :=
  if lexeme.token ≠ .endOfInput ∧ lexeme.span.stop ≤ offset then
    lexeme
  else
    lexeme.shift distance

@[simp]
theorem Lexeme.token_displace (offset distance : Nat) (lexeme : Lexeme) :
    (lexeme.displace offset distance).token = lexeme.token := by
  unfold Lexeme.displace
  split <;> rfl

private theorem Lexeme.displace_endOfInput (offset distance size : Nat) :
    (Lexeme.endOfInput size).displace offset distance =
      Lexeme.endOfInput (distance + size) := by
  have isEnd :
      ¬ ((Lexeme.endOfInput size).token ≠ .endOfInput ∧
        (Lexeme.endOfInput size).span.stop ≤ offset) :=
    fun both => both.1 rfl
  rw [Lexeme.displace, if_neg isEnd]
  rfl

private theorem Token.IsWritten.ne_endOfInput {token : Token}
    (written : token.IsWritten) : token ≠ .endOfInput := by
  rintro rfl
  exact written

private theorem Token.IsWritten.displace_of_le {lexeme : Lexeme} {offset : Nat}
    (written : lexeme.token.IsWritten) (inFront : lexeme.span.stop ≤ offset)
    (distance : Nat) : lexeme.displace offset distance = lexeme := by
  rw [Lexeme.displace, if_pos ⟨written.ne_endOfInput, inFront⟩]

private theorem Token.IsWritten.byteSize_pos {token : Token}
    (written : token.IsWritten) : 0 < byteSize token.text.toList := by
  apply Nat.pos_of_ne_zero
  intro isZero
  exact written.toList_ne_nil ((byteSize_eq_zero_iff _).mp isZero)

namespace Cursor

theorem Meets.endsWord {cursor after : Cursor} {lexeme : Lexeme}
    (meets : Meets cursor lexeme after) (word : lexeme.token.word? ≠ none) :
    EndsWord after.rest := by
  obtain ⟨gap, text, layout, written, ends, starts, stops, behind⟩ := meets
  exact ends word

theorem Meets.advances {cursor after : Cursor} {lexeme : Lexeme}
    (meets : Meets cursor lexeme after) :
    lexeme.token.IsWritten ∧ cursor.offset < lexeme.span.stop ∧
      after.offset = lexeme.span.stop := by
  obtain ⟨gap, text, layout, written, ends, starts, stops, behind⟩ := meets
  have positive := written.byteSize_pos
  exact ⟨written, by omega, behind⟩

theorem Meets.exists_before {cursor after : Cursor} {lexeme : Lexeme}
    (meets : Meets cursor lexeme after) {rest : List Char}
    (restEnds : lexeme.token.word? ≠ none → EndsWord rest) :
    ∃ front,
      cursor.rest = front ++ after.rest ∧
        after.offset = cursor.offset + byteSize front ∧
        Meets
          { offset := cursor.offset
            rest := front ++ rest }
          lexeme
          { offset := after.offset
            rest := rest } := by
  obtain ⟨gap, text, layout, written, ends, starts, stops, behind⟩ := meets
  refine ⟨gap ++ lexeme.token.text.toList, ?_, ?_, ?_⟩
  · rw [text, List.append_assoc]
  · rw [byteSize_append]
    omega
  · exact
      ⟨gap, List.append_assoc _ _ _,
        layout.of_head?_eq (written.head?_append _ _), written, restEnds,
        starts, stops, behind⟩

/-- A lexeme starts or stops at the offset, or the text ends there. -/
def IsBorder (cursor : Cursor) (lexemes : List Lexeme) (offset : Nat) : Prop :=
  (∃ lexeme ∈ lexemes,
    offset = lexeme.span.start ∨ offset = lexeme.span.stop) ∨
    offset = cursor.offset + byteSize cursor.rest

private theorem IsBorder.cases_first {cursor after : Cursor} {first : Lexeme}
    {others : List Lexeme} {offset : Nat}
    (meets : Meets cursor first after)
    (border : IsBorder cursor (first :: others) offset) :
    offset = first.span.start ∨ offset = first.span.stop ∨
      IsBorder after others offset := by
  rcases border with ⟨lexeme, member, atLexeme⟩ | atEnd
  · rcases List.mem_cons.mp member with rfl | isOther
    · exact atLexeme.imp_right .inl
    · exact .inr (.inr (.inl ⟨lexeme, isOther, atLexeme⟩))
  · rw [← meets.byteSize_eq] at atEnd
    exact .inr (.inr (.inr atEnd))

namespace Decomposes

variable {cursor : Cursor} {lexemes : List Lexeme}

theorem shift (decomposes : cursor.Decomposes lexemes) (distance : Nat) :
    Decomposes
      { offset := distance + cursor.offset
        rest := cursor.rest }
      (lexemes.map (Lexeme.shift distance)) := by
  induction decomposes with
  | ended layout => exact .ended layout
  | @lexeme cursor later lexeme others meets rest ih =>
      obtain ⟨gap, text, layout, written, ends, starts, stops, behind⟩ := meets
      have meetsThere :
          Meets
            { offset := distance + cursor.offset
              rest := cursor.rest }
            (lexeme.shift distance)
            { offset := distance + later.offset
              rest := later.rest } := by
        refine ⟨gap, text, layout, written, ends, ?_, ?_, ?_⟩
        · simp only [Lexeme.shift]
          omega
        · simp only [Lexeme.shift]
          omega
        · simp only [Lexeme.shift]
          omega
      exact .lexeme meetsThere ih

private theorem behind_layout (decomposes : cursor.Decomposes lexemes)
    {gap : List Char} (layout : Layout gap cursor.rest) {offset : Nat}
    (moved : cursor.offset = offset + byteSize gap) :
    Decomposes
      { offset := offset
        rest := gap ++ cursor.rest }
      lexemes := by
  have sameStep := next_append_of_layout layout offset
  have tokenized := decomposes.tokenize_eq
  rw [← moved] at sameStep
  rw [← tokenize_congr sameStep] at tokenized
  exact (decomposes_of_tokenize tokenized).1

private theorem offset_lt_stop (decomposes : cursor.Decomposes lexemes) :
    ∀ lexeme ∈ lexemes, cursor.offset < lexeme.span.stop := by
  induction decomposes with
  | ended layout =>
      intro lexeme absent
      cases absent
  | lexeme meets rest ih =>
      obtain ⟨_, forwards, behind⟩ := meets.advances
      rw [List.forall_mem_cons]
      refine ⟨forwards, ?_⟩
      intro other member
      have isLater := ih other member
      omega

private theorem map_displace (decomposes : cursor.Decomposes lexemes)
    {offset : Nat}
    (inFront : offset ≤ cursor.offset) (distance : Nat) :
    lexemes.map (Lexeme.displace offset distance) =
      lexemes.map (Lexeme.shift distance) := by
  apply List.map_congr_left
  intro lexeme member
  have isLater := decomposes.offset_lt_stop lexeme member
  rw [Lexeme.displace, if_neg]
  rintro ⟨_, stopsInFront⟩
  omega

theorem insert_front (decomposes : cursor.Decomposes lexemes)
    {gap layout : List Char} (inGap : Layout gap cursor.rest)
    (whole : WholeLayout layout) {start : Nat}
    (moved : cursor.offset = start + byteSize gap) :
    Decomposes
      { offset := start
        rest := gap ++ (layout ++ cursor.rest) }
      (lexemes.map (Lexeme.displace cursor.offset (byteSize layout))) := by
  rw [decomposes.map_displace (Nat.le_refl _), ← List.append_assoc]
  apply (decomposes.shift (byteSize layout)).behind_layout
    (inGap.append_whole whole)
  simp only [byteSize_append]
  omega

/-- Whole layout at a border makes room for itself and changes nothing else. -/
theorem insert (decomposes : cursor.Decomposes lexemes) {layout : List Char}
    (whole : WholeLayout layout) {offset : Nat}
    (border : IsBorder cursor lexemes offset) :
    ∃ front back,
      cursor.rest = front ++ back ∧
        offset = cursor.offset + byteSize front ∧
        Decomposes
          { offset := cursor.offset
            rest := front ++ (layout ++ back) }
          (lexemes.map (Lexeme.displace offset (byteSize layout))) := by
  induction decomposes with
  | @ended cursor atEnd =>
      rcases border with ⟨lexeme, absent, _⟩ | isEnd
      · cases absent
      · refine ⟨cursor.rest, [], (List.append_nil _).symm, isEnd, ?_⟩
        apply Decomposes.ended
        rw [List.append_nil]
        exact atEnd.append_whole whole
  | @lexeme cursor after first others meets rest ih =>
      rcases border.cases_first meets with rfl | notInFront
      · obtain ⟨gap, text, inGap, written, ends, starts, stops, behind⟩ :=
          meets
        have fromFirst :
            Decomposes
              { offset := first.span.start
                rest := first.token.text.toList ++ after.rest }
              (first :: others) :=
          .lexeme ⟨[], rfl, .nil _, written, ends, rfl, stops, behind⟩ rest
        exact ⟨gap, _, text, starts, fromFirst.insert_front inGap whole starts⟩
      · obtain ⟨written, _, stops⟩ := meets.advances
        have among :
            ∃ front back,
              after.rest = front ++ back ∧
                offset = after.offset + byteSize front ∧
                Decomposes
                  { offset := after.offset
                    rest := front ++ (layout ++ back) }
                  (others.map
                    (Lexeme.displace offset (byteSize layout))) := by
          rcases notInFront with atStop | further
          · rw [← stops] at atStop
            subst atStop
            exact ⟨[], after.rest, rfl, rfl,
              rest.insert_front (.nil _) whole rfl⟩
          · exact ih further
        obtain ⟨front, back, split, isOffset, decomposed⟩ := among
        have frontEnds (word : first.token.word? ≠ none) :
            EndsWord (front ++ (layout ++ back)) := by
          apply EndsWord.insert _ whole
          rw [← split]
          exact meets.endsWord word
        obtain ⟨own, ownSplit, ownOffset, meetsStill⟩ :=
          meets.exists_before frontEnds
        refine ⟨own ++ front, back, ?_, ?_, ?_⟩
        · rw [ownSplit, split, List.append_assoc]
        · rw [byteSize_append]
          omega
        · rw [List.map_cons, written.displace_of_le (by omega),
            List.append_assoc]
          exact .lexeme meetsStill decomposed

end Decomposes

end Cursor

/-- A source that is cut has a place for layout at each border of its lexemes,
the end included, and is then cut into the displaced lexemes. -/
theorem tokenize_insert {source : String} {tokenization : Tokenization}
    (tokenized : tokenize source = .ok tokenization) {lexeme : Lexeme}
    (member : lexeme ∈ tokenization.toList) {offset : Nat}
    (atBorder : offset = lexeme.span.start ∨ offset = lexeme.span.stop)
    {layout : String} (whole : WholeLayout layout.toList) :
    ∃ front back displaced,
      source = front ++ back ∧ offset = front.utf8ByteSize ∧
        tokenize (front ++ layout ++ back) = .ok displaced ∧
        displaced.toList =
          tokenization.toList.map
            (Lexeme.displace offset layout.utf8ByteSize) := by
  obtain ⟨decomposes, atEnd⟩ := (Cursor.tokenize_eq_ok_iff _ _).mp tokenized
  have border :
      Cursor.IsBorder (.ofSource source) tokenization.lexemes
        offset := by
    rcases List.mem_append.mp member with isOwn | isEnd
    · exact .inl ⟨lexeme, isOwn, atBorder⟩
    · rw [List.mem_singleton.mp isEnd] at atBorder
      exact .inr (atBorder.elim (·.trans atEnd) (·.trans atEnd))
  obtain ⟨front, back, split, isOffset, decomposed⟩ :=
    decomposes.insert whole border
  simp only [Cursor.ofSource, Nat.zero_add] at split isOffset decomposed atEnd
  have newText :
      (String.ofList front ++ layout ++ String.ofList back).toList =
        front ++ (layout.toList ++ back) := by
    simp
  refine
    ⟨String.ofList front, String.ofList back,
      { lexemes :=
          tokenization.lexemes.map
            (Lexeme.displace offset (byteSize layout.toList))
        size := byteSize layout.toList + tokenization.size }, ?_, ?_, ?_, ?_⟩
  · rw [← String.ofList_append, ← split, String.ofList_toList]
  · rw [isOffset, utf8ByteSize_ofList]
  · rw [tokenize, Cursor.ofSource, newText, decomposed.tokenize_eq]
    simp only [atEnd, split, byteSize_append]
    congr 2
    omega
  · rw [Tokenization.toList, Tokenization.toList, List.map_append,
      List.map_singleton, Lexeme.displace_endOfInput, byteSize_toList]

end Asdl
