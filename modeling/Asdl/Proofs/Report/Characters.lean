/-
What a report shows to a reader who counts characters.

The ranges of a report count bytes.  Where characters are counted instead, a
range lies further to the right, by one character for each byte that the text
in front of it has beyond one byte a character.  So the range of a name begins
with the name where that text is plain, and where it is not the range begins
at another place.
-/

import Asdl.Proofs.Report.Pointing

namespace Asdl

/-- Every character takes one byte. -/
def IsPlain (text : List Char) : Prop :=
  ∀ character ∈ text, character.val ≤ 0x7f

instance (text : List Char) : Decidable (IsPlain text) :=
  List.decidableBAll _ text

/-- The bytes of a text beyond one for each character. -/
def surplus (text : List Char) : Nat :=
  byteSize text - text.length

theorem length_le_byteSize (text : List Char) :
    text.length ≤ byteSize text := by
  induction text with
  | nil => exact Nat.le_refl 0
  | cons character rest ih =>
      have width := character.utf8Size_pos
      rw [List.length_cons, byteSize_cons]
      omega

theorem byteSize_eq_length_iff (text : List Char) :
    byteSize text = text.length ↔ IsPlain text := by
  unfold IsPlain
  induction text with
  | nil => simp
  | cons character rest ih =>
      have width := character.utf8Size_pos
      have behind := length_le_byteSize rest
      rw [List.forall_mem_cons, ← ih, ← Char.utf8Size_eq_one_iff,
        byteSize_cons, List.length_cons]
      omega

/-- The characters that end within a number of bytes. -/
def takeBytes : Nat → List Char → List Char
  | _, [] => []
  | size, character :: rest =>
      if character.utf8Size ≤ size then
        character :: takeBytes (size - character.utf8Size) rest
      else
        []

private theorem takeBytes_append (front behind : List Char) :
    takeBytes (byteSize front) (front ++ behind) = front := by
  induction front with
  | nil =>
      cases behind with
      | nil => rfl
      | cons character rest =>
          have width := character.utf8Size_pos
          have tooWide : ¬ character.utf8Size ≤ 0 := by omega
          rw [List.nil_append, byteSize_nil, takeBytes, if_neg tooWide]
  | cons character rest ih =>
      rw [List.cons_append, byteSize_cons, takeBytes,
        if_pos (Nat.le_add_right _ _), Nat.add_sub_cancel_left, ih]

namespace Span

def front (span : Span) (source : String) : List Char :=
  takeBytes span.start source.toList

def characters (span : Span) (source : String) : List Char :=
  (source.toList.drop span.start).take span.length

/-- The range is that of a name with a text behind it.  In characters it lies
further on, by the surplus of the text in front. -/
structure Strays (span : Span) (source name : String) (behind : List Char) :
    Prop where
  split : source.toList = span.front source ++ (name.toList ++ behind)
  moved :
    span.characters source =
      ((name.toList ++ behind).drop (surplus (span.front source))).take
        span.length
  inPlace :
    span.start = (span.front source).length ↔ IsPlain (span.front source)
  opens :
    IsPlain (span.front source) → name.toList <+: span.characters source

theorem Selects.exists_strays {span : Span} {source name rest : String}
    (selects : span.Selects source (name ++ rest)) :
    ∃ behind, span.Strays source name behind := by
  obtain ⟨front, behind, rfl, starts, stops⟩ := selects
  rw [← byteSize_toList] at starts stops
  have split :
      (front ++ (name ++ rest) ++ behind).toList =
        front.toList ++ (name.toList ++ (rest.toList ++ behind.toList)) := by
    simp
  have isFront :
      span.front (front ++ (name ++ rest) ++ behind) = front.toList := by
    rw [Span.front, split, starts, takeBytes_append]
  have moved :
      span.characters (front ++ (name ++ rest) ++ behind) =
        ((name.toList ++ (rest.toList ++ behind.toList)).drop
          (surplus front.toList)).take span.length := by
    have passed := length_le_byteSize front.toList
    rw [characters, split, starts, List.drop_append,
      List.drop_eq_nil_of_le passed, List.nil_append, surplus]
  refine ⟨rest.toList ++ behind.toList, ?_⟩
  refine
    { split := ?_
      moved := ?_
      inPlace := ?_
      opens := ?_ }
  · rw [isFront, split]
  · rw [isFront, moved]
  · rw [isFront, starts, byteSize_eq_length_iff]
  · rw [isFront]
    intro plain
    have noSurplus : surplus front.toList = 0 := by
      rw [surplus, (byteSize_eq_length_iff front.toList).mpr plain,
        Nat.sub_self]
    have enough : name.toList.length ≤ span.length := by
      have narrow := length_le_byteSize name.toList
      simp only [String.toList_append, byteSize_append] at stops
      rw [Span.length]
      omega
    rw [moved, noSurplus, List.drop_zero, List.prefix_take_iff]
    exact ⟨List.prefix_append _ _, enough⟩

end Span

/-- The report has one red range, and this is the range of the name. -/
def Report.Strays (source name : String) (report : Report) : Prop :=
  ∃ red behind,
    report.spans .red = [red] ∧ red.Strays source name behind

/-- The red range of a name that is defined again, and of a type that is not
defined, in characters: it begins with the name where the text in front of it
is plain, and else it lies further on. -/
theorem diagnose_strays (path : String) {source : String} {module : Module}
    (parsed : Module.parse source = .ok module) :
    (∀ fault, compile module = .error fault →
      ∃ name span previous?,
        fault = .duplicateDefinition name span previous? ∧
          diagnose path source = [.ofStructuralFault path fault] ∧
          (Report.ofStructuralFault path fault).Strays source name) ∧
      ∀ compilation, compile module = .ok compilation →
        ∀ owner name span,
          .undefinedType owner name span ∈ compilation.faults →
            .ofSemanticFault path (.undefinedType owner name span) ∈
                diagnose path source ∧
              (Report.ofSemanticFault path
                (.undefinedType owner name span)).Strays source name := by
  constructor
  · intro fault refused
    obtain ⟨_, name, span, previous?, isFault, clashes⟩ :=
      clashes_of_compile_error parsed refused
    obtain ⟨red, _, isRed, _, selects, _⟩ := clashes
    have whole : red.Selects source (name ++ "") := by
      rw [String.append_empty]
      exact selects
    obtain ⟨behind, strays⟩ := whole.exists_strays
    exact
      ⟨name, span, previous?, isFault, diagnose_of_compile_error parsed refused,
        red, behind, isRed, strays⟩
  · intro compilation compiled owner name span member
    obtain ⟨_, red, isRed, opens⟩ :=
      shows_of_compile parsed compiled _ member
    obtain ⟨rest, _, _, selects, _⟩ := opens
    obtain ⟨behind, strays⟩ := selects.exists_strays
    refine ⟨?_, red, behind, isRed, strays⟩
    rw [diagnose_of_compile parsed compiled]
    exact List.mem_map_of_mem member

def Module.strandedText (front behind : String) : String :=
  front ++ "module M \x7b A = (Bogus" ++ behind ++ ") \x7d"

def Module.stranded (front behind : Nat) : Module :=
  { name := "M"
    definitions :=
      [{ name := "A"
         body :=
           .product
             [{ typeName := "Bogus"
                cardinality := .single
                name? := none
                span := ⟨front + 16, front + 21⟩ }]
         attributes := []
         nameSpan := ⟨front + 11, front + 12⟩
         span := ⟨front + 11, front + behind + 22⟩ }]
    span := ⟨front, front + behind + 24⟩ }

def Module.twiceText : String :=
  "module M \x7b A = B A = C -- é\n \x7d"

def Module.twice : Module :=
  let definition (name : String) (start : Nat) : Definition :=
    { name := "A"
      body :=
        .sum
          [{ name := name
             members := []
             span := ⟨start + 4, start + 5⟩ }]
      attributes := []
      nameSpan := ⟨start, start + 1⟩
      span := ⟨start, start + 5⟩ }
  { name := "M"
    definitions := [definition "B" 11, definition "C" 17]
    span := ⟨0, 31⟩ }

theorem strays_plain :
    (∃ red,
      (diagnose "m" (Module.strandedText "" " -- é\n")).map
          (Report.spans .red) = [[red]] ∧
        "Bogus".toList <+:
          red.characters (Module.strandedText "" " -- é\n")) ∧
      ∃ red,
        (diagnose "m" Module.twiceText).map (Report.spans .red) = [[red]] ∧
          "A".toList <+: red.characters Module.twiceText := by
  constructor
  · have parsed :
        Module.parse (Module.strandedText "" " -- é\n") =
          .ok (Module.stranded 0 7) := by
      decide +kernel
    have compiled :
        compile (Module.stranded 0 7) = .ok (Module.stranded 0 7).linked :=
      (compile_eq_ok_iff _ _).mpr ⟨by decide, rfl⟩
    have member :
        .undefinedType "A" "Bogus" ⟨16, 21⟩ ∈
          (Module.stranded 0 7).linked.faults := by
      decide +kernel
    obtain ⟨_, red, _, isRed, strays⟩ :=
      (diagnose_strays "m" parsed).2 _ compiled _ _ _ member
    cases isRed
    exact ⟨_, by decide +kernel, strays.opens (by decide +kernel)⟩
  · have parsed : Module.parse Module.twiceText = .ok Module.twice := by
      decide +kernel
    have refused :
        compile Module.twice =
          .error (.duplicateDefinition "A" ⟨17, 18⟩ (some ⟨11, 12⟩)) := by
      decide +kernel
    obtain ⟨name, _, _, isFault, reports, red, _, isRed, strays⟩ :=
      (diagnose_strays "m" parsed).1 _ refused
    cases isFault
    cases isRed
    refine ⟨_, ?_, strays.opens (by decide +kernel)⟩
    rw [reports]
    rfl

/-- Behind a comment with a wide character the range shows the name from its
second character on. -/
theorem not_prefix_stranded :
    ∃ module compilation red,
      Module.parse (Module.strandedText "-- é\n" "") = .ok module ∧
        compile module = .ok compilation ∧
        compilation.faults = [.undefinedType "A" "Bogus" red] ∧
        (diagnose "m" (Module.strandedText "-- é\n" "")).map
            (Report.spans .red) = [[red]] ∧
        red.characters (Module.strandedText "-- é\n" "") =
          "ogus)".toList ∧
        ¬ "Bogus".toList <+:
            red.characters (Module.strandedText "-- é\n" "") := by
  have parsed :
      Module.parse (Module.strandedText "-- é\n" "") =
        .ok (Module.stranded 6 0) := by
    decide +kernel
  have compiled :
      compile (Module.stranded 6 0) = .ok (Module.stranded 6 0).linked :=
    (compile_eq_ok_iff _ _).mpr ⟨by decide, rfl⟩
  refine ⟨_, _, ⟨22, 27⟩, parsed, compiled, ?_, ?_, ?_, ?_⟩
  · decide +kernel
  · decide +kernel
  · decide +kernel
  · decide +kernel

end Asdl
