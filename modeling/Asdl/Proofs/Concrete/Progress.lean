/-
What a reading by descent keeps on its way.

A trail is sound while its place is on the tape, every index asked for was on
the tape as well, no lexeme taken was the end of the input, and every call and
every round noted has moved on.  Each step that looks at a lexeme or takes one
keeps a trail sound, and so does a reading put together from such steps.  A loop
comes to an end because each of its rounds moves on towards the end of the tape.
-/

import Asdl.Concrete.Descent

namespace Asdl.Concrete

namespace Tape

variable {tape : Tape} {place : Nat}

theorem clamp_of_lt (inside : place < tape.size) :
    (tape.clamp place).val = place := by
  have below : place ≤ tape.size - 1 := by omega
  exact Nat.min_eq_left below

theorem getElem?_of_lt (inside : place < tape.size) :
    tape.lexemes[place]? = some (tape.lexemeAt place) := by
  have isIndex : place < tape.lexemes.size := inside
  rw [Array.getElem?_eq_getElem isIndex, lexemeAt, Fin.getElem_fin]
  simp only [clamp_of_lt inside]

private theorem succ_lt_size (inside : place < tape.size)
    (goesOn : (tape.lexemeAt place).token ≠ .endOfInput) :
    place + 1 < tape.size := by
  rcases Nat.lt_or_eq_of_le (Nat.succ_le_of_lt inside) with before | last
  · exact before
  · have ends := tape.ends
    rw [Array.back?_eq_getElem?] at ends
    have isLast : tape.lexemes.size - 1 = place := by
      change place + 1 = tape.lexemes.size at last
      omega
    rw [isLast, getElem?_of_lt inside] at ends
    exact absurd (Option.some.inj ends) goesOn

end Tape

/-- An index asked for needs no clamping, a lexeme taken leaves the place on the
tape, and calls and rounds end behind the place where they began. -/
def Event.Sound (tape : Tape) : Event → Prop
  | asked index => index < tape.size ∧ (tape.clamp index).val = index
  | took lexeme behind => lexeme.token ≠ .endOfInput ∧ behind < tape.size
  | called _ start stop => start < stop
  | repeated _ start stop => start < stop

/-- The lexemes taken are all those in front of the place. -/
structure Trail.Sound (tape : Tape) (trail : Trail) : Prop where
  inside : trail.place < tape.size
  events : ∀ event ∈ trail.events, event.Sound tape
  taken : trail.taken = tape.lexemes.toList.take trail.place

namespace Trail

variable {tape : Tape} {trail : Trail}

theorem sound_start (tape : Tape) : Trail.start.Sound tape :=
  { inside := tape.size_pos
    events := by
      intro event absent
      cases Array.not_mem_empty event absent
    taken := rfl }

theorem Sound.note {event : Event} (sound : trail.Sound tape)
    (noted : event.Sound tape) (takesNothing : event.lexeme? = none) :
    (trail.note event).Sound tape :=
  { inside := sound.inside
    events := by
      intro other member
      rcases Array.mem_push.mp member with earlier | rfl
      · exact sound.events other earlier
      · exact noted
    taken := (trail.taken_note takesNothing).trans sound.taken }

theorem Sound.ask {index : Nat} (sound : trail.Sound tape)
    (inside : index < tape.size) :
    (trail.note (.asked index)).Sound tape :=
  sound.note ⟨inside, Tape.clamp_of_lt inside⟩ rfl

theorem Sound.askHere (sound : trail.Sound tape) :
    (trail.note (.asked trail.place)).Sound tape :=
  sound.ask sound.inside

theorem Sound.take (sound : trail.Sound tape)
    (goesOn : (tape.lexemeAt trail.place).token ≠ .endOfInput) :
    (trail.take (tape.lexemeAt trail.place) (trail.place + 1)).Sound tape := by
  have behind := Tape.succ_lt_size sound.inside goesOn
  refine { inside := behind, events := ?_, taken := ?_ }
  · intro event member
    rcases Array.mem_push.mp member with earlier | rfl
    · exact sound.events event earlier
    · exact ⟨goesOn, behind⟩
  · have here := Tape.getElem?_of_lt sound.inside
    rw [← Array.getElem?_toList] at here
    rw [trail.taken_take, sound.taken]
    change _ = tape.lexemes.toList.take (trail.place + 1)
    rw [List.take_add_one, here]
    rfl

end Trail

/-! ### Readings that end -/

namespace Reading

variable {tape : Tape} {Refused : SyntaxError → Prop} {place : Nat}
variable {First Result Item : Type}

/-- From every sound trail at a place, the reading ends on a sound trail: with a
result and a place that meet the goal, or with a fault that is allowed. -/
def Meets (tape : Tape) (Refused : SyntaxError → Prop)
    (reading : Reading Result) (place : Nat) (Goal : Result → Nat → Prop) :
    Prop :=
  ∀ trail : Trail, trail.Sound tape → trail.place = place →
    ∃ outcome after,
      reading.outcome? trail = some (outcome, after) ∧ after.Sound tape ∧
        match outcome with
        | .ok result => Goal result after.place
        | .error error => Refused error

theorem meets_pure {Goal : Result → Nat → Prop} {result : Result}
    (met : Goal result place) :
    Meets tape Refused (pure result) place Goal := by
  rintro trail sound rfl
  exact ⟨_, _, outcome?_pure result trail, sound, met⟩

theorem Meets.bind {reading : Reading First} {next : First → Reading Result}
    {Middle : First → Nat → Prop} {Goal : Result → Nat → Prop}
    (first : Meets tape Refused reading place Middle)
    (further : ∀ result behind, Middle result behind →
      Meets tape Refused (next result) behind Goal) :
    Meets tape Refused (reading >>= next) place Goal := by
  intro trail sound here
  obtain ⟨outcome, after, ended, afterSound, met⟩ := first trail sound here
  rw [outcome?_bind, ended]
  cases outcome with
  | ok result => exact further result after.place met after afterSound rfl
  | error error => exact ⟨_, _, rfl, afterSound, met⟩

theorem Meets.mono {reading : Reading Result}
    {Goal Weaker : Result → Nat → Prop}
    (meets : Meets tape Refused reading place Goal)
    (weaker : ∀ result behind, Goal result behind → Weaker result behind) :
    Meets tape Refused reading place Weaker := by
  intro trail sound here
  obtain ⟨outcome, after, ended, afterSound, met⟩ := meets trail sound here
  refine ⟨outcome, after, ended, afterSound, ?_⟩
  cases outcome with
  | ok result => exact weaker result after.place met
  | error error => exact met

/-- From every sound trail the reading ends, and it has moved on if it has a
result. -/
def MovesOn (tape : Tape) (reading : Reading Result) : Prop :=
  ∀ place, reading.Meets tape (fun _ => True) place fun _ behind =>
    place < behind

theorem Meets.movesOn {reading : Reading Result} {Goal : Result → Nat → Prop}
    (meets : Meets tape Refused reading place fun result behind =>
      place < behind ∧ Goal result behind) :
    Meets tape (fun _ => True) reading place fun _ behind =>
      place < behind := by
  intro trail sound here
  obtain ⟨outcome, after, ended, afterSound, met⟩ := meets trail sound here
  refine ⟨outcome, after, ended, afterSound, ?_⟩
  cases outcome with
  | ok result => exact met.1
  | error error => trivial

theorem Meets.noting {procedure : Procedure} {reading : Reading Result}
    {Goal : Result → Nat → Prop}
    (meets : Meets tape Refused reading place fun result behind =>
      place < behind ∧ Goal result behind) :
    Meets tape Refused (noting (.called procedure) reading) place
      fun result behind => place < behind ∧ Goal result behind := by
  rintro trail sound rfl
  obtain ⟨outcome, after, ended, afterSound, met⟩ := meets trail sound rfl
  rw [outcome?_noting, ended]
  cases outcome with
  | ok result =>
      refine ⟨_, _, rfl, ?_, met⟩
      exact afterSound.note met.1 rfl
  | error error => exact ⟨_, _, rfl, afterSound, met⟩

/-- A loop whose rounds move on comes to an end, and keeps what each of its
rounds keeps. -/
theorem Meets.rounds {loop : Loop} {next? : Reading (Option Item)}
    (Kept Done : List Item → Nat → Prop)
    (round : ∀ earlier place, Kept earlier place →
      Meets tape Refused next? place fun item? behind =>
        match item? with
        | none => Done earlier behind
        | some item => place < behind ∧ Kept (earlier ++ [item]) behind)
    {earlier : List Item} (kept : Kept earlier place) :
    Meets tape Refused (loop.rounds next? earlier) place Done := by
  induction room : tape.size - place using Nat.strongRecOn
    generalizing earlier place with
  | ind room ih =>
      rintro trail sound rfl
      obtain ⟨outcome, after, ended, afterSound, met⟩ :=
        round earlier trail.place kept trail sound rfl
      rw [Loop.outcome?_rounds, ended]
      cases outcome with
      | error error => exact ⟨_, _, rfl, afterSound, met⟩
      | ok item? =>
          cases item? with
          | none => exact ⟨_, _, rfl, afterSound, met⟩
          | some item =>
              obtain ⟨movedOn, keptAfter⟩ := met
              have inside := sound.inside
              exact ih (tape.size - after.place) (by omega) keptAfter rfl _
                (afterSound.note movedOn rfl) rfl

theorem meets_current :
    Meets tape Refused (current tape) place fun lexeme behind =>
      lexeme = tape.lexemeAt place ∧ behind = place := by
  rintro trail sound rfl
  exact ⟨_, _, rfl, sound.askHere, rfl, rfl⟩

theorem meets_previousSpan (moved : 0 < place) :
    Meets tape Refused (previousSpan tape) place fun span behind =>
      span = (tape.lexemeAt (place - 1)).span ∧ behind = place := by
  rintro trail sound rfl
  have asked :
      (previousSpan tape).outcome? trail =
        some
          (.ok (tape.lexemeAt (trail.place - 1)).span,
            trail.note (.asked (trail.place - 1))) := by
    unfold previousSpan
    change Reading.outcome? (if trail.place = 0 then _ else _) trail = _
    rw [if_neg (Nat.ne_of_gt moved)]
    rfl
  have inside := sound.inside
  exact ⟨_, _, asked, sound.ask (by omega), rfl, rfl⟩

theorem meets_advance
    (goesOn : (tape.lexemeAt place).token ≠ .endOfInput) :
    Meets tape Refused (advance tape) place fun lexeme behind =>
      lexeme = tape.lexemeAt place ∧ behind = place + 1 := by
  rintro trail sound rfl
  have took :
      (advance tape).outcome? trail =
        some
          (.ok (tape.lexemeAt trail.place),
            (trail.note (.asked trail.place)).take
              (tape.lexemeAt trail.place) (trail.place + 1)) := by
    change
      some
          (_,
            (trail.note (.asked trail.place)).take
              (tape.lexemeAt trail.place)
              (if trail.place < tape.size then _ else _)) =
        _
    rw [if_pos sound.inside]
  exact ⟨_, _, took, sound.askHere.take goesOn, rfl, rfl⟩

theorem meets_check {token : Token} :
    Meets tape Refused (check tape token) place fun found behind =>
      behind = place ∧
        match found with
        | true => (tape.lexemeAt place).token = token
        | false => (tape.lexemeAt place).token ≠ token := by
  refine meets_current.bind ?_
  rintro _ here ⟨rfl, rfl⟩
  refine meets_pure ⟨rfl, ?_⟩
  by_cases same : (tape.lexemeAt here).token = token
  · rw [decide_eq_true same]
    exact same
  · rw [decide_eq_false same]
    exact same

theorem meets_eat {token : Token} (isMark : token ≠ .endOfInput) :
    Meets tape Refused (eat tape token) place fun span? behind =>
      match span? with
      | some span =>
          (tape.lexemeAt place).token = token ∧
            span = (tape.lexemeAt place).span ∧ behind = place + 1
      | none => (tape.lexemeAt place).token ≠ token ∧ behind = place := by
  refine meets_check.bind ?_
  rintro (_ | _) here ⟨rfl, found⟩
  · exact meets_pure ⟨found, rfl⟩
  · have goesOn : (tape.lexemeAt here).token ≠ .endOfInput := by
      rw [found]
      exact isMark
    refine (meets_advance goesOn).bind ?_
    rintro _ _ ⟨rfl, rfl⟩
    exact meets_pure ⟨found, rfl, rfl⟩

theorem meets_refuse {fault : Token → SyntaxFault}
    {Goal : Result → Nat → Prop}
    (refused :
      Refused
        { fault := fault (tape.lexemeAt place).token
          span := (tape.lexemeAt place).span }) :
    Meets tape Refused (refuse tape fault) place Goal := by
  refine meets_current.bind ?_
  rintro _ _ ⟨rfl, rfl⟩
  refine meets_current.bind ?_
  rintro _ _ ⟨rfl, rfl⟩
  rintro trail sound rfl
  exact ⟨_, _, rfl, sound, refused⟩

theorem meets_expect {token : Token} (isMark : token ≠ .endOfInput)
    (refused : (tape.lexemeAt place).token ≠ token →
      Refused
        { fault := .expectedToken token (tape.lexemeAt place).token
          span := (tape.lexemeAt place).span }) :
    Meets tape Refused (expect tape token) place fun lexeme behind =>
      lexeme = tape.lexemeAt place ∧ lexeme.token = token ∧
        behind = place + 1 := by
  refine meets_check.bind ?_
  rintro (_ | _) here ⟨rfl, found⟩
  · exact meets_refuse (refused found)
  · have goesOn : (tape.lexemeAt here).token ≠ .endOfInput := by
      rw [found]
      exact isMark
    refine (meets_advance goesOn).mono ?_
    rintro _ _ ⟨rfl, rfl⟩
    exact ⟨rfl, found, rfl⟩

theorem meets_word? :
    Meets tape Refused (word? tape) place fun name? behind =>
      name? = (tape.lexemeAt place).token.word? ∧ behind = place := by
  refine meets_current.bind ?_
  rintro _ _ ⟨rfl, rfl⟩
  exact meets_pure ⟨rfl, rfl⟩

theorem meets_identifier
    (refused : Identifier.ofLexeme? (tape.lexemeAt place) = none →
      Refused
        { fault := .expectedIdentifier (tape.lexemeAt place).token
          span := (tape.lexemeAt place).span }) :
    Meets tape Refused (identifier tape) place fun id behind =>
      Identifier.ofLexeme? (tape.lexemeAt place) = some id ∧
        behind = place + 1 := by
  refine meets_word?.bind ?_
  rintro name? here ⟨isWord, rfl⟩
  cases name? with
  | some name =>
      have goesOn : (tape.lexemeAt here).token ≠ .endOfInput := by
        intro isEnd
        rw [isEnd] at isWord
        cases isWord
      refine meets_current.bind ?_
      rintro _ _ ⟨rfl, rfl⟩
      refine (meets_advance goesOn).bind ?_
      rintro _ _ ⟨rfl, rfl⟩
      refine meets_pure ⟨?_, rfl⟩
      rw [Identifier.ofLexeme?, ← isWord]
      rfl
  | none =>
      refine meets_refuse (refused ?_)
      rw [Identifier.ofLexeme?, ← isWord]
      rfl

private theorem meets_separated {separator : Token} {item : Reading Item}
    {Goal : Item → Nat → Prop} (isMark : separator ≠ .endOfInput)
    (meets : (tape.lexemeAt place).token = separator →
      Meets tape Refused item (place + 1) Goal) :
    Meets tape Refused (separated tape separator item) place
      fun item? behind =>
        match item? with
        | some item => Goal item behind
        | none =>
            (tape.lexemeAt place).token ≠ separator ∧ behind = place := by
  refine (meets_eat isMark).bind ?_
  rintro (_ | span) _ eaten
  · exact meets_pure eaten
  · obtain ⟨isSeparator, rfl, rfl⟩ := eaten
    refine (meets isSeparator).bind ?_
    intro next behind met
    exact meets_pure met

/-- Items behind separators are read until no separator follows. -/
theorem Meets.row {loop : Loop} {separator : Token} {item : Reading Item}
    {earlier : List Item} (Kept : List Item → Nat → Prop)
    (isMark : separator ≠ .endOfInput)
    (each : ∀ items here, Kept items here →
      (tape.lexemeAt here).token = separator →
      Meets tape Refused item (here + 1) fun next behind =>
        here < behind ∧ Kept (items ++ [next]) behind)
    (kept : Kept earlier place) :
    Meets tape Refused (loop.rounds (separated tape separator item) earlier)
      place fun items behind =>
        Kept items behind ∧ (tape.lexemeAt behind).token ≠ separator := by
  refine Meets.rounds Kept _ ?_ kept
  intro items here keptHere
  refine (meets_separated isMark (each items here keptHere)).mono ?_
  rintro (_ | next) behind met
  · obtain ⟨noSeparator, rfl⟩ := met
    exact ⟨keptHere, noSeparator⟩
  · exact met

end Reading

end Asdl.Concrete
