import Script.Parsing.Cursor
import Script.Proofs.Parsing.Outcome

/-! The cursor before the tokens that are still to be parsed, and how each way to go on from there
follows the rules of the grammar. -/

namespace Script

/-- The report of a complaint, with the place of the token that it is about. -/
def TokenStream.report (stream : TokenStream) (complaint : Complaint) : Report :=
  ⟨stream.blame complaint, stream.pending.length - complaint.remaining.length⟩

namespace Parser

variable (stream : TokenStream) (beyond : List Token)

/-- The parser before `input`, which is an end of the tokens to be parsed. Behind these stands the
end mark, and behind that, what is out of reach. -/
def facing (input : List Token) (reports : List Report) : Parser where
  tokens := stream.pending ++ stream.last :: beyond
  current := stream.pending.length - input.length
  trail := List.range (stream.pending.length - input.length + 1)
  reports := reports

end Parser

/-- What an outcome amounts to for the parser before its input. -/
def Outcome.shown {α : Type} {progress : Bool} {input : List Token} (stream : TokenStream)
    (beyond : List Token) (reports : List Report) : Outcome α progress input → Parser.Result α
  | .accepted value rest _ notes =>
    .done value (Parser.facing stream beyond rest (reports ++ notes.map stream.report))
  | .stopped complaint _ notes =>
    .raised (stream.report complaint)
      (Parser.facing stream beyond complaint.remaining (reports ++ notes.map stream.report))

section Shown

variable {α : Type} {progress asked : Bool} {input : List Token} {stream : TokenStream}
  {beyond : List Token} {reports : List Report} {outcome : Outcome α progress input}

@[simp] theorem Outcome.shown_behind {token : Token} :
    (outcome.behind token : Outcome α asked (token :: input)).shown stream beyond reports =
      outcome.shown stream beyond reports := by
  cases outcome <;> rfl

@[simp] theorem Outcome.shown_relax :
    outcome.relax.shown stream beyond reports = outcome.shown stream beyond reports := by
  cases outcome <;> rfl

theorem Outcome.noting_andThen {β : Type} {further : Bool} {earlier : List Complaint}
    {next : α → (rest : List Token) → Moved progress rest input → Outcome β further rest} :
    (outcome.noting earlier).andThen next = (outcome.andThen next).noting earlier := by
  cases outcome with
  | stopped complaint within notes => rfl
  | accepted value rest moved notes =>
    unfold noting andThen
    dsimp only
    cases next value rest moved <;> simp

theorem Outcome.shown_noting {earlier : List Complaint} :
    (outcome.noting earlier).shown stream beyond reports =
      outcome.shown stream beyond (reports ++ earlier.map stream.report) := by
  cases outcome <;> simp [noting, shown]

end Shown

namespace Parser

namespace Run

variable {α β : Type} {first : Run α} {next : α → Run β} {parser after : Parser}

theorem bind_of_done {value : α} (done : first parser = .done value after) :
    (first >>= next) parser = next value after := by
  show Run.bind first next parser = _
  rw [Run.bind, done]

theorem bind_of_raised {report : Report} (raised : first parser = .raised report after) :
    (first >>= next) parser = .raised report after := by
  show Run.bind first next parser = _
  rw [Run.bind, raised]

end Run

open Run (bind_of_done bind_of_raised)

variable {stream : TokenStream} {beyond : List Token} {input after : List Token} {token : Token}
  {reports : List Report} {tag : Tag} {cause : ParseCause}

section Primitives

/-- The tokens of the parser in front of its input. -/
theorem exists_tokens_facing (beyond : List Token) (reports : List Report)
    (within : input <:+ stream.pending) :
    ∃ before,
      (facing stream beyond input reports).tokens = before ++ input ++ stream.last :: beyond ∧
      (facing stream beyond input reports).current = before.length := by
  obtain ⟨before, split⟩ := within
  refine ⟨before, by rw [facing, split], ?_⟩
  simp only [facing, ← split, List.length_append, Nat.add_sub_cancel]

theorem peek_facing (within : input <:+ stream.pending) :
    peek (facing stream beyond input reports) =
      .done (input.headD stream.last) (facing stream beyond input reports) := by
  obtain ⟨before, tokens, current⟩ := exists_tokens_facing beyond reports within
  show tokenAt (facing stream beyond input reports).current _ = _
  rw [tokenAt, tokens, current, List.append_assoc, List.getElem?_append_right (Nat.le_refl _)]
  cases input <;> simp

theorem isAtEnd_facing (within : input <:+ stream.pending) :
    isAtEnd (facing stream beyond input reports) =
      .done input.isEmpty (facing stream beyond input reports) := by
  refine (bind_of_done (peek_facing within)).trans ?_
  cases input with
  | nil => exact congrArg (Result.done · _) stream.last_closes
  | cons token after =>
    exact congrArg (Result.done · _) (stream.pending_open token (within.subset (by simp)))

theorem check_facing (within : input <:+ stream.pending) :
    check tag (facing stream beyond input reports) =
      .done (Rule.nextIs tag input) (facing stream beyond input reports) := by
  refine (bind_of_done (isAtEnd_facing within)).trans ?_
  cases input with
  | nil => rfl
  | cons token after => exact bind_of_done (peek_facing within)

theorem checkAny_facing (within : input <:+ stream.pending) (tags : List Tag) :
    checkAny tags (facing stream beyond input reports) =
      .done (tags.any (Rule.nextIs · input)) (facing stream beyond input reports) := by
  induction tags with
  | nil => rfl
  | cons tag tags ih =>
    refine (bind_of_done (check_facing within)).trans ?_
    cases found : Rule.nextIs tag input with
    | true => simp [found]; rfl
    | false => simpa [found] using ih

/-- The token passed over last. -/
theorem previous_facing (within : token :: after <:+ stream.pending) :
    previous (facing stream beyond after reports) =
      .done token (facing stream beyond after reports) := by
  obtain ⟨before, split⟩ := within
  have place : stream.pending.length - after.length - 1 = before.length := by
    simp only [← split, List.length_append, List.length_cons]
    omega
  show tokenAt (stream.pending.length - after.length - 1) _ = _
  rw [tokenAt, place]
  simp only [facing, ← split, List.append_assoc, List.cons_append, List.getElem?_append_right,
    Nat.le_refl, Nat.sub_self, List.getElem?_cons_zero]

theorem previous_at_end (stream : TokenStream) (beyond : List Token) (reports : List Report) :
    ∃ token, previous (facing stream beyond [] reports) =
      .done token (facing stream beyond [] reports) := by
  have inside : stream.pending.length - 1 <
      (facing stream beyond [] reports).tokens.length := by
    simp only [facing, List.length_append, List.length_cons]
    omega
  refine ⟨(facing stream beyond [] reports).tokens[stream.pending.length - 1], ?_⟩
  show tokenAt (stream.pending.length - 1) _ = _
  rw [tokenAt, List.getElem?_eq_getElem inside]

theorem step_facing (within : token :: after <:+ stream.pending) :
    step (facing stream beyond (token :: after) reports) =
      .done () (facing stream beyond after reports) := by
  have shorter := within.length_le
  have next : stream.pending.length - (after.length + 1) + 1 =
      stream.pending.length - after.length := by
    rw [List.length_cons] at shorter
    omega
  simp only [step, facing, List.length_cons, next, ← List.range_succ]

theorem advance_facing (within : token :: after <:+ stream.pending) :
    advance (facing stream beyond (token :: after) reports) =
      .done token (facing stream beyond after reports) := by
  refine (bind_of_done (isAtEnd_facing within)).trans ?_
  exact (bind_of_done (step_facing within)).trans (previous_facing within)

theorem advance_at_end (stream : TokenStream) (beyond : List Token) (reports : List Report) :
    ∃ token, advance (facing stream beyond [] reports) =
      .done token (facing stream beyond [] reports) := by
  obtain ⟨token, found⟩ := previous_at_end stream beyond reports
  exact ⟨token, (bind_of_done (isAtEnd_facing List.nil_suffix)).trans found⟩

theorem accept_of_next (found : token.is tag = true) (within : token :: after <:+ stream.pending) :
    accept tag (facing stream beyond (token :: after) reports) =
      .done true (facing stream beyond after reports) := by
  refine (bind_of_done (check_facing within)).trans ?_
  simp only [Rule.nextIs, found, ↓reduceIte]
  exact bind_of_done (advance_facing within)

theorem accept_of_other (other : Rule.nextIs tag input = false)
    (within : input <:+ stream.pending) :
    accept tag (facing stream beyond input reports) =
      .done false (facing stream beyond input reports) := by
  refine (bind_of_done (check_facing within)).trans ?_
  simp only [other, Bool.false_eq_true, ↓reduceIte]
  rfl

theorem blamePeek_facing (within : input <:+ stream.pending) :
    blamePeek cause (facing stream beyond input reports) =
      .done (stream.report ⟨cause, input⟩) (facing stream beyond input reports) :=
  bind_of_done (peek_facing within)

theorem blamePrevious_facing (within : token :: after <:+ stream.pending) :
    blamePrevious cause (facing stream beyond after reports) =
      .done (stream.report ⟨cause, token :: after⟩) (facing stream beyond after reports) :=
  (bind_of_done (previous_facing within)).trans rfl

theorem noteIf_facing (holds : Bool) (within : input <:+ stream.pending) :
    noteIf cause holds (facing stream beyond input reports) =
      .done () (facing stream beyond input
        (reports ++ (if holds then [⟨cause, input⟩] else []).map stream.report)) := by
  cases holds with
  | false => exact congrArg (Result.done ()) (by simp)
  | true => exact bind_of_done (blamePeek_facing within)

end Primitives

/-- Before this input the run does what the rule makes of it. -/
def Follows {α : Type} {progress : Bool} (stream : TokenStream) (beyond : List Token) (run : Run α)
    (outcome : Outcome α progress input) : Prop :=
  ∀ reports, run (facing stream beyond input reports) = outcome.shown stream beyond reports

namespace Follows

variable {α β : Type} {progress further : Bool} {run : Run α} {outcome : Outcome α progress input}

theorem done (value : α) :
    Follows stream beyond (pure value) (Outcome.done value : Outcome α false input) := by
  intro reports
  simp only [Outcome.done, Outcome.shown, List.map_nil, List.append_nil]
  rfl

theorem andThen {next : α → Run β}
    {rest : α → (rest : List Token) → Moved progress rest input → Outcome β further rest}
    (first : Follows stream beyond run outcome)
    (goOn : ∀ value left moved, Follows stream beyond (next value) (rest value left moved)) :
    Follows stream beyond (run >>= next) (outcome.andThen rest) := by
  intro reports
  have start := first reports
  cases outcome with
  | stopped complaint within notes => exact bind_of_raised start
  | accepted value left moved notes =>
    refine (bind_of_done start).trans ((goOn value left moved _).trans ?_)
    unfold Outcome.andThen
    dsimp only
    cases rest value left moved <;>
      simp only [Outcome.shown, List.map_append, List.append_assoc]

theorem map {change : α → β} (follows : Follows stream beyond run outcome) :
    Follows stream beyond (do return change (← run)) (outcome.map change) := by
  intro reports
  have start := follows reports
  cases outcome with
  | stopped complaint within notes => exact bind_of_raised start
  | accepted value left moved notes => exact bind_of_done start

theorem relax (follows : Follows stream beyond run outcome) :
    Follows stream beyond run outcome.relax :=
  fun reports => (follows reports).trans Outcome.shown_relax.symm

/-- What is noted about the next token comes before all that the run notes. -/
theorem noting (holds : Bool) (within : input <:+ stream.pending)
    (follows : Follows stream beyond run outcome) :
    Follows stream beyond (do noteIf cause holds; run)
      (outcome.noting (if holds then [⟨cause, input⟩] else [])) := by
  intro reports
  rw [Outcome.shown_noting]
  exact (bind_of_done (noteIf_facing holds within)).trans (follows _)

theorem raise_peek {what : Expectation} (within : input <:+ stream.pending) :
    Follows stream beyond (do Run.raise (← blamePeek (.expected what)))
      (Outcome.stop what : Outcome α progress input) := by
  intro reports
  simp only [Outcome.stop, Outcome.shown, List.map_nil, List.append_nil]
  exact bind_of_done (blamePeek_facing within)

theorem expect {what : Expectation} (within : input <:+ stream.pending) :
    Follows stream beyond (consume tag what) (Rule.expect tag what input) := by
  intro reports
  refine (bind_of_done (check_facing within)).trans ?_
  cases input with
  | nil => exact raise_peek within reports
  | cons token after =>
    by_cases found : token.is tag = true
    · simp only [Rule.nextIs, Rule.expect, found, ↓reduceIte, Outcome.shown_behind]
      exact (advance_facing within).trans (done token reports)
    · simp only [Rule.nextIs, Rule.expect, found, Bool.false_eq_true, ↓reduceIte]
      exact raise_peek within reports

/-- A choice that takes the next token. -/
theorem accepted {yes no : Run α} {outcome : Outcome α progress after}
    (found : token.is tag = true) (within : token :: after <:+ stream.pending)
    (follows : Follows stream beyond yes outcome) :
    Follows stream beyond (do if ← accept tag then yes else no)
      (outcome.behind token : Outcome α further (token :: after)) := by
  intro reports
  rw [Outcome.shown_behind]
  exact (bind_of_done (accept_of_next found within)).trans (follows reports)

/-- A choice that leaves the next token. -/
theorem refused {yes no : Run α} (other : Rule.nextIs tag input = false)
    (within : input <:+ stream.pending) (follows : Follows stream beyond no outcome) :
    Follows stream beyond (do if ← accept tag then yes else no) outcome :=
  fun reports => (bind_of_done (accept_of_other other within)).trans (follows reports)

/-- A choice that leaves the next token, as it is of another kind. -/
theorem refused_of_is {yes no : Run α} {outcome : Outcome α progress (token :: after)} {other : Tag}
    (found : token.is tag = true) (apart : tag ≠ other) (within : token :: after <:+ stream.pending)
    (follows : Follows stream beyond no outcome) :
    Follows stream beyond (do if ← accept other then yes else no) outcome :=
  refused (Token.is_eq_false found other apart) within follows

/-- A choice between several tokens that takes the next one. -/
theorem acceptedAny {tags : List Tag} {yes : Token → Run α} {no : Run α}
    {outcome : Outcome α progress after} (found : tags.any token.is = true)
    (within : token :: after <:+ stream.pending)
    (follows : Follows stream beyond (yes token) outcome) :
    Follows stream beyond
      (do
        if ← checkAny tags then
          let token ← advance
          yes token
        else no)
      (outcome.behind token : Outcome α further (token :: after)) := by
  intro reports
  rw [Outcome.shown_behind]
  refine (bind_of_done (checkAny_facing within tags)).trans ?_
  have next : tags.any (Rule.nextIs · (token :: after)) = true := found
  simp only [next, ↓reduceIte]
  exact (bind_of_done (advance_facing within)).trans (follows reports)

theorem refusedAny {tags : List Tag} {yes : Token → Run α} {no : Run α}
    (other : tags.any (Rule.nextIs · input) = false) (within : input <:+ stream.pending)
    (follows : Follows stream beyond no outcome) :
    Follows stream beyond
      (do
        if ← checkAny tags then
          let token ← advance
          yes token
        else no) outcome := by
  intro reports
  refine (bind_of_done (checkAny_facing within tags)).trans ?_
  simp only [other, Bool.false_eq_true, ↓reduceIte]
  exact follows reports

/-- Nothing if the closing token comes next. -/
theorem orNothing {nothing : α} {outcome : Outcome α false input}
    (within : input <:+ stream.pending)
    (follows : Rule.nextIs tag input = false → Follows stream beyond run outcome) :
    Follows stream beyond (do if ← check tag then return nothing else run)
      (if Rule.nextIs tag input then .done nothing else outcome) := by
  intro reports
  refine (bind_of_done (check_facing within)).trans ?_
  cases closes : Rule.nextIs tag input with
  | true => exact done nothing reports
  | false => exact follows closes reports

/-- Nothing, unless a token comes that is taken, and then what goes on behind it. -/
theorem optional {yes : Run α} {result : α} {rule : (input : List Token) → Outcome α false input}
    {inner : Token → (input : List Token) → Outcome α further input}
    (none : rule [] = .done result)
    (other : ∀ token more, ¬token.is tag = true → rule (token :: more) = .done result)
    (some : ∀ token more, token.is tag = true →
      rule (token :: more) = (inner token more).behind token)
    (within : input <:+ stream.pending)
    (goOn : ∀ token after, input = token :: after → token.is tag = true →
      Follows stream beyond yes (inner token after)) :
    Follows stream beyond (do if ← accept tag then yes else return result) (rule input) := by
  cases input with
  | nil => exact none ▸ refused rfl within (done result)
  | cons token after =>
    by_cases found : token.is tag = true
    · exact some token after found ▸ accepted found within (goOn token after rfl found)
    · exact other token after found ▸
        refused (Bool.eq_false_iff.mpr found) within (done result)

/-- A run that looks at the next token first. -/
theorem peeked {run : Token → Run α} (within : input <:+ stream.pending)
    (follows : Follows stream beyond (run (input.headD stream.last)) outcome) :
    Follows stream beyond (do run (← peek)) outcome :=
  fun reports => (bind_of_done (peek_facing within)).trans (follows reports)

end Follows

/-- With so many steps and more, the run follows the rule before this input. -/
def Tracks {α : Type} {progress : Bool} (stream : TokenStream) (beyond : List Token) (cost : Nat)
    (run : Nat → Run α) (outcome : Outcome α progress input) : Prop :=
  input <:+ stream.pending → ∀ steps, cost < steps → Follows stream beyond (run steps) outcome

theorem Tracks.of_succ {α : Type} {progress : Bool} {cost : Nat} {run : Nat → Run α}
    {outcome : Outcome α progress input}
    (holds : input <:+ stream.pending → ∀ steps, cost ≤ steps →
      Follows stream beyond (run (steps + 1)) outcome) : Tracks stream beyond cost run outcome := by
  intro within steps enough
  obtain ⟨steps, rfl⟩ := Nat.exists_eq_add_one_of_ne_zero (Nat.ne_zero_of_lt enough)
  exact holds within steps (Nat.le_of_lt_succ enough)

end Parser
end Script
