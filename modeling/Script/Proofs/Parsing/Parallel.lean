import Script.Proofs.Parsing.Outcome

/-! Outcomes that do not depend on what stands behind a semicolon. A rule is run on tokens that end
in their only semicolon, and again with more tokens behind them. -/

namespace Script

/-- The only semicolon is the last token. -/
def Closed (tokens : List Token) : Prop :=
  ∃ front closing, tokens = front ++ [closing] ∧ closing.is .semicolon = true ∧
    ∀ token ∈ front, token.is .semicolon = false

namespace Closed

variable {token : Token} {tokens after : List Token}

theorem ne_nil (closed : Closed tokens) : tokens ≠ [] := by
  obtain ⟨front, closing, rfl, _⟩ := closed
  simp

theorem tail (closed : Closed (token :: after)) (other : token.is .semicolon = false) :
    Closed after := by
  obtain ⟨front, closing, same, closes, open'⟩ := closed
  cases front with
  | nil =>
    cases same
    rw [closes] at other
    cases other
  | cons first front =>
    cases same
    exact ⟨front, closing, rfl, closes, fun token member => open' token (by simp [member])⟩

/-- Behind a token of another category the semicolon is still to come. -/
theorem behind (closed : Closed (token :: after)) {tag : Tag} (found : token.is tag = true)
    (other : tag ≠ .semicolon) : Closed after :=
  closed.tail (Token.is_eq_false found .semicolon other)

/-- At the semicolon nothing is left. -/
theorem eq_nil (closed : Closed (token :: after)) (closes : token.is .semicolon = true) :
    after = [] := by
  obtain ⟨front, closing, same, _, open'⟩ := closed
  cases front with
  | nil =>
    cases same
    rfl
  | cons first front =>
    cases same
    have opens := open' token (by simp)
    rw [closes] at opens
    cases opens

end Closed

/-- Complaints that blame the same tokens, none of them the end. -/
def SameFaults (notes others : List Complaint) : Prop :=
  ∀ last last', notes.map (Complaint.fault last) = others.map (Complaint.fault last')

theorem SameFaults.append {notes others more further : List Complaint}
    (first : SameFaults notes others) (second : SameFaults more further) :
    SameFaults (notes ++ more) (others ++ further) := by
  intro last last'
  rw [List.map_append, List.map_append, first last last', second last last']

theorem SameFaults.nil : SameFaults [] [] := fun _ _ => rfl

/-- A token that is there is blamed whatever stands behind it. -/
theorem sameFaults_single {cause : ParseCause} {tokens : List Token} (some : tokens ≠ [])
    (tail : List Token) : SameFaults [⟨cause, tokens⟩] [⟨cause, tokens ++ tail⟩] := by
  intro last last'
  cases tokens with
  | nil => exact absurd rfl some
  | cons token after => rfl

namespace Outcome

variable {α β : Type} {progress progress' further further' asked asked' : Bool}
variable {input input' tail : List Token}

/-- Both outcomes accept with the same result, the second with `tail` left behind what the first
leaves, or both stop in front of the same token. -/
def Parallel (left : List Token → Prop) (tail : List Token) (outcome : Outcome α progress input)
    (other : Outcome α progress' input') : Prop :=
  outcome.Ensures
    (fun result rest notes => left rest ∧ other.Ensures
      (fun result' rest' notes' =>
        result' = result ∧ rest' = rest ++ tail ∧ SameFaults notes notes')
      fun _ _ => False)
    fun complaint notes => Closed complaint.remaining ∧ other.Ensures (fun _ _ _ => False)
      fun complaint' notes' => complaint' = ⟨complaint.cause, complaint.remaining ++ tail⟩ ∧
        SameFaults notes notes'

variable {left farther : List Token → Prop}
variable {outcome : Outcome α progress input} {other : Outcome α progress' input'}

theorem parallel_done {result : α} (holds : left input) :
    (done result : Outcome α false input).Parallel left tail
      (done result : Outcome α false (input ++ tail)) :=
  ⟨holds, rfl, rfl, .nil⟩

theorem parallel_stop {what : Expectation} (closed : Closed input) :
    (stop what : Outcome α progress input).Parallel left tail
      (stop what : Outcome α progress' (input ++ tail)) :=
  ⟨closed, rfl, .nil⟩

theorem parallel_expect {wanted : Tag} {what : Expectation} (closed : Closed input)
    (holds : ∀ token after, input = token :: after → token.is wanted = true → left after) :
    (Rule.expect wanted what input).Parallel left tail
      (Rule.expect wanted what (input ++ tail)) := by
  cases input with
  | nil => exact absurd rfl closed.ne_nil
  | cons token after =>
    rw [List.cons_append]
    simp only [Rule.expect]
    split
    · rename_i found
      exact ⟨holds token after rfl found, rfl, rfl, .nil⟩
    · exact parallel_stop closed

/-- A wanted token that is no semicolon leaves the semicolon. -/
theorem parallel_expect_other {wanted : Tag} {what : Expectation} (closed : Closed input)
    (other : wanted ≠ .semicolon) :
    (Rule.expect wanted what input).Parallel Closed tail
      (Rule.expect wanted what (input ++ tail)) := by
  refine parallel_expect closed ?_
  rintro token after rfl found
  exact closed.behind found other

/-- A wanted semicolon leaves nothing. -/
theorem parallel_expect_semicolon {what : Expectation} (closed : Closed input) :
    (Rule.expect .semicolon what input).Parallel (· = []) tail
      (Rule.expect .semicolon what (input ++ tail)) := by
  refine parallel_expect closed ?_
  rintro token after rfl closes
  exact closed.eq_nil closes

/-- A token in front decides whether the rule is run. -/
theorem parallel_unless {result : α} {closer : Tag}
    (rule : ∀ input : List Token, Outcome α false input) (closed : Closed input)
    (run : ¬Rule.nextIs closer input = true →
      (rule input).Parallel Closed tail (rule (input ++ tail))) :
    (if Rule.nextIs closer input then done result else rule input).Parallel Closed tail
      (if Rule.nextIs closer (input ++ tail) then done result else rule (input ++ tail)) := by
  have same : Rule.nextIs closer (input ++ tail) = Rule.nextIs closer input := by
    cases input with
    | nil => exact absurd rfl closed.ne_nil
    | cons token after => rfl
  rw [same]
  by_cases closes : Rule.nextIs closer input = true
  · rw [if_pos closes, if_pos closes]
    exact parallel_done closed
  · rw [if_neg closes, if_neg closes]
    exact run closes

theorem Parallel.andThen
    {next : α → (rest : List Token) → Moved progress rest input → Outcome β further rest}
    {next' : α → (rest : List Token) → Moved progress' rest input' → Outcome β further' rest}
    (start : outcome.Parallel left tail other)
    (goOn : ∀ result rest moved moved', left rest →
      (next result rest moved).Parallel farther tail (next' result (rest ++ tail) moved')) :
    (outcome.andThen next).Parallel farther tail (other.andThen next') := by
  cases outcome with
  | stopped complaint within notes =>
    cases other with
    | stopped complaint' within' notes' => exact start
    | accepted result' rest' moved' notes' => exact start.2.elim
  | accepted result rest moved notes =>
    cases other with
    | stopped complaint' within' notes' => exact start.2.elim
    | accepted result' rest' moved' notes' =>
      obtain ⟨holds, rfl, rfl, same⟩ := start
      have after := goOn result' rest moved moved' holds
      unfold Outcome.andThen
      dsimp only
      cases first : next result' rest moved with
      | stopped complaint within more =>
        rw [first] at after
        cases second : next' result' (rest ++ tail) moved' with
        | accepted found behind moved'' others =>
          rw [second] at after
          exact after.2.elim
        | stopped complaint' within' others =>
          rw [second] at after
          obtain ⟨closed, stops, same'⟩ := after
          exact ⟨closed, stops, same.append same'⟩
      | accepted found behind moved'' more =>
        rw [first] at after
        cases second : next' result' (rest ++ tail) moved' with
        | stopped complaint' within' others =>
          rw [second] at after
          exact after.2.elim
        | accepted found' behind' again others =>
          rw [second] at after
          obtain ⟨holds', found, leaves, same'⟩ := after
          exact ⟨holds', found, leaves, same.append same'⟩

theorem Parallel.settle {judge judge' : α → β × List Complaint}
    (parallel : outcome.Parallel left tail other)
    (results : ∀ result, (judge result).1 = (judge' result).1)
    (faults : ∀ result, SameFaults (judge result).2 (judge' result).2) :
    (outcome.settle judge).Parallel left tail (other.settle judge') := by
  cases outcome with
  | stopped complaint within notes =>
    cases other with
    | stopped complaint' within' notes' => exact parallel
    | accepted result' rest' moved' notes' => exact parallel.2.elim
  | accepted result rest moved notes =>
    cases other with
    | stopped complaint' within' notes' => exact parallel.2.elim
    | accepted result' rest' moved' notes' =>
      obtain ⟨holds, rfl, rfl, same⟩ := parallel
      exact ⟨holds, (results result').symm, rfl, same.append (faults result')⟩

theorem Parallel.noting {earlier earlier' : List Complaint}
    (parallel : outcome.Parallel left tail other) (before : SameFaults earlier earlier') :
    (outcome.noting earlier).Parallel left tail (other.noting earlier') := by
  cases outcome with
  | stopped complaint within notes =>
    cases other with
    | stopped complaint' within' notes' =>
      obtain ⟨closed, stops, same⟩ := parallel
      exact ⟨closed, stops, before.append same⟩
    | accepted result' rest' moved' notes' => exact parallel.2.elim
  | accepted result rest moved notes =>
    cases other with
    | stopped complaint' within' notes' => exact parallel.2.elim
    | accepted result' rest' moved' notes' =>
      obtain ⟨holds, accepts, leaves, same⟩ := parallel
      exact ⟨holds, accepts, leaves, before.append same⟩

theorem Parallel.map {change : α → β} (parallel : outcome.Parallel left tail other) :
    (outcome.map change).Parallel left tail (other.map change) := by
  refine ensures_map.mpr (Ensures.mono parallel ?_ ?_)
  · rintro result rest notes ⟨holds, accepts⟩
    refine ⟨holds, ensures_map.mpr (accepts.mono ?_ fun _ _ impossible => impossible)⟩
    rintro _ rest' notes' ⟨rfl, leaves, same⟩
    exact ⟨rfl, leaves, same⟩
  · rintro complaint notes ⟨closed, stops⟩
    exact ⟨closed, ensures_map.mpr stops⟩

theorem Parallel.behind {token : Token} (parallel : outcome.Parallel left tail other) :
    (outcome.behind token : Outcome α asked (token :: input)).Parallel left tail
      (other.behind token : Outcome α asked' (token :: input')) := by
  refine ensures_behind.mpr (Ensures.mono parallel ?_ ?_)
  · rintro result rest notes ⟨holds, accepts⟩
    exact ⟨holds, ensures_behind.mpr accepts⟩
  · rintro complaint notes ⟨closed, stops⟩
    exact ⟨closed, ensures_behind.mpr stops⟩

theorem Parallel.relax (parallel : outcome.Parallel left tail other) :
    outcome.relax.Parallel left tail other.relax := by
  refine ensures_relax.mpr (Ensures.mono parallel ?_ ?_)
  · rintro result rest notes ⟨holds, accepts⟩
    exact ⟨holds, ensures_relax.mpr accepts⟩
  · rintro complaint notes ⟨closed, stops⟩
    exact ⟨closed, ensures_relax.mpr stops⟩

end Outcome
end Script
