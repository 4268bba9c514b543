import Script.Parsing.Stream

/-! Conditions on the outcome of a rule, and how each way to build a rule from others carries
them. A proof about the grammar unfolds one rule and applies the lemma of each combinator. -/

namespace Script

theorem Token.is_iff {token : Token} {tag : Tag} :
    token.is tag = true ↔ token.kind = .plain tag := by
  cases shape : token.kind with
  | plain found => simp [Token.is, shape, Kind.tag?]
  | string text => simp [Token.is, shape, Kind.tag?]
  | number value => simp [Token.is, shape, Kind.tag?]

/-- A token has one category only. -/
theorem Token.is_eq_false {token : Token} {tag : Tag} (found : token.is tag = true) (other : Tag)
    (different : tag ≠ other) : token.is other = false := by
  have kind := Token.is_iff.mp found
  simpa [Token.is, kind, Kind.tag?] using different

/-- The fault that a complaint stands for; `last` is to blame when no token is left. -/
def Complaint.fault (last : Token) (complaint : Complaint) : ParseError :=
  ⟨complaint.cause, complaint.remaining.headD last⟩

theorem TokenStream.eq_of_parts {stream other : TokenStream}
    (pending : stream.pending = other.pending) (last : stream.last = other.last) :
    stream = other := by
  cases stream
  cases other
  cases pending
  cases last
  rfl

namespace Outcome

variable {α β : Type} {progress further asked : Bool} {input : List Token}

/-- The outcome meets one condition if it accepts and another if it stops. -/
def Ensures (accept : α → List Token → List Complaint → Prop)
    (halt : Complaint → List Complaint → Prop) : Outcome α progress input → Prop
  | .accepted result rest _ notes => accept result rest notes
  | .stopped complaint _ notes => halt complaint notes

/-- The rule accepts with this result, leaves these tokens and notes these faults. -/
def Accepts (last : Token) (result : α) (rest : List Token) (faults : List ParseError) :
    Outcome α progress input → Prop :=
  Ensures (fun found left notes =>
    found = result ∧ left = rest ∧ notes.map (Complaint.fault last) = faults) fun _ _ => False

section Conditions

variable {accept weaker : α → List Token → List Complaint → Prop}
variable {yield : β → List Token → List Complaint → Prop}
variable {halt slower : Complaint → List Complaint → Prop}

theorem Ensures.mono {outcome : Outcome α progress input} (holds : outcome.Ensures accept halt)
    (onAccept : ∀ result rest notes, accept result rest notes → weaker result rest notes)
    (onHalt : ∀ complaint notes, halt complaint notes → slower complaint notes) :
    outcome.Ensures weaker slower := by
  cases outcome with
  | accepted result rest moved notes => exact onAccept result rest notes holds
  | stopped complaint within notes => exact onHalt complaint notes holds

/-- Two rules in a row meet what the second does from wherever the first leaves off. -/
theorem Ensures.andThen {first : Outcome α progress input}
    {next : α → (rest : List Token) → Moved progress rest input → Outcome β further rest}
    (start : first.Ensures accept slower)
    (goOn : ∀ result rest moved notes, accept result rest notes →
      (next result rest moved).Ensures (fun found left more => yield found left (notes ++ more))
        fun complaint more => halt complaint (notes ++ more))
    (onHalt : ∀ complaint notes, slower complaint notes → halt complaint notes) :
    (first.andThen next).Ensures yield halt := by
  cases first with
  | stopped complaint within notes => exact onHalt complaint notes start
  | accepted result rest moved notes =>
    have after := goOn result rest moved notes start
    unfold Outcome.andThen
    dsimp only
    cases outcome : next result rest moved with
    | stopped complaint within more =>
      rw [outcome] at after
      exact after
    | accepted found left moved' more =>
      rw [outcome] at after
      exact after

@[simp] theorem ensures_settle {outcome : Outcome α progress input}
    {judge : α → β × List Complaint} :
    (outcome.settle judge).Ensures yield halt ↔
      outcome.Ensures (fun result rest notes =>
        yield (judge result).1 rest (notes ++ (judge result).2)) halt := by
  cases outcome <;> rfl

@[simp] theorem ensures_map {outcome : Outcome α progress input} {change : α → β} :
    (outcome.map change).Ensures yield halt ↔
      outcome.Ensures (fun result => yield (change result)) halt := by
  cases outcome <;> rfl

@[simp] theorem ensures_noting {outcome : Outcome α progress input} {earlier : List Complaint} :
    (outcome.noting earlier).Ensures accept halt ↔
      outcome.Ensures (fun result rest notes => accept result rest (earlier ++ notes))
        fun complaint notes => halt complaint (earlier ++ notes) := by
  cases outcome <;> rfl

@[simp] theorem ensures_behind {outcome : Outcome α progress input} {token : Token} :
    (outcome.behind token : Outcome α asked (token :: input)).Ensures accept halt ↔
      outcome.Ensures accept halt := by
  cases outcome <;> rfl

@[simp] theorem ensures_relax {outcome : Outcome α progress input} :
    outcome.relax.Ensures accept halt ↔ outcome.Ensures accept halt := by
  cases outcome <;> rfl

@[simp] theorem ensures_recover {first : Token} {others : List Token}
    {outcome : Outcome α true (first :: others)}
    {accept : Option α → List Token → List Complaint → Prop} :
    outcome.recover.Ensures accept halt ↔
      outcome.Ensures (fun result => accept (some result)) fun complaint notes =>
        accept none (Rule.synchronize complaint.remaining) (notes ++ [complaint]) := by
  cases outcome <;> rfl

/-- One token is taken if it is the wanted one; any other, or none, is blamed. -/
theorem ensures_expect {wanted : Tag} {what : Expectation}
    {accept : Token → List Token → List Complaint → Prop}
    (taken : ∀ token after, input = token :: after → token.is wanted = true →
      accept token after [])
    (blamed : Rule.nextIs wanted input = false → halt ⟨.expected what, input⟩ []) :
    (Rule.expect wanted what input).Ensures accept halt := by
  cases input with
  | nil => exact blamed rfl
  | cons token after =>
    simp only [Rule.expect]
    split
    · rename_i found
      exact taken token after rfl found
    · rename_i other
      exact blamed (by simpa [Rule.nextIs] using other)

end Conditions

/-- What the rule accepts has a result of this kind. -/
abbrev Yields (holds : α → Prop) (outcome : Outcome α progress input) : Prop :=
  outcome.Ensures (fun result _ _ => holds result) fun _ _ => True

section Results

variable {holds : β → Prop} {first : Outcome α progress input}
  {next : α → (rest : List Token) → Moved progress rest input → Outcome β further rest}

theorem yields_of_forall {outcome : Outcome β progress input} (all : ∀ result, holds result) :
    outcome.Yields holds := by
  cases outcome with
  | accepted result rest moved notes => exact all result
  | stopped complaint within notes => trivial

theorem Yields.andThen {before : α → Prop} (start : first.Yields before)
    (goOn : ∀ result rest moved, before result → (next result rest moved).Yields holds) :
    (first.andThen next).Yields holds :=
  Ensures.andThen start (fun result rest moved _ found => goOn result rest moved found)
    fun _ _ any => any

/-- Of two rules in a row the second has the result. -/
theorem yields_andThen (goOn : ∀ result rest moved, (next result rest moved).Yields holds) :
    (first.andThen next).Yields holds :=
  Yields.andThen (yields_of_forall fun _ => trivial) fun result rest moved (_ : True) =>
    goOn result rest moved

end Results

section Acceptance

variable {last : Token} {result : α} {rest : List Token} {faults more : List ParseError}

theorem Accepts.eq {outcome : Outcome α progress input}
    (accepts : outcome.Accepts last result rest faults) :
    ∃ moved notes, outcome = .accepted result rest moved notes ∧
      notes.map (Complaint.fault last) = faults := by
  cases outcome with
  | stopped complaint within notes => exact accepts.elim
  | accepted found left moved notes =>
    obtain ⟨rfl, rfl, same⟩ := accepts
    exact ⟨moved, notes, rfl, same⟩

theorem Accepts.unique {outcome : Outcome α progress input} {other : α} {left : List Token}
    (accepts : outcome.Accepts last result rest faults)
    (again : outcome.Accepts last other left more) :
    result = other ∧ rest = left ∧ faults = more := by
  cases outcome with
  | stopped complaint within notes => exact accepts.elim
  | accepted found behind moved notes =>
    obtain ⟨rfl, rfl, rfl⟩ := accepts
    exact again

theorem Accepts.andThen {first : Outcome α progress input} {found : β} {middle : List Token}
    {next : α → (rest : List Token) → Moved progress rest input → Outcome β further rest}
    (start : first.Accepts last result middle faults)
    (goOn : ∀ moved, (next result middle moved).Accepts last found rest more) :
    (first.andThen next).Accepts last found rest (faults ++ more) := by
  refine Ensures.andThen start ?_ fun _ _ impossible => impossible
  rintro _ _ moved notes ⟨rfl, rfl, noted⟩
  refine (goOn moved).mono ?_ fun _ _ impossible => impossible
  rintro _ _ after ⟨rfl, rfl, noted'⟩
  exact ⟨rfl, rfl, by rw [List.map_append, noted, noted']⟩

theorem Accepts.map {outcome : Outcome α progress input} {change : α → β}
    (accepts : outcome.Accepts last result rest faults) :
    (outcome.map change).Accepts last (change result) rest faults := by
  refine ensures_map.mpr (accepts.mono ?_ fun _ _ impossible => impossible)
  rintro _ _ notes ⟨rfl, rfl, noted⟩
  exact ⟨rfl, rfl, noted⟩

theorem Accepts.settle {outcome : Outcome α progress input} {judge : α → β × List Complaint}
    {found : β} (accepts : outcome.Accepts last result rest faults)
    (judged : (judge result).1 = found)
    (noted : faults ++ (judge result).2.map (Complaint.fault last) = more) :
    (outcome.settle judge).Accepts last found rest more := by
  refine ensures_settle.mpr (accepts.mono ?_ fun _ _ impossible => impossible)
  rintro _ _ notes ⟨rfl, rfl, rfl⟩
  exact ⟨judged, rfl, List.map_append.trans noted⟩

theorem Accepts.noting {outcome : Outcome α progress input} {earlier : List Complaint}
    (accepts : outcome.Accepts last result rest faults)
    (noted : earlier.map (Complaint.fault last) ++ faults = more) :
    (outcome.noting earlier).Accepts last result rest more := by
  refine ensures_noting.mpr (accepts.mono ?_ fun _ _ impossible => impossible)
  rintro _ _ notes ⟨rfl, rfl, rfl⟩
  exact ⟨rfl, rfl, List.map_append.trans noted⟩

theorem Accepts.behind {outcome : Outcome α progress input} {token : Token}
    (accepts : outcome.Accepts last result rest faults) :
    (outcome.behind token : Outcome α asked (token :: input)).Accepts last result rest faults :=
  ensures_behind.mpr accepts

theorem Accepts.relax {outcome : Outcome α progress input}
    (accepts : outcome.Accepts last result rest faults) :
    outcome.relax.Accepts last result rest faults := ensures_relax.mpr accepts

theorem Accepts.recover {first : Token} {others : List Token}
    {outcome : Outcome α true (first :: others)}
    (accepts : outcome.Accepts last result rest faults) :
    outcome.recover.Accepts last (some result) rest faults := by
  refine ensures_recover.mpr (accepts.mono ?_ fun _ _ impossible => impossible.elim)
  rintro _ _ notes ⟨rfl, rfl, noted⟩
  exact ⟨rfl, rfl, noted⟩

theorem accepts_done : (done result : Outcome α false input).Accepts last result input [] :=
  ⟨rfl, rfl, rfl⟩

theorem accepts_expect {wanted : Tag} {what : Expectation} {token : Token} {after : List Token}
    (found : token.is wanted = true) :
    (Rule.expect wanted what (token :: after)).Accepts last token after [] := by
  simp only [Rule.expect, if_pos found]
  exact ⟨rfl, rfl, rfl⟩

end Acceptance
end Outcome
end Script
