import Script.Proofs.Grammar.Phrase

/-! Outcomes that a grammar accounts for: what a rule takes when it accepts is derived, with the
same result and the same faults. In the strict grammar it is derived if no fault was noted. -/

namespace Script

open Grammar

namespace Outcome

variable {α β : Type} {progress further asked : Bool} {input : List Token} {last : Token}

/-- How a grammar accounts for what a rule accepts: it relates a mode, the tokens taken,
those left, the result and the faults noted. -/
abbrev Account (α : Type) := Mode → List Token → List Token → α → List ParseError → Prop

/-- What the first account takes, and behind it what the second takes. -/
def Account.andThen (first : Account α) (next : α → Account β) : Account β :=
  fun mode taken rest found faults => ∃ before more result own others, taken = before ++ more ∧
    faults = own ++ others ∧ first mode before (more ++ rest) result own ∧
    next result mode more rest found others

/-- One token of the category. -/
def Account.single (wanted : Tag) : Account Token :=
  fun _ taken _ token faults => taken = [token] ∧ token.is wanted = true ∧ faults = []

/-- Every complaint noted is one that the grammar tolerates. -/
def Tolerated (mode : Mode) (notes : List Complaint) : Prop :=
  ∀ note ∈ notes, mode.tolerates note.cause = true

theorem tolerated_append {mode : Mode} {notes more : List Complaint} :
    Tolerated mode (notes ++ more) ↔ Tolerated mode notes ∧ Tolerated mode more :=
  List.forall_mem_append

/-- What the rule takes when it accepts is accounted for, and when it stops it misses something. -/
def Derives (last : Token) (account : Account α) (outcome : Outcome α progress input) : Prop :=
  outcome.Ensures (fun result rest notes => ∀ mode, Tolerated mode notes →
    ∃ taken, input = taken ++ rest ∧
      account mode taken rest result (notes.map (Complaint.fault last)))
    fun complaint _ => ∃ what, complaint.cause = .expected what

variable {account : Account α} {target : Account β}

theorem derives_done {result : α} (holds : ∀ mode, account mode [] input result []) :
    (done result : Outcome α false input).Derives last account :=
  fun mode _ => ⟨[], rfl, holds mode⟩

theorem derives_stop {what : Expectation} :
    (stop what : Outcome α progress input).Derives last account := ⟨what, rfl⟩

theorem derives_expect {wanted : Tag} {what : Expectation} :
    (Rule.expect wanted what input).Derives last (.single wanted) := by
  refine ensures_expect ?_ fun _ => ⟨what, rfl⟩
  rintro token after rfl found mode _
  exact ⟨[token], rfl, rfl, found, rfl⟩

theorem Derives.mono {weaker : Account α} {outcome : Outcome α progress input}
    (derives : outcome.Derives last account)
    (weaken : ∀ mode taken rest result faults, account mode taken rest result faults →
      weaker mode taken rest result faults) : outcome.Derives last weaker := by
  refine Ensures.mono derives ?_ fun _ _ missing => missing
  intro result rest notes holds mode clean
  obtain ⟨taken, split, derived⟩ := holds mode clean
  exact ⟨taken, split, weaken _ _ _ _ _ derived⟩

theorem Derives.andThen {first : Outcome α progress input}
    {next : α → (rest : List Token) → Moved progress rest input → Outcome β further rest}
    {follow : α → Account β} (start : first.Derives last account)
    (goOn : ∀ result rest moved, (next result rest moved).Derives last (follow result)) :
    (first.andThen next).Derives last (account.andThen follow) := by
  refine Ensures.andThen start ?_ fun _ _ missing => missing
  intro result rest moved notes derived
  refine Ensures.mono (goOn result rest moved) ?_ fun _ _ missing => missing
  intro found left others derived' mode clean
  obtain ⟨taken, split, holds⟩ := derived mode (tolerated_append.mp clean).1
  obtain ⟨more, split', holds'⟩ := derived' mode (tolerated_append.mp clean).2
  subst split'
  refine ⟨taken ++ more, by rw [split, List.append_assoc], ?_⟩
  rw [List.map_append]
  exact ⟨taken, more, result, _, _, rfl, rfl, holds, holds'⟩

theorem Derives.settle {outcome : Outcome α progress input} {judge : α → β × List Complaint}
    (derives : outcome.Derives last account)
    (holds : ∀ mode taken rest result faults, Tolerated mode (judge result).2 →
      account mode taken rest result faults →
      target mode taken rest (judge result).1
        (faults ++ (judge result).2.map (Complaint.fault last))) :
    (outcome.settle judge).Derives last target := by
  refine ensures_settle.mpr (Ensures.mono derives ?_ fun _ _ missing => missing)
  intro result rest notes derived mode clean
  obtain ⟨own, judged⟩ := tolerated_append.mp clean
  obtain ⟨taken, split, holds'⟩ := derived mode own
  refine ⟨taken, split, ?_⟩
  rw [List.map_append]
  exact holds mode taken rest result _ judged holds'

theorem Derives.noting {outcome : Outcome α progress input} {earlier : List Complaint}
    {target : Account α} (derives : outcome.Derives last account)
    (holds : ∀ mode taken rest result faults, Tolerated mode earlier →
      input = taken ++ rest → account mode taken rest result faults →
      target mode taken rest result (earlier.map (Complaint.fault last) ++ faults)) :
    (outcome.noting earlier).Derives last target := by
  refine ensures_noting.mpr (Ensures.mono derives ?_ fun _ _ missing => missing)
  intro result rest notes derived mode clean
  obtain ⟨before, own⟩ := tolerated_append.mp clean
  obtain ⟨taken, split, holds'⟩ := derived mode own
  refine ⟨taken, split, ?_⟩
  rw [List.map_append]
  exact holds mode taken rest result _ before split holds'

theorem Derives.map {outcome : Outcome α progress input} {change : α → β}
    (derives : outcome.Derives last fun mode taken rest result faults =>
      target mode taken rest (change result) faults) :
    (outcome.map change).Derives last target := ensures_map.mpr derives

theorem Derives.relax {outcome : Outcome α progress input}
    (derives : outcome.Derives last account) : outcome.relax.Derives last account :=
  ensures_relax.mpr derives

theorem Derives.behind {outcome : Outcome α progress input} {token : Token}
    (derives : outcome.Derives last fun mode taken rest result faults =>
      account mode (token :: taken) rest result faults) :
    (outcome.behind token : Outcome α asked (token :: input)).Derives last account := by
  refine ensures_behind.mpr (Ensures.mono derives ?_ fun _ _ missing => missing)
  intro result rest notes derived mode clean
  obtain ⟨taken, split, holds⟩ := derived mode clean
  exact ⟨token :: taken, by rw [split, List.cons_append], holds⟩

/-- A complaint that stops a declaration is not tolerated. -/
theorem Derives.recover {first : Token} {others : List Token}
    {outcome : Outcome α true (first :: others)} (derives : outcome.Derives last account) :
    outcome.recover.Derives last fun mode taken rest parsed faults =>
      ∃ result, parsed = some result ∧ account mode taken rest result faults := by
  refine ensures_recover.mpr (Ensures.mono derives ?_ ?_)
  · intro result rest notes derived mode clean
    obtain ⟨taken, split, holds⟩ := derived mode clean
    exact ⟨taken, split, result, rfl, holds⟩
  · rintro complaint notes ⟨what, missing⟩ mode clean
    have tolerated := (tolerated_append.mp clean).2 complaint (by simp)
    rw [missing] at tolerated
    cases mode <;> simp [Mode.tolerates] at tolerated

/-- A wanted token at the end. -/
theorem derives_expectLast {wanted : Tag} {what : Expectation} {change : Token → β} :
    ((Rule.expect wanted what input).map change).Derives last
      fun _ taken _ result faults => ∃ token, taken = [token] ∧ token.is wanted = true ∧
        result = change token ∧ faults = [] := by
  refine Derives.map (derives_expect.mono ?_)
  rintro mode _ rest token _ ⟨rfl, found, rfl⟩
  exact ⟨token, rfl, found, rfl, rfl⟩

end Outcome

end Script
