import Mathlib.Data.List.TakeWhile
import Script.Proofs.Grammar.Written
import Script.Proofs.Parsing.Composition
import Script.Proofs.Parsing.SentenceSound

/-! Parsing succeeds on exactly the tokens that the strict grammar derives, and its result is the
one tree that they derive. -/

namespace Script

open Grammar

namespace Outcome

variable {α : Type} {progress : Bool} {input rest : List Token} {last : Token}

/-- What is accepted without a fault derives in the strict grammar. -/
theorem Derives.strict {account : Account α} {result : α} {moved : Moved progress rest input}
    (derives : (accepted result rest moved []).Derives last account) :
    ∃ taken, input = taken ++ rest ∧ account .strict taken rest result [] :=
  derives .strict (by simp [Tolerated])

end Outcome

namespace TokenStream

variable (stream : TokenStream)

theorem conclude_eq_ok {α : Type} {result found : α} {complaints : List Complaint} :
    stream.conclude result complaints = .ok found ↔ complaints = [] ∧ result = found := by
  cases complaints <;> simp [conclude]

theorem pending_ofList {tokens : List Token}
    (unended : ∀ token ∈ tokens, token.is .endOfText = false) :
    (ofList tokens).pending = tokens := by
  refine List.takeWhile_eq_self_iff.mpr fun token member => ?_
  simp [unended token member]

/-- What stands behind the first end mark is out of reach. -/
theorem ofList_of_end {before : List Token} {mark : Token} (beyond : List Token)
    (unended : ∀ token ∈ before, token.is .endOfText = false)
    (closes : mark.is .endOfText = true) :
    (ofList (before ++ mark :: beyond)).pending = before ∧
      (ofList (before ++ mark :: beyond)).last = mark := by
  have opens : ∀ token ∈ before, (!token.is .endOfText) = true := by
    intro token member
    rw [unended token member]
    rfl
  have none : before.find? (·.is .endOfText) = none := by
    rw [List.find?_eq_none]
    intro token member
    simp [unended token member]
  constructor
  · show (before ++ mark :: beyond).takeWhile _ = before
    rw [List.takeWhile_append_of_pos opens, List.takeWhile_cons_of_neg (by simp [closes]),
      List.append_nil]
  · show ((before ++ mark :: beyond).find? _).getD _ = mark
    rw [List.find?_append, none, Option.none_or, List.find?_cons, closes]
    rfl

/-- Behind tokens without an end mark one is supplied. -/
theorem ofList_of_unended {tokens : List Token}
    (unended : ∀ token ∈ tokens, token.is .endOfText = false) :
    (ofList tokens).pending = tokens ∧ (ofList tokens).last = missingLast tokens := by
  refine ⟨pending_ofList unended, ?_⟩
  have none : tokens.find? (·.is .endOfText) = none := by
    rw [List.find?_eq_none]
    intro token member
    simp [unended token member]
  show (tokens.find? _).getD _ = _
  rw [none, Option.getD_none]

/-- A program that is parsed whole is refused for its faults alone. -/
theorem program_of_accepts {stream : TokenStream} {statements : List Stmt} {rest : List Token}
    {faults : List ParseError}
    (accepts :
      (Rule.declarations false stream.pending).Accepts stream.last statements rest faults) :
    stream.program.1 = if faults = [] then .ok statements else .error faults := by
  obtain ⟨moved, notes, outcome, rfl⟩ := accepts.eq
  unfold program
  rw [outcome]
  cases notes with
  | nil => rfl
  | cons note notes => rfl

/-- Parsing an expression succeeds on exactly the tokens that derive one. -/
theorem expression_eq_ok {tree : Expr} :
    stream.expression.1 = .ok tree ↔ Phrase .strict .assignment stream.pending tree [] := by
  constructor
  · intro parsed
    have derives : (Rule.expression stream.pending).Derives stream.last _ :=
      Rule.expression_derives_phrase
    unfold expression at parsed
    cases outcome : Rule.expression stream.pending with
    | stopped complaint within notes =>
      rw [outcome] at parsed
      cases parsed
    | accepted result rest moved notes =>
      rw [outcome] at parsed derives
      obtain ⟨clean, rfl⟩ := (conclude_eq_ok stream).mp parsed
      obtain ⟨rfl, noExtra⟩ := List.append_eq_nil_iff.mp clean
      obtain rfl : rest = [] := by simpa using noExtra
      obtain ⟨taken, split, phrase⟩ := derives.strict
      rwa [split, List.append_nil]
  · intro phrase
    have accepts : (Rule.expression stream.pending).Accepts stream.last tree [] [] :=
      Rule.expression_completes phrase
    obtain ⟨moved, notes, outcome, clean⟩ := accepts.eq
    obtain rfl : notes = [] := List.map_eq_nil_iff.mp clean
    unfold expression
    rw [outcome]
    rfl

/-- Parsing a program succeeds on exactly the tokens that derive one. -/
theorem program_eq_ok {statements : List Stmt} :
    stream.program.1 = .ok statements ↔ Program .strict stream.pending statements [] := by
  constructor
  · intro parsed
    have derives : (Rule.declarations false stream.pending).Derives stream.last _ :=
      Rule.declarations_derive_program
    unfold program at parsed
    cases outcome : Rule.declarations false stream.pending with
    | stopped complaint within notes =>
      rw [outcome] at parsed
      cases parsed
    | accepted result rest moved notes =>
      rw [outcome] at parsed derives
      obtain ⟨rfl, rfl⟩ := (conclude_eq_ok stream).mp parsed
      obtain ⟨taken, split, program, rfl | ⟨impossible, _⟩⟩ := derives.strict
      · rwa [split, List.append_nil]
      · cases impossible
  · intro program
    have accepts := (Composes.of_program program).accepts stream.last
    rw [program_of_accepts accepts, if_pos rfl]

/-- A program that is refused has a fault to show for it. -/
theorem program_ok_or_error :
    (∃ statements, stream.program.1 = .ok statements) ∨
      ∃ fault faults, stream.program.1 = .error (fault :: faults) := by
  unfold program
  cases outcome : Rule.declarations false stream.pending with
  | stopped complaint within notes =>
    right
    cases notes with
    | nil => exact ⟨_, _, rfl⟩
    | cons note notes => exact ⟨_, _, rfl⟩
  | accepted result rest moved notes =>
    cases notes with
    | nil => exact .inl ⟨result, rfl⟩
    | cons note notes => exact .inr ⟨_, _, rfl⟩

theorem pending_ofList_phrase {level : Level} {tokens : List Token} {tree : Expr}
    {faults : List ParseError} (phrase : Phrase .strict level tokens tree faults) :
    (ofList tokens).pending = tokens := by
  refine pending_ofList fun token member => ?_
  exact (phrase.among token member).is_eq_false (by decide)

/-- An expression is parsed from exactly the tokens that derive it up to their first end mark. No
tokens derive two trees, and every tree is parsed back from the tokens it is written in. -/
theorem expression_exact :
    (∀ tokens tree, (ofList tokens).expression.1 = .ok tree ↔
      Phrase .strict .assignment (tokens.takeWhile (!·.is .endOfText)) tree []) ∧
    (∀ tokens tree other, Phrase .strict .assignment tokens tree [] →
      Phrase .strict .assignment tokens other [] → tree = other) ∧
    ∀ tokens tree, Phrase .strict .assignment tokens tree [] →
      (ofList tree.written).expression.1 = .ok tree := by
  refine ⟨fun tokens tree => expression_eq_ok (ofList tokens), ?_, ?_⟩
  · intro tokens tree other first second
    have accepts : (Rule.expression tokens).Accepts (missingLast tokens) tree [] [] :=
      Rule.expression_completes first
    have again : (Rule.expression tokens).Accepts (missingLast tokens) other [] [] :=
      Rule.expression_completes second
    exact (accepts.unique again).1
  · intro tokens tree phrase
    rw [expression_eq_ok, pending_ofList_phrase phrase.of_written]
    exact phrase.of_written

/-- A program is parsed from exactly the tokens that derive it up to their first end mark. No
tokens derive two programs, and tokens that derive none are refused with at least one fault. -/
theorem program_exact :
    (∀ tokens statements, (ofList tokens).program.1 = .ok statements ↔
      Program .strict (tokens.takeWhile (!·.is .endOfText)) statements []) ∧
    (∀ tokens statements others, Program .strict tokens statements [] →
      Program .strict tokens others [] → statements = others) ∧
    ∀ tokens, (¬∃ statements,
        Program .strict (tokens.takeWhile (!·.is .endOfText)) statements []) →
      ∃ fault faults, (ofList tokens).program.1 = .error (fault :: faults) := by
  refine ⟨fun tokens statements => program_eq_ok (ofList tokens), ?_, ?_⟩
  · intro tokens statements others first second
    have accepts := (Composes.of_program first).accepts (missingLast tokens)
    have again := (Composes.of_program second).accepts (missingLast tokens)
    exact (accepts.unique again).1
  · intro tokens none
    rcases (ofList tokens).program_ok_or_error with ⟨statements, parsed⟩ | refused
    · exact absurd ⟨statements, (ofList tokens).program_eq_ok.mp parsed⟩ none
    · exact refused

end TokenStream

end Script
