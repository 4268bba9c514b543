import Script.Proofs.Parsing.PhraseCursor

/-! The cursor follows the rules for statements and declarations, and recovers where they do. -/

namespace Script

namespace Parser

variable {stream : TokenStream} {beyond : List Token} {input after : List Token} {token : Token}
  {steps : Nat}

theorem optionalBefore_tracks {closer : Tag} :
    Tracks stream beyond (input.length * 20 + 15) (optionalBefore · closer)
      (Rule.optionalBefore closer input) := by
  intro within steps enough
  exact Follows.orNothing within fun _ => (expression_tracks_rule within steps enough).map.relax

theorem terminated_tracks {what : Expectation} :
    Tracks stream beyond (input.length * 20 + 15) (terminated · what)
      (Rule.terminated what input) := by
  intro within steps enough
  refine (expression_tracks_rule within steps enough).andThen fun value rest moved => ?_
  exact (Follows.expect (moved.1.trans within)).map

theorem expressionStatement_tracks :
    Tracks stream beyond (input.length * 20 + 15) expressionStatement
      (Rule.expressionStatement input) :=
  fun within steps enough => (terminated_tracks within steps enough).map

theorem variableDeclaration_tracks :
    Tracks stream beyond (input.length * 20 + 15) variableDeclaration
      (Rule.variableDeclaration input) := by
  intro within steps enough
  rw [Rule.variableDeclaration_eq]
  refine (Follows.expect within).andThen fun name rest moved => ?_
  have inside := moved.1.trans within
  have shorter := moved.length_lt
  cases rest with
  | nil => exact Follows.refused rfl inside ((Follows.expect inside).map).relax
  | cons sign after =>
    rw [List.length_cons] at shorter
    by_cases equals : sign.is .equal = true
    · simp only [Rule.variableBehind, equals, ↓reduceIte]
      refine Follows.accepted equals inside ?_
      exact (terminated_tracks ((List.suffix_cons sign after).trans inside) steps (by omega)).map
    · simp only [Rule.variableBehind, equals, Bool.false_eq_true, ↓reduceIte]
      exact Follows.refused (Bool.eq_false_iff.mpr equals) inside (Follows.expect inside).map.relax

/-- The keyword is the token that was passed over last. -/
theorem returnStatement_follows (within : token :: after <:+ stream.pending)
    (enough : after.length * 20 + 15 < steps) :
    Follows stream beyond (returnStatement steps) (Rule.returnStatement token after) := by
  have inside := (List.suffix_cons token after).trans within
  intro reports
  refine (Run.bind_of_done (previous_facing within)).trans ?_
  refine Follows.andThen (optionalBefore_tracks inside steps enough) (fun value rest moved => ?_)
    reports
  exact (Follows.expect (moved.1.trans inside)).map

theorem condition_tracks {start stop : Expectation} :
    Tracks stream beyond (input.length * 20 + 15) (condition · start stop)
      (Rule.condition start stop input) := by
  intro within steps enough
  refine (Follows.expect within).andThen fun _ rest moved => ?_
  have inside := moved.1.trans within
  have shorter := moved.length_lt
  refine (expression_tracks_rule inside steps (by omega)).andThen fun tree left moved' => ?_
  exact (Follows.expect (moved'.1.trans inside)).map

theorem forInitial_tracks :
    Tracks stream beyond (input.length * 20 + 15) forInitial (Rule.forInitial input) := by
  intro within steps enough
  have expression : Follows stream beyond (do return some (← expressionStatement steps))
      ((Rule.expressionStatement input).map some) :=
    (expressionStatement_tracks within steps enough).map
  cases input with
  | nil => exact Follows.refused rfl within (Follows.refused rfl within expression)
  | cons first after =>
    have inside := (List.suffix_cons first after).trans within
    rw [List.length_cons] at enough
    unfold Rule.forInitial
    by_cases closes : first.is .semicolon = true
    · simp only [closes, ↓reduceIte]
      exact Follows.accepted closes within (.done none)
    · by_cases declares : first.is .varKeyword = true
      · simp only [closes, declares, Bool.false_eq_true, ↓reduceIte]
        refine Follows.refused (Bool.eq_false_iff.mpr closes) within
          (Follows.accepted declares within ?_)
        exact (variableDeclaration_tracks inside steps (by omega)).map
      · simp only [closes, declares, Bool.false_eq_true, ↓reduceIte]
        exact Follows.refused (Bool.eq_false_iff.mpr closes) within
          (Follows.refused (Bool.eq_false_iff.mpr declares) within expression)

theorem forHeader_tracks :
    Tracks stream beyond (input.length * 20 + 15) forHeader (Rule.forHeader input) := by
  intro within steps enough
  refine (Follows.expect within).andThen fun _ rest moved => ?_
  have within := moved.1.trans within
  have shorter := moved.length_lt
  refine (forInitial_tracks within steps (by omega)).andThen fun initial rest moved => ?_
  have within := moved.1.trans within
  have shorter := moved.length_lt
  refine (optionalBefore_tracks within steps (by omega)).andThen fun condition rest moved => ?_
  have within := moved.1.trans within
  have shorter := moved.length_le
  refine (Follows.expect within).andThen fun _ rest moved => ?_
  have within := moved.1.trans within
  have shorter := moved.length_lt
  refine (optionalBefore_tracks within steps (by omega)).andThen fun step rest moved => ?_
  exact (Follows.expect (moved.1.trans within)).map

theorem parameterNames_tracks {count : Nat} :
    Tracks stream beyond input.length (parameterNames · count)
      (Rule.parameterNames count input) := by
  induction count, input using Rule.parameterNames.induct with
  | case1 count input ih =>
    refine Tracks.of_succ fun within steps enough => ?_
    rw [Rule.parameterNames_eq, Outcome.noting_andThen]
    have shape : (if maxArity ≤ count then [Complaint.mk .tooManyParameters input] else []) =
        if decide (maxArity ≤ count) = true then [⟨.tooManyParameters, input⟩] else [] := by
      simp only [decide_eq_true_eq]
    rw [shape]
    refine Follows.noting _ within ?_
    refine (Follows.expect within).andThen fun name rest moved => ?_
    have inside := moved.1.trans within
    have shorter := moved.length_lt
    refine Follows.optional rfl (fun comma after other => if_neg other)
      (fun comma after between => if_pos between) inside ?_
    rintro comma after rfl _
    rw [List.length_cons] at shorter
    exact (ih comma after moved ((List.suffix_cons comma after).trans inside) steps
      (by omega)).map

theorem functionHeader_tracks :
    Tracks stream beyond (input.length * 20 + 15) functionHeader (Rule.functionHeader input) := by
  intro within steps enough
  refine (Follows.expect within).andThen fun name rest moved => ?_
  have within := moved.1.trans within
  have shorter := moved.length_lt
  refine (Follows.expect within).andThen fun _ rest moved => ?_
  have within := moved.1.trans within
  have shorter := moved.length_lt
  refine (Follows.orNothing within fun _ =>
    (parameterNames_tracks within steps (by omega)).relax).andThen fun parameters rest moved => ?_
  have within := moved.1.trans within
  refine (Follows.expect within).andThen fun _ rest moved => ?_
  exact (Follows.expect (moved.1.trans within)).map

section Recovery

variable {reports : List Report}

/-- The cursor skips what the rules skip, behind the token that was passed over last. -/
theorem skip_facing {skipped : Token} {rest : List Token}
    (within : skipped :: rest <:+ stream.pending) (enough : rest.length < steps) :
    skip steps (facing stream beyond rest reports) =
      .done () (facing stream beyond (Rule.resume skipped rest) reports) := by
  induction rest generalizing skipped steps with
  | nil =>
    obtain ⟨steps, rfl⟩ := Nat.exists_eq_add_one_of_ne_zero (Nat.ne_zero_of_lt enough)
    exact Run.bind_of_done (isAtEnd_facing List.nil_suffix)
  | cons next after ih =>
    obtain ⟨steps, rfl⟩ := Nat.exists_eq_add_one_of_ne_zero (Nat.ne_zero_of_lt enough)
    have inside := (List.suffix_cons skipped _).trans within
    rw [List.length_cons] at enough
    refine (Run.bind_of_done (isAtEnd_facing inside)).trans ?_
    refine (Run.bind_of_done (previous_facing within)).trans ?_
    cases ends : skipped.is .semicolon with
    | true =>
      simp only [Rule.resume, ends, Bool.true_or, ↓reduceIte]
      rfl
    | false =>
      refine (Run.bind_of_done (peek_facing inside)).trans ?_
      cases begins : next.beginsStatement with
      | true =>
        simp only [List.headD_cons, Rule.resume, ends, begins, Bool.false_or, ↓reduceIte]
        rfl
      | false =>
        simp only [List.headD_cons, Rule.resume, ends, begins, Bool.false_or, Bool.false_eq_true,
          ↓reduceIte]
        exact (Run.bind_of_done (advance_facing inside)).trans (ih inside (by omega))

theorem synchronize_facing (within : input <:+ stream.pending) (enough : input.length < steps) :
    synchronize steps (facing stream beyond input reports) =
      .done () (facing stream beyond (Rule.synchronize input) reports) := by
  cases input with
  | nil =>
    obtain ⟨token, passed⟩ := advance_at_end stream beyond reports
    obtain ⟨steps, rfl⟩ := Nat.exists_eq_add_one_of_ne_zero (Nat.ne_zero_of_lt enough)
    refine (Run.bind_of_done passed).trans ?_
    exact Run.bind_of_done (isAtEnd_facing List.nil_suffix)
  | cons skipped rest =>
    rw [List.length_cons] at enough
    exact (Run.bind_of_done (advance_facing within)).trans (skip_facing within (by omega))

end Recovery

/-- What is raised is noted, and the cursor goes on at the next statement boundary. -/
theorem Follows.recovering {α : Type} {run : Run α} {outcome : Outcome α true (token :: after)}
    (within : token :: after <:+ stream.pending) (enough : (token :: after).length < steps)
    (follows : Follows stream beyond run outcome) :
    Follows stream beyond (Parser.recovering steps run) outcome.recover := by
  intro reports
  have start := follows reports
  unfold Parser.recovering
  rw [start]
  cases outcome with
  | accepted value rest moved notes => rfl
  | stopped complaint left notes =>
    have shorter := left.length_le
    have skipped : synchronize steps (facing stream beyond complaint.remaining
        (reports ++ notes.map stream.report ++ [stream.report complaint])) = _ :=
      synchronize_facing (left.trans within) (Nat.lt_of_le_of_lt shorter enough)
    simp only [Outcome.shown, Outcome.recover, List.map_append, List.map_cons, List.map_nil,
      ← List.append_assoc]
    exact (Run.bind_of_done skipped).trans rfl

section Rules

theorem statement_tracks_for (found : token.is .forKeyword = true)
    (inner : ∀ rest, Moved true rest after →
      Tracks stream beyond (rest.length * 20 + 16) statement (Rule.statement rest)) :
    Tracks stream beyond ((token :: after).length * 20 + 16) statement
      (Rule.statement (token :: after)) := by
  refine Tracks.of_succ fun within steps enough => ?_
  have inside := (List.suffix_cons token after).trans within
  rw [List.length_cons] at enough
  rw [Rule.statement_for found]
  refine Follows.accepted found within ?_
  refine (forHeader_tracks inside steps (by omega)).andThen fun header rest moved => ?_
  have shorter := moved.length_lt
  exact (inner rest moved (moved.1.trans inside) steps (by omega)).map

theorem statement_tracks_if (found : token.is .ifKeyword = true)
    (inner : ∀ rest, Moved true rest after →
      Tracks stream beyond (rest.length * 20 + 16) statement (Rule.statement rest))
    (outer : ∀ rest, Moved true rest after → ∀ keyword others,
      Moved true (keyword :: others) rest →
        Tracks stream beyond (others.length * 20 + 16) statement (Rule.statement others)) :
    Tracks stream beyond ((token :: after).length * 20 + 16) statement
      (Rule.statement (token :: after)) := by
  refine Tracks.of_succ fun within steps enough => ?_
  have inside := (List.suffix_cons token after).trans within
  rw [List.length_cons] at enough
  rw [Rule.statement_if_eq found]
  refine Follows.refused_of_is found (by decide) within ?_
  refine Follows.accepted found within ?_
  refine (condition_tracks inside steps (by omega)).andThen fun condition rest moved => ?_
  have inRest := moved.1.trans inside
  have shorter := moved.length_lt
  refine (inner rest moved inRest steps (by omega)).andThen fun consequence behind moved' => ?_
  have inBehind := moved'.1.trans inRest
  have shorter' := moved'.length_lt
  refine Follows.optional rfl (fun keyword others other => if_neg other)
    (fun keyword others otherwise => if_pos otherwise) inBehind ?_
  rintro keyword others rfl _
  rw [List.length_cons] at shorter'
  exact (outer rest moved keyword others moved' ((List.suffix_cons keyword others).trans inBehind)
    steps (by omega)).map

theorem statement_tracks_while (found : token.is .whileKeyword = true)
    (inner : ∀ rest, Moved true rest after →
      Tracks stream beyond (rest.length * 20 + 16) statement (Rule.statement rest)) :
    Tracks stream beyond ((token :: after).length * 20 + 16) statement
      (Rule.statement (token :: after)) := by
  refine Tracks.of_succ fun within steps enough => ?_
  have inside := (List.suffix_cons token after).trans within
  rw [List.length_cons] at enough
  rw [Rule.statement_while found]
  iterate 2 refine Follows.refused_of_is found (by decide) within ?_
  refine Follows.accepted found within ?_
  refine (condition_tracks inside steps (by omega)).andThen fun condition rest moved => ?_
  have shorter := moved.length_lt
  exact (inner rest moved (moved.1.trans inside) steps (by omega)).map

theorem statement_tracks_return (found : token.is .returnKeyword = true) :
    Tracks stream beyond ((token :: after).length * 20 + 16) statement
      (Rule.statement (token :: after)) := by
  refine Tracks.of_succ fun within steps enough => ?_
  rw [List.length_cons] at enough
  rw [Rule.statement_return found]
  iterate 3 refine Follows.refused_of_is found (by decide) within ?_
  refine Follows.accepted found within ?_
  exact returnStatement_follows within (by omega)

theorem statement_tracks_block (found : token.is .leftBrace = true)
    (inner : Tracks stream beyond (after.length * 20 + 19) block (Rule.block after)) :
    Tracks stream beyond ((token :: after).length * 20 + 16) statement
      (Rule.statement (token :: after)) := by
  refine Tracks.of_succ fun within steps enough => ?_
  rw [List.length_cons] at enough
  rw [Rule.statement_block found]
  iterate 4 refine Follows.refused_of_is found (by decide) within ?_
  refine Follows.accepted found within ?_
  exact (inner ((List.suffix_cons token after).trans within) steps (by omega)).map

theorem statement_tracks_print (found : token.is .printKeyword = true) :
    Tracks stream beyond ((token :: after).length * 20 + 16) statement
      (Rule.statement (token :: after)) := by
  refine Tracks.of_succ fun within steps enough => ?_
  rw [List.length_cons] at enough
  rw [Rule.statement_print found]
  iterate 5 refine Follows.refused_of_is found (by decide) within ?_
  refine Follows.accepted found within ?_
  exact (terminated_tracks ((List.suffix_cons token after).trans within) steps (by omega)).map

theorem statement_tracks_expression
    (other : ∀ tag ∈ Rule.statementOpeners, Rule.nextIs tag input = false)
    (same : Rule.statement input = Rule.expressionStatement input) :
    Tracks stream beyond (input.length * 20 + 16) statement (Rule.statement input) := by
  refine Tracks.of_succ fun within steps enough => ?_
  rw [same]
  iterate 6 refine Follows.refused (other _ (by decide)) within ?_
  exact expressionStatement_tracks within steps (by omega)

theorem block_tracks
    (inner : Tracks stream beyond (input.length * 20 + 18) (declarations · true)
      (Rule.declarations true input)) :
    Tracks stream beyond (input.length * 20 + 19) block (Rule.block input) := by
  refine Tracks.of_succ fun within steps enough => ?_
  rw [Rule.block]
  refine (inner within steps (by omega)).andThen fun statements rest moved => ?_
  exact (Follows.expect (moved.1.trans within)).map

theorem isClosed_facing {inBlock : Bool} {reports : List Report}
    (within : input <:+ stream.pending) :
    isClosed inBlock (facing stream beyond input reports) =
      .done (inBlock && Rule.nextIs .rightBrace input || input.isEmpty)
        (facing stream beyond input reports) := by
  cases inBlock with
  | false => exact isAtEnd_facing within
  | true =>
    refine (Run.bind_of_done (check_facing within)).trans ?_
    cases closes : Rule.nextIs .rightBrace input with
    | true => rfl
    | false => exact isAtEnd_facing within

theorem declarations_tracks_closed {inBlock : Bool}
    (closed : (inBlock && Rule.nextIs .rightBrace input || input.isEmpty) = true)
    (same : Rule.declarations inBlock input = .done []) :
    Tracks stream beyond (input.length * 20 + 18) (declarations · inBlock)
      (Rule.declarations inBlock input) := by
  refine Tracks.of_succ fun within steps enough reports => ?_
  rw [same]
  refine (Run.bind_of_done (isClosed_facing within)).trans ?_
  simp only [closed, ↓reduceIte]
  exact Follows.done [] reports

theorem declarations_tracks {inBlock : Bool}
    (inside : ¬(inBlock && token.is .rightBrace) = true)
    (first : Tracks stream beyond ((token :: after).length * 20 + 17) declaration
      (Rule.declaration token after))
    (others : ∀ rest, Moved true rest (token :: after) →
      Tracks stream beyond (rest.length * 20 + 18) (declarations · inBlock)
        (Rule.declarations inBlock rest)) :
    Tracks stream beyond ((token :: after).length * 20 + 18) (declarations · inBlock)
      (Rule.declarations inBlock (token :: after)) := by
  refine Tracks.of_succ fun within steps enough reports => ?_
  rw [Rule.declarations_more inside]
  refine (Run.bind_of_done (isClosed_facing within)).trans ?_
  have more : (inBlock && Rule.nextIs .rightBrace (token :: after) ||
      (token :: after).isEmpty) = false := by simpa [Rule.nextIs] using inside
  simp only [more, Bool.false_eq_true, ↓reduceIte]
  refine (Follows.andThen (first within steps (by omega)) fun parsed rest moved => ?_).relax reports
  have shorter := moved.length_lt
  exact (others rest moved (moved.1.trans within) steps (by omega)).map

theorem declaration_tracks_class (found : token.is .classKeyword = true) :
    Tracks stream beyond ((token :: after).length * 20 + 17) declaration
      (Rule.declaration token after) := by
  refine Tracks.of_succ fun within steps enough reports => ?_
  have inside := (List.suffix_cons token after).trans within
  have raised : (accept .classKeyword >>= fun taken =>
      if taken = true then (do Run.raise (← blamePrevious .unsupportedClass))
      else do
        if ← accept .funKeyword then
          let header ← functionHeader steps
          let body ← block steps
          return Stmt.function header.1 header.2 body
        else if ← accept .varKeyword then variableDeclaration steps
        else statement steps) (facing stream beyond (token :: after) reports) =
      .raised (stream.report ⟨.unsupportedClass, token :: after⟩)
        (facing stream beyond after reports) :=
    (Run.bind_of_done (accept_of_next found within)).trans
      (Run.bind_of_done (blamePrevious_facing within))
  have skipped : synchronize steps (facing stream beyond after
      (reports ++ [stream.report ⟨.unsupportedClass, token :: after⟩])) = _ :=
    synchronize_facing inside (by rw [List.length_cons] at enough; omega)
  rw [Rule.declaration_class found]
  show recovering steps _ _ = _
  unfold recovering
  rw [raised]
  exact (Run.bind_of_done skipped).trans rfl

theorem declaration_tracks_fun (found : token.is .funKeyword = true)
    (inner : ∀ rest, Moved true rest after →
      Tracks stream beyond (rest.length * 20 + 19) block (Rule.block rest)) :
    Tracks stream beyond ((token :: after).length * 20 + 17) declaration
      (Rule.declaration token after) := by
  refine Tracks.of_succ fun within steps enough => ?_
  have inside := (List.suffix_cons token after).trans within
  rw [Rule.declaration_fun found]
  refine Follows.recovering within (by omega) ?_
  rw [List.length_cons] at enough
  refine Follows.refused_of_is found (by decide) within ?_
  refine Follows.accepted found within ?_
  refine (functionHeader_tracks inside steps (by omega)).andThen fun header rest moved => ?_
  have shorter := moved.length_lt
  exact (inner rest moved (moved.1.trans inside) steps (by omega)).map

theorem declaration_tracks_var (found : token.is .varKeyword = true) :
    Tracks stream beyond ((token :: after).length * 20 + 17) declaration
      (Rule.declaration token after) := by
  refine Tracks.of_succ fun within steps enough => ?_
  have inside := (List.suffix_cons token after).trans within
  rw [Rule.declaration_var found]
  refine Follows.recovering within (by omega) ?_
  rw [List.length_cons] at enough
  iterate 2 refine Follows.refused_of_is found (by decide) within ?_
  refine Follows.accepted found within ?_
  exact variableDeclaration_tracks inside steps (by omega)

theorem declaration_tracks_statement (noClass : ¬token.is .classKeyword = true)
    (noFun : ¬token.is .funKeyword = true) (noVar : ¬token.is .varKeyword = true)
    (inner : Tracks stream beyond ((token :: after).length * 20 + 16) statement
      (Rule.statement (token :: after))) :
    Tracks stream beyond ((token :: after).length * 20 + 17) declaration
      (Rule.declaration token after) := by
  refine Tracks.of_succ fun within steps enough => ?_
  rw [Rule.declaration_other noClass noFun noVar]
  refine Follows.recovering within (by omega) ?_
  exact Follows.refused (Bool.eq_false_iff.mpr noClass) within
    (Follows.refused (Bool.eq_false_iff.mpr noFun) within
      (Follows.refused (Bool.eq_false_iff.mpr noVar) within (inner within steps (by omega))))

end Rules

/-- The cursor tracks every rule for statements and declarations. -/
theorem statements_track (stream : TokenStream) (beyond : List Token) :
    (∀ input, Tracks stream beyond (input.length * 20 + 16) statement (Rule.statement input)) ∧
    (∀ input, Tracks stream beyond (input.length * 20 + 19) block (Rule.block input)) ∧
    (∀ inBlock input, Tracks stream beyond (input.length * 20 + 18) (declarations · inBlock)
      (Rule.declarations inBlock input)) ∧
    ∀ token after, Tracks stream beyond ((token :: after).length * 20 + 17) declaration
      (Rule.declaration token after) := by
  refine Rule.statement.mutual_induct _ _ _ _ ?statementEnd ?counting ?branch ?loop ?returning
    ?enclosing ?print ?expression ?block ?declarationsEnd ?close ?more ?unsupported ?function
    ?declaration ?statement
  case statementEnd => exact statement_tracks_expression (fun _ _ => rfl) Rule.statement_nil
  case counting => exact fun token after => statement_tracks_for
  case branch => exact fun token after _ => statement_tracks_if
  case loop => exact fun token after _ _ => statement_tracks_while
  case returning => exact fun token after _ _ _ => statement_tracks_return
  case enclosing => exact fun token after _ _ _ _ => statement_tracks_block
  case print => exact fun token after _ _ _ _ _ => statement_tracks_print
  case expression =>
    intro token after noFor noIf noWhile noReturn noBlock noPrint
    have other : ∀ tag ∈ Rule.statementOpeners, token.is tag = false := by
      simp [Rule.statementOpeners, *]
    exact statement_tracks_expression other (Rule.statement_other other)
  case block => exact fun input => block_tracks
  case declarationsEnd =>
    exact fun inBlock => declarations_tracks_closed (by simp) Rule.declarations_nil
  case close =>
    intro inBlock token after closes
    exact declarations_tracks_closed (by simpa [Rule.nextIs] using closes)
      (Rule.declarations_close closes)
  case more => exact fun inBlock token after => declarations_tracks
  case unsupported => exact fun token after => declaration_tracks_class
  case function => exact fun token after _ => declaration_tracks_fun
  case declaration => exact fun token after _ _ => declaration_tracks_var
  case statement => exact fun token after => declaration_tracks_statement

theorem declarations_tracks_rule {inBlock : Bool} :
    Tracks stream beyond (input.length * 20 + 18) (declarations · inBlock)
      (Rule.declarations inBlock input) := (statements_track stream beyond).2.2.1 inBlock input

end Parser
end Script
