import Script.Proofs.Parsing.DraftedFaults

/-! What parsing a program notes without giving anything up is what can be counted in its
outlines. -/

namespace Script

open Grammar

namespace Grammar

variable {tokens otherTokens : List Token} {drafts : List Draft}

theorem DraftedMaybe.derives (drafted : DraftedMaybe tokens drafts) :
    ∃ value faults, Maybe .lenient tokens value faults ∧
      (faults : Multiset ParseError) = Draft.faultsAll drafts := by
  cases drafted with
  | none => exact ⟨_, _, .none, rfl⟩
  | some drafted =>
    obtain ⟨_, _, derives⟩ := drafted.derives
    exact ⟨_, _, .some derives.phrase, by simp [derives.same]⟩

theorem DraftedVariable.derives (drafted : DraftedVariable tokens drafts) :
    ∃ tree faults, Variable .lenient tokens tree faults ∧
      (faults : Multiset ParseError) = Draft.faultsAll drafts := by
  cases drafted with
  | bare declares named closes => exact ⟨_, _, .bare declares named closes, rfl⟩
  | initial declares named equals drafted closes =>
    obtain ⟨_, _, derives⟩ := drafted.derives
    exact ⟨_, _, .initial declares named equals derives.phrase closes, by simp [derives.same]⟩

theorem DraftedInitial.derives (drafted : DraftedInitial tokens drafts) :
    ∃ initial faults, Initial .lenient tokens initial faults ∧
      (faults : Multiset ParseError) = Draft.faultsAll drafts := by
  cases drafted with
  | none closes => exact ⟨_, _, .none closes, rfl⟩
  | declaration declared =>
    obtain ⟨_, _, derived, same⟩ := declared.derives
    exact ⟨_, _, .declaration derived, same⟩
  | expression drafted closes =>
    obtain ⟨_, _, derives⟩ := drafted.derives
    exact ⟨_, _, .expression derives.phrase closes, by simp [derives.same]⟩

/-- An `else` behind a statement with an open branch is taken by it: the branch that is nearest
gets the alternative, and no fault is added or lost. -/
theorem Sentence.absorb {dangling : Bool} {other : Token} {tree alternative : Stmt}
    {faults otherFaults : List ParseError}
    (sentence : Sentence .lenient (.statement true) tokens tree faults)
    (otherwise : other.is .elseKeyword)
    (outer : Sentence .lenient (.statement dangling) otherTokens alternative otherFaults) :
    ∃ dangling' tree' faults',
      Sentence .lenient (.statement dangling') (tokens ++ other :: otherTokens) tree' faults' ∧
        (faults' : Multiset ParseError) = faults + otherFaults := by
  generalize shape : Form.statement true = form at sentence
  induction sentence with
  | function | declaration | statement => cases shape
  | counting loops opens first tested separates steps closes inner ih =>
    cases shape
    obtain ⟨_, _, _, taken, same⟩ := ih rfl
    have counting := Sentence.counting loops opens first tested separates steps closes taken
    exact ⟨_, _, _, by simpa using counting, by simp [← Multiset.coe_add, same, add_assoc]⟩
  | @branch inside _ _ _ _ _ _ _ _ _ branches opens tested closes inner ih =>
    cases inside with
    | true =>
      obtain ⟨_, _, _, taken, same⟩ := ih rfl
      have branch := Sentence.branch branches opens tested closes taken
      exact ⟨_, _, _, by simpa using branch, by simp [← Multiset.coe_add, same, add_assoc]⟩
    | false =>
      have branch := Sentence.alternative branches opens tested closes inner otherwise outer
      exact ⟨_, _, _, branch, by simp [← Multiset.coe_add, add_assoc]⟩
  | alternative branches opens tested closes inner between last _ ih =>
    cases shape
    obtain ⟨_, _, _, taken, same⟩ := ih rfl
    have branch := Sentence.alternative branches opens tested closes inner between taken
    exact ⟨_, _, _, by simpa using branch, by simp [← Multiset.coe_add, same, add_assoc]⟩
  | loop loops opens tested closes inner ih =>
    cases shape
    obtain ⟨_, _, _, taken, same⟩ := ih rfl
    have loop := Sentence.loop loops opens tested closes taken
    exact ⟨_, _, _, by simpa using loop, by simp [← Multiset.coe_add, same, add_assoc]⟩
  | returning | block | print | expression => cases shape

/-- The rank of what has the form. -/
def Form.rank : Form → Rank
  | .declaration => .declaration
  | .statement _ => .statement

/-- The tokens derive a tree in the lenient grammar with just the faults of the outline. -/
def Outline.Derives (outline : Outline) (rank : Rank) (tokens : List Token) : Prop :=
  ∃ form tree faults, form.rank = rank ∧ Sentence .lenient form tokens tree faults ∧
    (faults : Multiset ParseError) = outline.faults

theorem Outline.Derives.statement {outline : Outline}
    (derives : outline.Derives .statement tokens) :
    ∃ dangling tree faults, Sentence .lenient (.statement dangling) tokens tree faults ∧
      (faults : Multiset ParseError) = outline.faults := by
  obtain ⟨form, tree, faults, ranked, sentence, same⟩ := derives
  cases form with
  | declaration => cases ranked
  | statement dangling => exact ⟨dangling, tree, faults, sentence, same⟩

theorem Outline.Derives.declaration {outline : Outline}
    (derives : outline.Derives .declaration tokens) :
    ∃ tree faults, Sentence .lenient .declaration tokens tree faults ∧
      (faults : Multiset ParseError) = outline.faults := by
  obtain ⟨form, tree, faults, ranked, sentence, same⟩ := derives
  cases form with
  | declaration => exact ⟨tree, faults, sentence, same⟩
  | statement dangling => cases ranked

/-- Parts that derive one by one are the parts of a program, and its faults are theirs. -/
theorem pieces_of_outlines {parts : List (List Token × Outline)}
    (each : ∀ part ∈ parts, part.2.Derives .declaration part.1) :
    ∃ pieces : List (Piece Stmt),
      (∀ piece ∈ pieces, Sentence .lenient .declaration piece.tokens piece.tree piece.faults) ∧
      pieces.flatMap Piece.tokens = parts.flatMap Prod.fst ∧
      (pieces.flatMap Piece.faults : Multiset ParseError) =
        Outline.faultsAll (parts.map Prod.snd) := by
  induction parts with
  | nil => exact ⟨[], by simp, rfl, rfl⟩
  | cons part parts ih =>
    obtain ⟨first, others⟩ := List.forall_mem_cons.mp each
    obtain ⟨tree, faults, sentence, same⟩ := first.declaration
    obtain ⟨pieces, sentences, tokens, counted⟩ := ih others
    refine ⟨⟨part.1, tree, faults⟩ :: pieces, List.forall_mem_cons.mpr ⟨sentence, sentences⟩,
      by rw [List.flatMap_cons, tokens, List.flatMap_cons], ?_⟩
    rw [List.flatMap_cons, ← Multiset.coe_add, counted, same]
    rfl

/-- Whatever is outlined derives in the lenient grammar, with the faults of the outline. -/
theorem Outlined.derives {rank : Rank} {outline : Outline}
    (outlined : Outlined rank tokens outline) : outline.Derives rank tokens := by
  induction outlined with
  | function declares named opens each listed closes bodyOpens inner bodyCloses ih =>
    obtain ⟨pieces, sentences, tokens, counted⟩ := pieces_of_outlines ih
    rw [← tokens]
    refine ⟨.declaration, _, _, rfl, .function declares named opens each listed nofun closes
      bodyOpens sentences bodyCloses, ?_⟩
    simp [← Multiset.coe_add, counted]
  | declaration declared =>
    obtain ⟨_, _, derived, same⟩ := declared.derives
    refine ⟨.declaration, _, _, rfl, .declaration derived, ?_⟩
    simp [parameterFaults, same]
  | statement outlined ih =>
    obtain ⟨_, _, _, sentence, same⟩ := ih.statement
    exact ⟨.declaration, _, _, rfl, .statement sentence, same⟩
  | counting loops opens start tested separates steps closes inner ih =>
    obtain ⟨_, _, initial, sameInitial⟩ := start.derives
    obtain ⟨_, _, condition, sameCondition⟩ := tested.derives
    obtain ⟨_, _, step, sameStep⟩ := steps.derives
    obtain ⟨_, _, _, sentence, same⟩ := ih.statement
    refine ⟨.statement _, _, _, rfl,
      .counting loops opens initial condition separates step closes sentence, ?_⟩
    simp [parameterFaults, ← Multiset.coe_add, add_assoc, *]
  | branch branches opens tested closes inner ih =>
    obtain ⟨_, _, condition⟩ := tested.derives
    obtain ⟨_, _, _, sentence, same⟩ := ih.statement
    refine ⟨.statement _, _, _, rfl, .branch branches opens condition.phrase closes sentence, ?_⟩
    simp [parameterFaults, ← Multiset.coe_add, condition.same, same]
  | alternative branches opens tested closes inner otherwise outer ih ihOuter =>
    obtain ⟨_, _, condition⟩ := tested.derives
    obtain ⟨dangling, _, _, sentence, same⟩ := ih.statement
    obtain ⟨_, _, _, sentence', same'⟩ := ihOuter.statement
    have derived := Sentence.branch branches opens condition.phrase closes sentence
    obtain ⟨_, _, _, taken, sameTaken⟩ := derived.absorb otherwise sentence'
    refine ⟨.statement _, _, _, rfl, taken, ?_⟩
    simp [parameterFaults, ← Multiset.coe_add, condition.same, sameTaken, same, same', add_assoc]
  | loop loops opens tested closes inner ih =>
    obtain ⟨_, _, condition⟩ := tested.derives
    obtain ⟨_, _, _, sentence, same⟩ := ih.statement
    refine ⟨.statement _, _, _, rfl, .loop loops opens condition.phrase closes sentence, ?_⟩
    simp [parameterFaults, ← Multiset.coe_add, condition.same, same]
  | returning returns result closes =>
    obtain ⟨_, _, value, same⟩ := result.derives
    refine ⟨.statement _, _, _, rfl, .returning returns value closes, ?_⟩
    simp [parameterFaults, same]
  | block opens inner closes ih =>
    obtain ⟨pieces, sentences, tokens, counted⟩ := pieces_of_outlines ih
    rw [← tokens]
    refine ⟨.statement _, _, _, rfl, .block opens sentences closes, ?_⟩
    simp [parameterFaults, counted]
  | print prints drafted closes =>
    obtain ⟨_, _, value⟩ := drafted.derives
    refine ⟨.statement _, _, _, rfl, .print prints value.phrase closes, ?_⟩
    simp [parameterFaults, value.same]
  | expression drafted closes =>
    obtain ⟨_, _, value⟩ := drafted.derives
    refine ⟨.statement _, _, _, rfl, .expression value.phrase closes, ?_⟩
    simp [parameterFaults, value.same]

/-- A program of the relaxed grammar derives in the lenient one, with the faults of its outlines. -/
theorem OutlinedProgram.derives {outlines : List Outline}
    (outlined : OutlinedProgram tokens outlines) :
    ∃ statements faults, Program .lenient tokens statements faults ∧
      (faults : Multiset ParseError) = Outline.faultsAll outlines := by
  obtain ⟨parts, each, rfl, rfl⟩ := outlined
  obtain ⟨pieces, sentences, tokens, counted⟩ :=
    pieces_of_outlines fun part member => (each part member).derives
  exact ⟨_, _, ⟨pieces, sentences, tokens, rfl, rfl⟩, counted⟩

end Grammar

/-- Of a program of the relaxed grammar parsing reports what its outlines count, nothing else, and
each as often; it succeeds if that is nothing. -/
theorem relaxed_program_faults (tokens : List Token) (outlines : List Outline)
    (relaxed : OutlinedProgram (tokens.takeWhile (!·.is .endOfText)) outlines) :
    (∃ statements faults, (TokenStream.ofList tokens).program.1 =
        (if faults = [] then .ok statements else .error faults) ∧
      (faults : Multiset ParseError) = Outline.faultsAll outlines) ∧
    ∀ token, ParseError.diagnostic ⟨.invalidTarget, token⟩ =
        .grammaticalAt token "Invalid assignment target." ∧
      ParseError.diagnostic ⟨.tooManyArguments, token⟩ =
        .grammaticalAt token "Can't have more than 255 arguments." ∧
      ParseError.diagnostic ⟨.tooManyParameters, token⟩ =
        .grammaticalAt token "Can't have more than 255 parameters." := by
  obtain ⟨statements, faults, program, counted⟩ := relaxed.derives
  have accepts := (Composes.of_program program).accepts (TokenStream.ofList tokens).last
  exact ⟨⟨statements, faults, TokenStream.program_of_accepts accepts, counted⟩,
    fun token => ⟨rfl, rfl, rfl⟩⟩

/-- A literal that is assigned to. -/
theorem relaxed_program_faults_of_literal :
    OutlinedProgram
      ([Tag.nilKeyword.mark "nil", Tag.equal.mark "=", Tag.nilKeyword.mark "nil",
        Tag.semicolon.mark ";"].takeWhile (!·.is .endOfText))
      [.node [] [.assign (.leaf (Tag.nilKeyword.mark "nil")) (Tag.equal.mark "=")
        (.leaf (Tag.nilKeyword.mark "nil"))] []] ∧
    (TokenStream.ofList [Tag.nilKeyword.mark "nil", Tag.equal.mark "=", Tag.nilKeyword.mark "nil",
      Tag.semicolon.mark ";"]).program.1 = .error [⟨.invalidTarget, Tag.equal.mark "="⟩] := by
  have leaf : Drafted .primary [Tag.nilKeyword.mark "nil"] (.leaf (Tag.nilKeyword.mark "nil")) :=
    .leaf rfl
  have assigned := Drafted.assign leaf.of_primary (Tag.mark_is .equal "=")
    (.inside rfl leaf.of_primary)
  have relaxed : OutlinedProgram _ _ := ⟨[(_, _)], List.forall_mem_singleton.mpr
    (.statement (.expression assigned (Tag.mark_is .semicolon ";"))), rfl, rfl⟩
  refine ⟨relaxed, ?_⟩
  obtain ⟨⟨statements, faults, parsed, counted⟩, _⟩ := relaxed_program_faults
    [Tag.nilKeyword.mark "nil", Tag.equal.mark "=", Tag.nilKeyword.mark "nil",
      Tag.semicolon.mark ";"] _ relaxed
  have single : faults = [⟨.invalidTarget, Tag.equal.mark "="⟩] :=
    Multiset.coe_eq_singleton.mp (counted.trans rfl)
  rw [single] at parsed
  exact parsed

end Script
