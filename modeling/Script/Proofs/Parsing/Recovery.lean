import Mathlib.Data.List.Forall2
import Script.Proofs.Parsing.Exact
import Script.Proofs.Parsing.SentenceParallel

/-! Recovery from faults is local. Declarations, and broken ones that end in their only semicolon,
keep their statements and their faults wherever they stand in a program or a block. -/

namespace Script

open Grammar

/-- The faults that parsing the tokens as a program reports. -/
def programFaults (tokens : List Token) : List ParseError :=
  match (TokenStream.ofList tokens).program.1 with
  | .ok _ => []
  | .error faults => faults

/-- Tokens that are a program, or a broken declaration. -/
inductive Chunk (tokens : List Token) : Prop where
  | sound (some : tokens ≠ []) (unended : ∀ token ∈ tokens, token.is .endOfText = false)
      (statements : List Stmt)
      (parsed : (TokenStream.ofList tokens).program.1 = .ok statements)
  | broken (unended : ∀ token ∈ tokens, token.is .endOfText = false)
      (faults : List ParseError)
      (refused : (TokenStream.ofList tokens).program.1 = .error faults) (broken : Broken tokens)

/-- No declaration stops: what is given up is skipped. -/
theorem Rule.declaration_recovers {first : Token} {others : List Token} :
    (Rule.declaration first others).Ensures (fun _ _ _ => True) fun _ _ => False := by
  have recovered {outcome : Outcome Stmt true (first :: others)} :
      outcome.recover.Ensures (fun _ _ _ => True) fun _ _ => False := by
    cases outcome <;> trivial
  by_cases unsupported : first.is .classKeyword = true
  · rw [declaration_class unsupported]
    trivial
  · by_cases function : first.is .funKeyword = true
    · rw [declaration_fun function]
      exact recovered
    · by_cases declares : first.is .varKeyword = true
      · rw [declaration_var declares]
        exact recovered
      · rw [declaration_other unsupported function declares]
        exact recovered

/-- A broken declaration composes. -/
theorem Broken.composes {tokens : List Token} (broken : Broken tokens) :
    ∃ statements faults, Composes tokens statements faults := by
  cases tokens with
  | nil => exact absurd rfl broken.closed.ne_nil
  | cons first others =>
    have recovers : (Rule.declaration first others).Ensures _ _ := Rule.declaration_recovers
    cases outcome : Rule.declaration first others with
    | stopped complaint within notes =>
      rw [outcome] at recovers
      exact recovers.elim
    | accepted parsed rest moved notes =>
      refine ⟨parsed.toList, notes.map (Complaint.fault first), ?_, ?_⟩
      · intro tail _
        exact (broken.starts first rfl).1
      · intro inBlock last tail more left others' noElse accepts
        have same := broken.declaration_parallel noElse
        rw [outcome] at same
        obtain ⟨rfl, same⟩ := same
        have there : (Rule.declaration first (others ++ tail)).Accepts last parsed tail
            (notes.map (Complaint.fault first)) := by
          refine same.mono ?_ fun _ _ impossible => impossible
          rintro _ _ notes' ⟨rfl, rfl, faults⟩
          exact ⟨rfl, rfl, (faults first last).symm⟩
        have noBrace := (broken.braceless first (by simp)).2
        rw [List.cons_append, Rule.declarations_more (by simp [noBrace])]
        exact (there.andThen fun moved => accepts.map).relax

namespace Composes

variable {tokens : List Token} {statements : List Stmt} {faults : List ParseError}

theorem program_eq (composes : Composes tokens statements faults)
    (unended : ∀ token ∈ tokens, token.is .endOfText = false) :
    (TokenStream.ofList tokens).program.1 =
      if faults = [] then .ok statements else .error faults := by
  have same := TokenStream.pending_ofList unended
  exact TokenStream.program_of_accepts (same.symm ▸ composes.accepts _)

theorem programFaults_eq (composes : Composes tokens statements faults)
    (unended : ∀ token ∈ tokens, token.is .endOfText = false) : programFaults tokens = faults := by
  unfold programFaults
  rw [composes.program_eq unended]
  by_cases clean : faults = []
  · rw [if_pos clean, clean]
  · rw [if_neg clean]

/-- What is parsed to statements composes without a fault. -/
theorem of_parsed (unended : ∀ token ∈ tokens, token.is .endOfText = false)
    (parsed : (TokenStream.ofList tokens).program.1 = .ok statements) :
    Composes tokens statements [] := by
  have program := (TokenStream.ofList tokens).program_eq_ok.mp parsed
  rw [TokenStream.pending_ofList unended] at program
  exact of_program program

/-- Chunks that compose one by one compose in a row. -/
theorem flatten {chunks : List (List Token)}
    (each : ∀ chunk ∈ chunks, ∃ statements, Composes chunk statements (programFaults chunk)) :
    ∃ statements, Composes chunks.flatten statements (chunks.flatMap programFaults) := by
  induction chunks with
  | nil => exact ⟨[], nil⟩
  | cons chunk chunks ih =>
    obtain ⟨⟨first, here⟩, others⟩ := List.forall_mem_cons.mp each
    obtain ⟨rest, there⟩ := ih others
    exact ⟨first ++ rest, here.append there⟩

/-- Programs in a row compose to all their statements. -/
theorem flatten_parsed {chunks : List (List Token)} {statements : List (List Stmt)}
    (unended : ∀ chunk ∈ chunks, ∀ token ∈ chunk, token.is .endOfText = false)
    (parsed : List.Forall₂
      (fun chunk own => (TokenStream.ofList chunk).program.1 = .ok own) chunks statements) :
    Composes chunks.flatten statements.flatten [] := by
  induction parsed with
  | nil => exact nil
  | cons here _ ih =>
    obtain ⟨first, others⟩ := List.forall_mem_cons.mp unended
    exact (of_parsed first here).append (ih others)

end Composes

namespace Chunk

variable {chunk : List Token}

theorem unended (found : Chunk chunk) : ∀ token ∈ chunk, token.is .endOfText = false := by
  cases found with
  | sound some unended => exact unended
  | broken unended => exact unended

theorem composes (found : Chunk chunk) :
    ∃ statements, Composes chunk statements (programFaults chunk) := by
  cases found with
  | sound some unended statements parsed =>
    have composes := Composes.of_parsed unended parsed
    rw [composes.programFaults_eq unended]
    exact ⟨statements, composes⟩
  | broken unended faults refused broken =>
    obtain ⟨statements, faults, composes⟩ := broken.composes
    rw [composes.programFaults_eq unended]
    exact ⟨statements, composes⟩

end Chunk

/-- The faults of chunks in a row are those of the chunks in order, alone or in a block, and the
block closes at its brace. If all chunks are programs, so they are in a row. -/
theorem recovery_is_local (chunks : List (List Token)) (each : ∀ chunk ∈ chunks, Chunk chunk) :
    programFaults chunks.flatten = chunks.flatMap programFaults ∧
    (∀ statements, List.Forall₂
        (fun chunk own => (TokenStream.ofList chunk).program.1 = .ok own) chunks statements →
      (TokenStream.ofList chunks.flatten).program.1 = .ok statements.flatten) ∧
    ∀ opening closing : Token, opening.is .leftBrace = true → closing.is .rightBrace = true →
      programFaults (opening :: chunks.flatten ++ [closing]) = chunks.flatMap programFaults ∧
      ∃ statements, ∀ last rest,
        (Rule.statement (opening :: (chunks.flatten ++ closing :: rest))).Accepts last
          (.block statements) rest (chunks.flatMap programFaults) := by
  have unended : ∀ token ∈ chunks.flatten, token.is .endOfText = false := by
    intro token member
    obtain ⟨chunk, inChunks, inChunk⟩ := List.mem_flatten.mp member
    exact (each chunk inChunks).unended token inChunk
  obtain ⟨statements, composes⟩ :=
    Composes.flatten fun chunk member => (each chunk member).composes
  refine ⟨composes.programFaults_eq unended, ?_, ?_⟩
  · intro parsed all
    have composes := Composes.flatten_parsed (fun chunk member => (each chunk member).unended) all
    exact composes.program_eq unended
  · intro opening closing opens closes
    refine ⟨(composes.block opens closes).programFaults_eq ?_, statements, ?_⟩
    · have openEnd := Token.is_eq_false opens .endOfText (by decide)
      have closeEnd := Token.is_eq_false closes .endOfText (by decide)
      simp only [List.forall_mem_append, List.forall_mem_cons]
      exact ⟨⟨openEnd, unended⟩, closeEnd, by simp⟩
    · intro last rest
      rw [Rule.statement_block opens]
      exact (composes.block_accepts closes last rest).map.behind

/-- An expression statement is a chunk. -/
theorem chunk_nil_statement : Chunk [Tag.nilKeyword.mark "nil", Tag.semicolon.mark ";"] := by
  have phrase : Phrase .strict .primary [Tag.nilKeyword.mark "nil"] (.literal .nil) [] :=
    .nil (Tag.mark_is _ _)
  have sentence := Sentence.expression phrase.of_primary (Tag.mark_is .semicolon ";")
  refine .sound (by simp) (by decide) [.expression (.literal .nil)] ?_
  rw [TokenStream.program_eq_ok, TokenStream.pending_ofList (by decide)]
  exact Program.nil.cons (.statement sentence)

/-- A semicolon alone is a broken declaration. -/
theorem chunk_semicolon : Chunk [Tag.semicolon.mark ";"] := by
  have unended : ∀ token ∈ [Tag.semicolon.mark ";"], token.is .endOfText = false := by decide
  have broken : Broken [Tag.semicolon.mark ";"] :=
    ⟨⟨[], _, rfl, Tag.mark_is _ _, by simp⟩, by decide, by decide, by simp⟩
  rcases (TokenStream.ofList [Tag.semicolon.mark ";"]).program_ok_or_error with
    ⟨statements, parsed⟩ | ⟨fault, faults, refused⟩
  · rw [TokenStream.program_eq_ok, TokenStream.pending_ofList unended] at parsed
    exact absurd (parsed.starts .semicolon (Tag.mark_is _ _)) (by decide)
  · exact .broken unended _ refused broken

theorem recovery_is_local_behind_program :
    (∀ chunk ∈ [[Tag.nilKeyword.mark "nil", Tag.semicolon.mark ";"], [Tag.semicolon.mark ";"]],
      Chunk chunk) ∧
    programFaults [Tag.nilKeyword.mark "nil", Tag.semicolon.mark ";", Tag.semicolon.mark ";"] =
      programFaults [Tag.nilKeyword.mark "nil", Tag.semicolon.mark ";"] ++
        programFaults [Tag.semicolon.mark ";"] := by
  have each : ∀ chunk ∈ [[Tag.nilKeyword.mark "nil", Tag.semicolon.mark ";"],
      [Tag.semicolon.mark ";"]], Chunk chunk := by
    simpa using ⟨chunk_nil_statement, chunk_semicolon⟩
  exact ⟨each, by simpa using (recovery_is_local _ each).1⟩

end Script
