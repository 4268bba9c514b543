import Script.Proofs.Parsing.SentenceComplete

/-! Tokens that declarations make the same statements of wherever they stand: in a program, in a
block, and between others of their kind. -/

namespace Script

open Grammar

/-- Wherever the tokens stand, declarations make these statements of them and note these faults,
and go on behind them. -/
structure Composes (tokens : List Token) (statements : List Stmt) (faults : List ParseError) :
    Prop where
  noElse : ∀ tail, Rule.nextIs .elseKeyword tail = false →
    Rule.nextIs .elseKeyword (tokens ++ tail) = false
  goesOn : ∀ inBlock last tail more left others, Rule.nextIs .elseKeyword tail = false →
    (Rule.declarations inBlock tail).Accepts last more left others →
    (Rule.declarations inBlock (tokens ++ tail)).Accepts last (statements ++ more) left
      (faults ++ others)

namespace Composes

variable {tokens further : List Token} {statements others : List Stmt}
  {faults more : List ParseError}

theorem nil : Composes [] [] [] :=
  ⟨fun _ noElse => noElse, fun _ _ _ _ _ _ _ accepts => accepts⟩

theorem append (first : Composes tokens statements faults) (second : Composes further others more) :
    Composes (tokens ++ further) (statements ++ others) (faults ++ more) := by
  constructor
  · intro tail noElse
    rw [List.append_assoc]
    exact first.noElse _ (second.noElse tail noElse)
  · intro inBlock last tail after left rest noElse accepts
    rw [List.append_assoc, List.append_assoc, List.append_assoc]
    exact first.goesOn _ _ _ _ _ _ (second.noElse tail noElse)
      (second.goesOn _ _ _ _ _ _ noElse accepts)

/-- A program composes, whatever faults it has that are no reason to give it up. -/
theorem of_program {mode : Mode} (program : Program mode tokens statements faults) :
    Composes tokens statements faults := by
  obtain ⟨parts, each, rfl, rfl, rfl⟩ := program
  constructor
  · exact fun tail noElse => Rule.nextIs_else_sentences each noElse
  · intro inBlock last tail more left others noElse accepts
    exact Rule.declarations_accept each
      (fun part member => Rule.sentence_completes last (each part member)) noElse accepts

/-- What composes is parsed whole. -/
theorem accepts (composes : Composes tokens statements faults) (last : Token) :
    (Rule.declarations false tokens).Accepts last statements [] faults := by
  have nothing : (Rule.declarations false []).Accepts last [] [] [] := by
    rw [Rule.declarations_nil]
    exact Outcome.accepts_done
  have whole := composes.goesOn false last [] [] [] [] rfl nothing
  rwa [List.append_nil, List.append_nil, List.append_nil] at whole

/-- A block of what composes closes at its brace. -/
theorem block_accepts (composes : Composes tokens statements faults) {closing : Token}
    (closes : closing.is .rightBrace = true) (last : Token) (rest : List Token) :
    (Rule.block (tokens ++ closing :: rest)).Accepts last statements rest faults := by
  have noElse : Rule.nextIs .elseKeyword (closing :: rest) = false :=
    Token.is_eq_false closes .elseKeyword (by decide)
  have inside := composes.goesOn true last _ _ _ _ noElse (Rule.declarations_accept_close closes)
  rw [List.append_nil, List.append_nil] at inside
  exact Rule.block_closes inside closes

theorem block (composes : Composes tokens statements faults) {opening closing : Token}
    (opens : opening.is .leftBrace = true) (closes : closing.is .rightBrace = true) :
    Composes (opening :: tokens ++ [closing]) [.block statements] faults := by
  constructor
  · intro tail _
    exact Token.is_eq_false opens .elseKeyword (by decide)
  · intro inBlock last tail more left others noElse accepts
    have noBrace := Token.is_eq_false opens .rightBrace (by decide)
    have noClass := Token.is_eq_false opens .classKeyword (by decide)
    have noFun := Token.is_eq_false opens .funKeyword (by decide)
    have noVar := Token.is_eq_false opens .varKeyword (by decide)
    rw [List.append_assoc, List.cons_append, Rule.declarations_more (by simp [noBrace]),
      Rule.declaration_other (by simp [noClass]) (by simp [noFun]) (by simp [noVar]),
      Rule.statement_block opens]
    have inside : (Rule.block (tokens ++ closing :: tail)).Accepts last statements tail faults :=
      composes.block_accepts closes last tail
    refine Outcome.Accepts.relax (Outcome.Accepts.andThen inside.map.behind.recover fun moved => ?_)
    exact accepts.map

end Composes

end Script
