import Script.Session
import Script.Proofs.Parsing.Exact
import Script.Proofs.Token.Concatenation

/-! Which units are accepted, told from the grammar alone, and how units end that name what nothing
binds. -/

namespace Script

namespace TokenStream

theorem pending_ofList_end {tokens : List Token} {last : Token}
    (unended : ∀ token ∈ tokens, token.is .endOfText = false)
    (closes : last.is .endOfText = true) : (ofList (tokens ++ [last])).pending = tokens :=
  (ofList_of_end [] unended closes).1

end TokenStream

/-- A text is accepted exactly if it has no lexical error and its tokens before the end make up a
program. -/
theorem Source.program?_text_eq_ok {text : String} {statements : List Stmt}
    {before : List (Except LexError Token)} {last : Token}
    (scanned : Token.scan text = before ++ [.ok last]) (closes : last.is .endOfText = true)
    (unended : ∀ token ∈ Token.good before, token.is .endOfText = false) :
    (Source.text text).program? = .ok statements ↔
      Token.faults before = [] ∧
        Grammar.Program .strict (Token.good before) statements [] := by
  have good : Token.good (Token.scan text) = Token.good before ++ [last] := by
    rw [scanned, Token.good_append]
    rfl
  have faults : Token.faults (Token.scan text) = Token.faults before := by
    rw [scanned, Token.faults_append]
    exact List.append_nil _
  have pending := TokenStream.pending_ofList_end unended closes
  have parsed : (TokenStream.ofList (Token.good before ++ [last])).program.1 = .ok statements ↔ _ :=
    TokenStream.program_eq_ok _
  rw [pending] at parsed
  show Source.accept (Token.faults (Token.scan text))
    (TokenStream.ofList (Token.good (Token.scan text))).program.1 = _ ↔ _
  rw [good, faults, ← parsed]
  cases (TokenStream.ofList (Token.good before ++ [last])).program.1 with
  | ok found => cases Token.faults before <;> simp [Source.accept]
  | error refused => simp [Source.accept]

/-- Tokens that are a unit need no end. -/
theorem Source.program?_tokens_eq_ok {given : List Token} {statements : List Stmt}
    (unended : ∀ token ∈ given, token.is .endOfText = false) :
    (tokens given).program? = .ok statements ↔ Grammar.Program .strict given statements [] := by
  have parsed : (TokenStream.ofList given).program.1 = .ok statements ↔ _ :=
    TokenStream.program_eq_ok _
  rw [TokenStream.pending_ofList unended] at parsed
  show Source.accept [] (TokenStream.ofList given).program.1 = _ ↔ _
  rw [← parsed]
  cases (TokenStream.ofList given).program.1 <;> simp [Source.accept]

section

variable {machine : Machine} {name : Token}

/-- A name that nothing binds is an error on its line. -/
theorem execute_of_unbound (unbound : machine.scopes.get? machine.active name.lexeme = none)
    (steps : Nat) : execute (steps + 2) (.expression (.reference name)) machine =
      .failed (.runtime ⟨.undefined name.lexeme, name.line⟩) machine :=
  Eval.bind_of_failed (Eval.lookUp_of_unbound unbound)

theorem interpret_of_unbound (unbound : machine.scopes.get? machine.active name.lexeme = none)
    (steps : Nat) : interpret (steps + 2) [.expression (.reference name)] machine =
      .failed (.runtime ⟨.undefined name.lexeme, name.line⟩) machine :=
  Eval.bind_of_failed (Eval.bind_of_failed (execute_of_unbound unbound steps))

/-- A machine on which nothing has run knows no name but that of the clock. -/
theorem Machine.get?_fresh {lexeme : String} (other : "clock" ≠ lexeme) (reading : Nat → Float)
    (output : Output) :
    (Machine.fresh reading output).scopes.get? globalScope lexeme = none := by
  have unbound : (Machine.fresh reading output).scopes.own? globalScope lexeme = none :=
    if_neg other
  have rootless : (Machine.fresh reading output).scopes.parent? globalScope = none := rfl
  rw [ScopeTree.get?, ScopeTree.owner?_eq, unbound, rootless]
  rfl

end

section

open Grammar

theorem Source.program?_print_nil :
    (text "print nil;").program? = .ok [.print (.literal .nil)] := by
  have words : Scan.wordTag "print" = .printKeyword ∧ Scan.wordTag "nil" = .nilKeyword := by decide
  have scanned : Token.scan "print nil;" = [.ok (Tag.printKeyword.mark "print"),
      .ok (Tag.nilKeyword.mark "nil"), .ok (Tag.semicolon.mark ";")] ++
        [.ok ⟨.plain .endOfText, "", 1⟩] := by
    simp [Token.scan, Scan.pieces_eq, Scan.skipTrivia, Scan.cut, Scan.mark?, Scan.equalsPair?,
      Scan.cutWord, Scan.isBlank, Scan.isDigit, Scan.beginsWord, Scan.continuesWord,
      Scan.Piece.item, words, Tag.mark]
  have phrase : Phrase .strict .primary [Tag.nilKeyword.mark "nil"] (.literal .nil) [] :=
    .nil (Tag.mark_is _ _)
  have sentence := Sentence.print (Tag.mark_is .printKeyword "print") phrase.of_primary
    (Tag.mark_is .semicolon ";")
  apply (program?_text_eq_ok scanned rfl (by decide)).mpr
  exact ⟨rfl, Program.nil.cons (.statement sentence)⟩

theorem Grammar.program_name : Program .strict [Tag.identifier.mark "x", Tag.semicolon.mark ";"]
    [.expression (.reference (Tag.identifier.mark "x"))] [] := by
  have phrase : Phrase .strict .primary [Tag.identifier.mark "x"]
      (.reference (Tag.identifier.mark "x")) [] := .name (Tag.mark_is _ _)
  have sentence := Sentence.expression phrase.of_primary (Tag.mark_is .semicolon ";")
  exact Program.nil.cons (.statement sentence)

theorem Source.program?_name :
    (text "x;").program? = .ok [.expression (.reference (Tag.identifier.mark "x"))] := by
  have word : Scan.wordTag "x" = .identifier := by decide
  have scanned : Token.scan "x;" = [.ok (Tag.identifier.mark "x"),
      .ok (Tag.semicolon.mark ";")] ++ [.ok ⟨.plain .endOfText, "", 1⟩] := by
    simp [Token.scan, Scan.pieces_eq, Scan.skipTrivia, Scan.cut, Scan.mark?, Scan.equalsPair?,
      Scan.cutWord, Scan.isBlank, Scan.isDigit, Scan.beginsWord, Scan.continuesWord,
      Scan.Piece.item, word, Tag.mark]
  exact (program?_text_eq_ok scanned rfl (by decide)).mpr ⟨rfl, program_name⟩

end
end Script
